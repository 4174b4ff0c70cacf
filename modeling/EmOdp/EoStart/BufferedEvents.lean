import EmOdp.Lib.Handover
import EmOdp.EoStart.FinalState

/-! The events sent by the start functions: kept in the stash while the start is under way,
sent or freed when it ends. -/
namespace EmOdp.EoStart
open Lib

/-- Every accepted event has been sent as it was tagged and in order, or freed, and the
stash is destroyed. -/
structure Drained {ι : Type} (s : State ι) : Prop where
  stash : s.stash = none
  events : Handover s.accepted s.sent s.freed

variable {ι : Type} [DecidableEq ι] {s t : State ι}

/-- The start does not take an error exit, the flush is not run in another EO's start
function, and the generations of the event groups are those the events were sent with. -/
def Drains (s : State ι) : Label ι → State ι → Prop
  | .globalReturns ok, _ | .enable ok, _ => ok = true
  | .requestFails _, _ => False
  | .sendBatch numSent nested, _ =>
    (nested = true → numSent = 0) ∧ ∀ entry ∈ (batch s.burst).take numSent, s.retag entry = entry
  | _, _ => True

/-- The stash exists until the flush has ended. -/
def Phase.hasStash : Phase → Bool
  | .globalStart | .globalDone | .waiting | .flushing _ => true
  | .idle | .notifying | .ended => false

structure Kept (s : State ι) : Prop where
  handled : s.phase = .idle ∨ s.phase = .globalStart ∨ s.phase = .globalDone → s.Handled
  waiting : s.sync = false → ¬s.Handled → s.phase = .waiting
  done : s.doneEvent = true → s.requested = ∅ ∧ s.localStart = ∅
  stash : s.phase ≠ .idle → s.stash.isSome = s.phase.hasStash
  burst : s.phase ≠ .idle → (∀ notify, s.phase ≠ .flushing notify) → s.burst = []
  events : s.phase ≠ .idle → ∃ input, s.accepted = input ++ (s.burst ++ s.stash.getD []) ∧
    Handover input s.sent s.freed

omit [DecidableEq ι] in
theorem Kept.drained (h : Kept s) (he : s.phase = .ended) : Drained s := by
  have hstash : s.stash = none := by simpa [he, Phase.hasStash] using h.stash (by simp [he])
  obtain ⟨input,hacc,hh⟩ := h.events (by simp [he])
  rw [h.burst (by simp [he]) (by simp [he]), hstash] at hacc
  simp at hacc
  exact ⟨hstash,hacc ▸ hh⟩

/-- The fields that this invariant is about. -/
structure SameEvents (s t : State ι) : Prop where
  phase : t.phase = s.phase
  sync : t.sync = s.sync
  stash : t.stash = s.stash
  burst : t.burst = s.burst
  accepted : t.accepted = s.accepted
  sent : t.sent = s.sent
  freed : t.freed = s.freed

omit [DecidableEq ι] in
theorem Kept.same (h : Kept s) (hs : SameEvents s t) (hh : ¬t.Handled → ¬s.Handled)
    (hd : t.doneEvent = true → t.requested = ∅ ∧ t.localStart = ∅) : Kept t where
  done := hd
  handled hp := by
    by_contra hn
    exact hh hn (h.handled (hs.phase ▸ hp))
  waiting hsync hn := hs.phase.trans (h.waiting (hs.sync ▸ hsync) (hh hn))
  stash hp := by
    rw [hs.stash, hs.phase]
    exact h.stash (hs.phase ▸ hp)
  burst hp hf := by
    rw [hs.burst]
    exact h.burst (hs.phase ▸ hp) fun n => hs.phase ▸ hf n
  events hp := by
    rw [hs.accepted, hs.burst, hs.stash, hs.sent, hs.freed]
    exact h.events (hs.phase ▸ hp)

omit [DecidableEq ι] in
/-- A step to another phase that leaves the events as they are. -/
theorem Kept.enter (h : Kept s) (hp : s.phase ≠ .idle) (hb : ∀ notify, s.phase ≠ .flushing notify)
    (hs : SameEvents { s with phase := t.phase } t) (hstash : t.phase.hasStash = s.phase.hasStash)
    (hh : t.phase = .idle ∨ t.phase = .globalStart ∨ t.phase = .globalDone → t.Handled)
    (hw : t.sync = false → ¬t.Handled → t.phase = .waiting)
    (hd : t.doneEvent = true → t.requested = ∅ ∧ t.localStart = ∅) : Kept t where
  done := hd
  handled := hh
  waiting := hw
  stash _ := by
    rw [hs.stash, hstash]
    exact h.stash hp
  burst _ _ := by
    rw [hs.burst]
    exact h.burst hp hb
  events _ := by
    rw [hs.accepted, hs.burst, hs.stash, hs.sent, hs.freed]
    exact h.events hp

private theorem kept_start {sync stashOk : Bool} (h : Kept s)
    (ht : s.step (.start sync stashOk) = some t) : Kept t := by
  simp only [State.step] at ht
  split at ht <;> cases ht
  rename_i hg
  have hh : (s.begin sync stashOk).Handled := h.handled (.inl hg.1)
  refine ⟨fun _ => hh,fun _ hn => absurd hh hn,h.done,fun _ => ?_,fun _ _ => rfl,
    fun _ => ⟨[],?_,.nil⟩⟩
  · cases stashOk <;> rfl
  · cases stashOk <;> rfl

private theorem kept_buffer {events : List Entry} (h : Kept s)
    (ht : s.step (.buffer events) = some t) : Kept t := by
  simp only [State.step] at ht
  split at ht
  · cases ht
  rename_i stash hstash
  split at ht <;> cases ht
  rename_i hg
  have hp : s.phase ≠ .idle := fun hp => by
    have := hg.1
    simp [State.buffers, hp, (h.handled (.inl hp)).2.1] at this
  have hburst : s.burst = [] := h.burst hp fun n hn => by simp [State.buffers, hn] at hg
  refine ⟨h.handled,h.waiting,h.done,fun _ => ?_,fun _ _ => hburst,fun _ => ?_⟩
  · have := h.stash hp
    simp only [hstash, Option.isSome_some] at this ⊢
    exact this
  · obtain ⟨input,hacc,hh⟩ := h.events hp
    refine ⟨input,?_,hh⟩
    simp [hacc, hburst, hstash]

private theorem kept_getBurst {num : Nat} (h : Kept s) (ht : s.step (.getBurst num) = some t) :
    Kept t := by
  simp only [State.step] at ht
  split at ht
  swap
  · cases ht
  rename_i notify stash hp hstash hburst
  split at ht <;> cases ht
  have hp' : s.phase ≠ .idle := by simp [hp]
  refine ⟨h.handled,h.waiting,h.done,fun _ => by simp [hp, Phase.hasStash],
    fun _ hf => absurd hp (hf notify),fun _ => ?_⟩
  obtain ⟨input,hacc,hh⟩ := h.events hp'
  refine ⟨input,?_,hh⟩
  simpa [hburst, hstash] using hacc

theorem batch_first (burst : List Entry) : batch burst <+: burst := by
  cases burst with
  | nil => exact List.nil_prefix
  | cons entry entries => exact (List.prefix_cons_inj _).2 (List.takeWhile_prefix _)

private theorem kept_sendBatch {numSent : Nat} {nested : Bool} (h : Kept s)
    (ht : s.step (.sendBatch numSent nested) = some t)
    (hl : Drains s (.sendBatch numSent nested) t) : Kept t := by
  simp only [State.step] at ht
  split at ht
  swap
  · cases ht
  rename_i notify entry entries hp hburst
  split at ht
  swap
  · cases ht
  obtain rfl := Option.some.inj ht
  obtain ⟨hnested,htags⟩ := hl
  rw [hburst] at htags
  have hp' : s.phase ≠ .idle := by simp [hp]
  have hout : ((batch (entry :: entries)).take numSent).map s.retag =
      (batch (entry :: entries)).take numSent := List.map_congr_left htags |>.trans (List.map_id _)
  have hsent : (if nested then s.sent else
      s.sent ++ ((batch (entry :: entries)).take numSent).map s.retag) =
      s.sent ++ (batch (entry :: entries)).take numSent := by
    rw [hout]
    split
    · simp [hnested ‹_›]
    · rfl
  refine ⟨h.handled,h.waiting,h.done,h.stash,fun _ hf => absurd hp (hf notify),fun _ => ?_⟩
  obtain ⟨input,hacc,hh⟩ := h.events hp'
  have hsplit := List.prefix_iff_eq_append.1 (batch_first (entry :: entries))
  refine ⟨input ++ batch (entry :: entries),?_,?_⟩
  · rw [hburst, ← hsplit] at hacc
    simpa only [List.append_assoc] using hacc
  · simp only [hsent]
    exact hh.batch _ _

private theorem kept_destroyStash (h : Kept s) (ht : s.step .destroyStash = some t) : Kept t := by
  simp only [State.step] at ht
  split at ht <;> cases ht
  rename_i notify hp hstash hburst
  have hp' : s.phase ≠ .idle := by simp [hp]
  refine ⟨fun hn => ?_,fun hs hn => ?_,h.done,fun _ => ?_,fun _ _ => hburst,fun _ => ?_⟩
  · cases notify <;> simp at hn
  · have hw := h.waiting hs hn
    rw [hp] at hw
    cases hw
  · cases notify <;> rfl
  · obtain ⟨input,hacc,hh⟩ := h.events hp'
    refine ⟨input,?_,hh⟩
    simpa [hburst, hstash] using hacc

private theorem kept_localBegins {c : ι} (h : Kept s) (ht : s.step (.localBegins c) = some t) :
    Kept t := by
  simp only [State.step] at ht
  split at ht <;> cases ht
  rename_i hc
  refine h.same ⟨rfl,rfl,rfl,rfl,rfl,rfl,rfl⟩ (fun _ hh => ?_) fun hd => ?_
  · simp [hh.1] at hc
  · simp [(h.done hd).1] at hc

private theorem kept_localReturns {c : ι} {ok : Bool} (h : Kept s)
    (ht : s.step (.localReturns c ok) = some t) : Kept t := by
  simp only [State.step] at ht
  split at ht <;> cases ht
  rename_i hc
  refine h.same ⟨rfl,rfl,rfl,rfl,rfl,rfl,rfl⟩ (fun _ hh => ?_) fun hd => ?_
  · simp [hh.2.1] at hc
  · simp at hd
    exact ⟨hd.1.2,hd.2⟩

/-- The done callback of `em_eo_start` goes on with the flush. -/
private theorem kept_doneCallback {ok : Bool} (h : Kept s)
    (ht : s.step (.doneCallback ok) = some t) : Kept t := by
  simp only [State.step] at ht
  split at ht <;> cases ht
  rename_i hd
  obtain ⟨hr,hl⟩ := h.done hd
  have hn : ¬s.Handled := fun hh => by simp [hh.2.2] at hd
  obtain ⟨u,hu,hs,hur,hul,hud⟩ : ∃ u, s.completeLocals ok = u ∧ SameEvents s u ∧
      u.requested = s.requested ∧ u.localStart = s.localStart ∧ u.doneEvent = s.doneEvent := by
    refine ⟨_,rfl,?_⟩
    unfold State.completeLocals
    split <;> exact ⟨⟨rfl,rfl,rfl,rfl,rfl,rfl,rfl⟩,rfl,rfl,rfl⟩
  have hk : Kept u := h.same hs (fun _ => hn) fun _ => ⟨hur.trans hr,hul.trans hl⟩
  rw [hu]
  unfold State.endCallback
  have hrl : u.requested = ∅ ∧ u.localStart = ∅ := ⟨hur.trans hr,hul.trans hl⟩
  split
  · exact hk.same ⟨rfl,rfl,rfl,rfl,rfl,rfl,rfl⟩ (fun hn' => absurd ⟨hrl.1,hrl.2,rfl⟩ hn') (fun h => by cases h)
  · rename_i hsync
    have hp : u.phase = .waiting := by
      refine hk.waiting (by simpa using hsync) fun hh => ?_
      simp [hh.2.2, hd] at hud
    refine hk.enter (by simp [hp]) (by simp [hp]) ⟨rfl,rfl,rfl,rfl,rfl,rfl,rfl⟩ (by rw [hp]; rfl)
      (by rintro (h | h | h) <;> cases h) (fun _ hn' => absurd ⟨hrl.1,hrl.2,rfl⟩ hn')
      (fun h => by cases h)

/-- What a step preserves that takes no error exit. -/
theorem kept_step {l : Label ι} (h : Kept s) (ht : s.step l = some t) (hl : Drains s l t) :
    Kept t := by
  cases l with
  | start sync stashOk => exact kept_start h ht
  | buffer events => exact kept_buffer h ht
  | localBegins c => exact kept_localBegins h ht
  | localReturns c ok => exact kept_localReturns h ht
  | doneCallback ok => exact kept_doneCallback h ht
  | getBurst num => exact kept_getBurst h ht
  | sendBatch numSent nested => exact kept_sendBatch h ht hl
  | destroyStash => exact kept_destroyStash h ht
  | requestFails cores => exact hl.elim
  | create =>
    simp only [State.step] at ht
    split at ht <;> cases ht
    exact h.same ⟨rfl,rfl,rfl,rfl,rfl,rfl,rfl⟩ id h.done
  | globalReturns ok =>
    obtain rfl : ok = true := hl
    simp only [State.step] at ht
    split at ht <;> cases ht
    rename_i hp
    have hh : s.Handled := h.handled (.inr (.inl hp))
    exact h.enter (by simp [hp]) (by simp [hp]) ⟨rfl,rfl,rfl,rfl,rfl,rfl,rfl⟩ (by rw [hp]; rfl)
      (fun _ => hh) (fun _ hn => absurd hh hn) h.done
  | requestAll cores =>
    simp only [State.step] at ht
    split at ht <;> cases ht
    rename_i hg
    have hh : s.Handled := h.handled (.inr (.inr hg.1))
    exact h.enter (by simp [hg.1]) (by simp [hg.1]) ⟨rfl,rfl,rfl,rfl,rfl,rfl,rfl⟩
      (by rw [hg.1]; rfl) (by rintro (h | h | h) <;> cases h) (fun _ _ => rfl) fun hd => by simp [hh.2.2] at hd
  | enable ok =>
    obtain rfl : ok = true := hl
    simp only [State.step] at ht
    split at ht <;> cases ht
    rename_i hp
    have hh : s.Handled := h.handled (.inr (.inr hp))
    exact h.enter (by simp [hp]) (by simp [hp]) ⟨rfl,rfl,rfl,rfl,rfl,rfl,rfl⟩ (by rw [hp]; rfl)
      (fun _ => hh) (fun _ hn => absurd hh hn) h.done
  | syncApi =>
    simp only [State.step] at ht
    split at ht <;> cases ht
    exact h.same ⟨rfl,rfl,rfl,rfl,rfl,rfl,rfl⟩ id h.done
  | pollEnds =>
    simp only [State.step] at ht
    split at ht <;> cases ht
    rename_i hg
    exact h.enter (by simp [hg.1]) (by simp [hg.1]) ⟨rfl,rfl,rfl,rfl,rfl,rfl,rfl⟩
      (by rw [hg.1]; rfl) (by rintro (h | h | h) <;> cases h) (fun hs => by simp [hg.2.1] at hs) h.done
  | notify ok =>
    simp only [State.step] at ht
    split at ht <;> cases ht
    rename_i hp
    refine h.enter (by simp [hp]) (by simp [hp]) ⟨rfl,rfl,rfl,rfl,rfl,rfl,rfl⟩ (by rw [hp]; rfl)
      (by rintro (h | h | h) <;> cases h) (fun hs hn => ?_) h.done
    have hw := h.waiting hs hn
    rw [hp] at hw
    cases hw
  | applyGroup egrp =>
    obtain rfl := Option.some.inj ht
    exact h.same ⟨rfl,rfl,rfl,rfl,rfl,rfl,rfl⟩ id h.done
  | stop =>
    simp only [State.step] at ht
    split at ht <;> cases ht
    rename_i hg
    have hh : s.Handled := hg.2.2
    exact ⟨fun _ => hh,fun _ hn => absurd hh hn,h.done,fun h => absurd rfl h,
      fun h => absurd rfl h,fun h => absurd rfl h⟩

omit [DecidableEq ι] in
private theorem kept_initial (h : Initial s) : Kept s where
  handled _ := h.handled
  waiting _ hn := absurd h.handled hn
  done hd := by simp [h.handled.2.2] at hd
  stash hp := absurd h.phase hp
  burst hp := absurd h.phase hp
  events hp := absurd h.phase hp

instance (l : Label ι) : Decidable (Drains s l t) :=
  match l with
  | .globalReturns ok | .enable ok => inferInstanceAs (Decidable (ok = true))
  | .requestFails _ => inferInstanceAs (Decidable False)
  | .sendBatch .. => inferInstanceAs (Decidable (_ ∧ _))
  | .create | .start .. | .buffer _ | .requestAll _ | .localBegins _ | .localReturns .. | .doneCallback _
  | .syncApi | .pollEnds | .getBurst _ | .destroyStash | .notify _ | .applyGroup _ | .stop =>
    inferInstanceAs (Decidable True)

/-- Events from the global and a local start function; the last one is not accepted by its
queue. -/
private def flushed : Option (State (Fin 2)) :=
  System.exec State.step (fun s l t => decide (Drains s l t)) noEo
    [.create, .start false true, .buffer [⟨0,7,none,0⟩,⟨1,8,some 3,0⟩], .globalReturns true,
      .requestAll {0,1}, .localBegins 0, .buffer [⟨2,8,some 3,0⟩], .localReturns 0 true,
      .localBegins 1, .localReturns 1 true, .doneCallback true, .getBurst 3, .sendBatch 1 false,
      .sendBatch 1 false, .destroyStash]

private theorem flushed_isSome : flushed.isSome = true := by decide

/-- The global start function sends an event and then fails. -/
private def failed : Option (State (Fin 2)) :=
  System.exec State.step (fun _ _ _ => true) noEo
    [.create, .start false true, .buffer [⟨0,7,none,0⟩], .globalReturns false]

private theorem failed_isSome : failed.isSome = true := by decide

end EmOdp.EoStart
