import EmOdp.EoStart.Machine

/-! The state that an EO is left in when its start has ended. -/
namespace EmOdp.EoStart
open Lib
variable {ι : Type} [DecidableEq ι] {s t : State ι}

/-- The global start, every local start and the enabling of the queues have succeeded. -/
def State.Succeeded (s : State ι) : Prop :=
  s.globalOk = true ∧ s.localFailed = ∅ ∧ s.enableOk = true

instance : Decidable s.Succeeded := inferInstanceAs (Decidable (_ ∧ _ ∧ _))

/-- The state that the start is to end in. -/
def State.outcome (s : State ι) : EoState := if s.Succeeded then .running else .error

/-- The done callback finds no failure and can enable the queues, and the notifications of
`em_eo_start` can be sent. -/
def CompletesWell (s : State ι) : Label ι → State ι → Prop
  | .doneCallback ok, _ => s.localFailed = ∅ ∧ ok = true
  | .notify ok, _ => ok = true
  | _, _ => True

/-- Requests counted by the event group, or its done event, are on their way. -/
def Pending (s : State ι) : Prop := s.counted = true ∧ ¬s.Handled

/-- Before the requests or `queue_enable_all`. -/
structure Early (s : State ι) : Prop where
  eo : s.eo = .starting
  handled : s.Handled
  counted : s.counted = false
  localFailed : s.localFailed = ∅
  enableOk : s.enableOk = false

structure Late (s : State ι) : Prop where
  pending : Pending s → s.globalOk = true ∧ s.eo = .starting
  settled : ¬Pending s → s.eo = s.outcome
  uncounted : s.counted = false → ¬s.Handled → s.enableOk = false
  uncountedDone : s.counted = false → s.doneEvent = false
  done : s.doneEvent = true → s.requested = ∅ ∧ s.localStart = ∅

inductive Inv (s : State ι) : Prop where
  | idle (phase : s.phase = .idle) (handled : s.Handled)
  | globalStart (phase : s.phase = .globalStart) (h : Early s)
  | globalDone (phase : s.phase = .globalDone) (globalOk : s.globalOk = true) (h : Early s)
  | late (phase : s.phase ≠ .idle ∧ s.phase ≠ .globalStart ∧ s.phase ≠ .globalDone) (h : Late s)

/-- Nothing that the state of the EO depends on has changed. -/
structure SameStart (s t : State ι) : Prop where
  eo : t.eo = s.eo
  requested : t.requested = s.requested
  localStart : t.localStart = s.localStart
  localFailed : t.localFailed = s.localFailed
  counted : t.counted = s.counted
  doneEvent : t.doneEvent = s.doneEvent
  globalOk : t.globalOk = s.globalOk
  enableOk : t.enableOk = s.enableOk

omit [DecidableEq ι] in
theorem SameStart.early (h : SameStart s t) (hs : Early s) : Early t where
  eo := h.eo.trans hs.eo
  handled := by
    rw [State.Handled, h.requested, h.localStart, h.doneEvent]
    exact hs.handled
  counted := h.counted.trans hs.counted
  localFailed := h.localFailed.trans hs.localFailed
  enableOk := h.enableOk.trans hs.enableOk

theorem SameStart.late (h : SameStart s t) (hs : Late s) : Late t := by
  have hh : t.Handled ↔ s.Handled := by
    rw [State.Handled, State.Handled, h.requested, h.localStart, h.doneEvent]
  have hp : Pending t ↔ Pending s := by rw [Pending, Pending, hh, h.counted]
  have hsucc : t.Succeeded ↔ s.Succeeded := by
    rw [State.Succeeded, State.Succeeded, h.globalOk, h.localFailed, h.enableOk]
  have ho : t.outcome = s.outcome := if_congr hsucc rfl rfl
  constructor
  · rw [hp, h.globalOk, h.eo]
    exact hs.pending
  · rw [hp, h.eo, ho]
    exact hs.settled
  · rw [h.counted, hh, h.enableOk]
    exact hs.uncounted
  · rw [h.counted, h.doneEvent]
    exact hs.uncountedDone
  · rw [h.doneEvent, h.requested, h.localStart]
    exact hs.done

/-- A step within a phase that leaves the start as it is. -/
theorem Inv.same (h : Inv s) (hp : t.phase = s.phase) (hs : SameStart s t) : Inv t := by
  cases h with
  | idle phase handled =>
    refine .idle (hp.trans phase) ?_
    rw [State.Handled, hs.requested, hs.localStart, hs.doneEvent]
    exact handled
  | globalStart phase h => exact .globalStart (hp.trans phase) (hs.early h)
  | globalDone phase globalOk h => exact .globalDone (hp.trans phase) (hs.globalOk.trans globalOk) (hs.early h)
  | late phase h => exact .late (by rwa [hp]) (hs.late h)

/-- A failure without requests on their way. -/
theorem late_error (he : s.eo = .error) (hc : s.counted = false) (hd : s.doneEvent = false)
    (hen : s.enableOk = false) : Late s where
  pending h := by simp [Pending, hc] at h
  settled _ := by simp [he, State.outcome, State.Succeeded, hen]
  uncounted _ _ := hen
  uncountedDone _ := hd
  done h := by simp [hd] at h

theorem Inv.late_of (h : Inv s) (h₁ : s.phase ≠ .idle) (h₂ : s.phase ≠ .globalStart)
    (h₃ : s.phase ≠ .globalDone) : Late s := by
  cases h with
  | idle phase => exact absurd phase h₁
  | globalStart phase => exact absurd phase h₂
  | globalDone phase => exact absurd phase h₃
  | late _ h => exact h

/-- Requests are on their way only in the later phases. -/
theorem Inv.late_of_not_handled (h : Inv s) (hn : ¬s.Handled) :
    (s.phase ≠ .idle ∧ s.phase ≠ .globalStart ∧ s.phase ≠ .globalDone) ∧ Late s := by
  cases h with
  | idle _ handled => exact absurd handled hn
  | globalStart _ h => exact absurd h.handled hn
  | globalDone _ _ h => exact absurd h.handled hn
  | late phase h => exact ⟨phase,h⟩

private theorem inv_initial (h : Initial s) : Inv s := .idle h.phase h.handled

private theorem inv_start {sync stashOk : Bool} (h : Inv s)
    (ht : s.step (.start sync stashOk) = some t) : Inv t := by
  simp only [State.step] at ht
  split at ht
  swap
  · cases ht
  rename_i hg
  obtain rfl := Option.some.inj ht
  have hh : s.Handled := by
    cases h with
    | idle _ hh => exact hh
    | globalStart _ h => exact h.handled
    | globalDone _ _ h => exact h.handled
    | late hp => exact absurd hg.1 hp.1
  cases stashOk with
  | true => exact .globalStart rfl ⟨rfl,hh,rfl,rfl,rfl⟩
  | false =>
    exact .late ⟨nofun,nofun,nofun⟩ (late_error rfl rfl hh.2.2 rfl)

private theorem inv_globalReturns {ok : Bool} (h : Inv s)
    (ht : s.step (.globalReturns ok) = some t) : Inv t := by
  simp only [State.step] at ht
  split at ht
  swap
  · cases ht
  rename_i hg
  obtain rfl := Option.some.inj ht
  have he : Early s := by
    cases h with
    | idle phase => rw [hg] at phase; cases phase
    | globalStart _ h => exact h
    | globalDone phase => rw [hg] at phase; cases phase
    | late hp => exact absurd hg hp.2.1
  cases ok with
  | true => exact .globalDone rfl rfl ⟨he.eo,he.handled,he.counted,he.localFailed,he.enableOk⟩
  | false =>
    exact .late ⟨nofun,nofun,nofun⟩ (late_error rfl he.counted he.handled.2.2 he.enableOk)

private theorem Inv.early (h : Inv s) (hp : s.phase = .globalDone) :
    s.globalOk = true ∧ Early s := by
  cases h with
  | idle phase => rw [hp] at phase; cases phase
  | globalStart phase => rw [hp] at phase; cases phase
  | globalDone _ hok h => exact ⟨hok,h⟩
  | late hn => exact absurd hp hn.2.2

private theorem inv_requests {cores : Finset ι} (h : Inv s)
    (ht : s.step (.requestAll cores) = some t ∨ s.step (.requestFails cores) = some t) : Inv t := by
  rcases ht with ht | ht <;> simp only [State.step] at ht <;> split at ht
  all_goals try cases ht
  · rename_i hg
    obtain ⟨hok,he⟩ := h.early hg.1
    refine .late ⟨nofun,nofun,nofun⟩ ⟨fun _ => ⟨hok,he.eo⟩,fun hn => ?_,nofun,nofun,fun hd => ?_⟩
    · exact absurd ⟨rfl,fun hh : State.Handled _ => hg.2 hh.1⟩ hn
    · exact absurd hd (by simp [he.handled.2.2])
  · rename_i hg
    obtain ⟨hok,he⟩ := h.early hg
    exact .late ⟨nofun,nofun,nofun⟩ (late_error rfl he.counted he.handled.2.2 he.enableOk)

private theorem inv_enable {ok : Bool} (h : Inv s) (ht : s.step (.enable ok) = some t) : Inv t := by
  simp only [State.step] at ht
  split at ht
  swap
  · cases ht
  rename_i hg
  obtain rfl := Option.some.inj ht
  obtain ⟨hok,he⟩ := h.early hg
  cases ok with
  | true =>
    refine .late ⟨nofun,nofun,nofun⟩ ⟨fun hp => ?_,fun _ => ?_,fun _ hn => absurd he.handled hn,
      fun _ => he.handled.2.2,fun _ => ⟨he.handled.1,he.handled.2.1⟩⟩
    · exact absurd hp.1 (by simp [he.counted])
    · simp [State.outcome, State.Succeeded, hok, he.localFailed]
  | false =>
    exact .late ⟨nofun,nofun,nofun⟩ (late_error rfl he.counted he.handled.2.2 he.enableOk)

private theorem inv_localBegins {c : ι} (h : Inv s) (ht : s.step (.localBegins c) = some t) :
    Inv t := by
  simp only [State.step] at ht
  split at ht
  swap
  · cases ht
  rename_i hc
  obtain rfl := Option.some.inj ht
  have hn : ¬s.Handled := fun hh => by simp [hh.1] at hc
  obtain ⟨hphase,hl⟩ := h.late_of_not_handled hn
  have hn' : ∀ u : State ι, c ∈ u.localStart → ¬u.Handled := fun u hu hh => by simp [hh.2.1] at hu
  refine .late hphase ⟨fun hp => hl.pending ⟨hp.1,hn⟩,fun hp => ?_,fun hc' _ => hl.uncounted hc' hn,
    hl.uncountedDone,fun hd => ?_⟩
  · refine hl.settled fun hp' => hp ⟨hp'.1,hn' _ ?_⟩
    simp
  · simp [(hl.done hd).1] at hc

private theorem inv_localReturns {c : ι} {ok : Bool} (h : Inv s)
    (ht : s.step (.localReturns c ok) = some t) : Inv t := by
  simp only [State.step] at ht
  split at ht
  swap
  · cases ht
  rename_i hc
  obtain rfl := Option.some.inj ht
  have hn : ¬s.Handled := fun hh => by simp [hh.2.1] at hc
  obtain ⟨hphase,hl⟩ := h.late_of_not_handled hn
  refine .late hphase ⟨fun hp => hl.pending ⟨hp.1,hn⟩,fun hp => ?_,fun hc' _ => hl.uncounted hc' hn,
    fun hc' => ?_,fun hd => ?_⟩
  · cases hcount : s.counted with
    | true =>
      refine absurd ⟨hcount,fun hh : State.Handled _ => ?_⟩ hp
      obtain ⟨hr,hl',hd⟩ := hh
      simp [hcount] at hd
      exact hd hr hl'
    | false =>
      have hen := hl.uncounted hcount hn
      have := hl.settled fun hp' => by simp [Pending, hcount] at hp'
      simp [State.outcome, State.Succeeded, hen] at this ⊢
      exact this
  · have hc'' : s.counted = false := hc'
    simp [hc'']
  · simp at hd
    exact ⟨hd.1.2,hd.2⟩

private theorem inv_doneCallback {ok : Bool} (h : Inv s)
    (ht : s.step (.doneCallback ok) = some t) (hfine : s.localFailed = ∅ ∧ ok = true) : Inv t := by
  simp only [State.step] at ht
  split at ht
  swap
  · cases ht
  rename_i hd
  obtain rfl := Option.some.inj ht
  have hn : ¬s.Handled := fun hh => by simp [hh.2.2] at hd
  obtain ⟨hphase,hl⟩ := h.late_of_not_handled hn
  have hcount : s.counted = true := by
    by_contra hc
    have := hl.uncountedDone (by simpa using hc)
    simp [hd] at this
  have hok := (hl.pending ⟨hcount,hn⟩).1
  obtain ⟨hr,hs⟩ := hl.done hd
  rw [State.completeLocals, if_pos hfine, State.endCallback]
  have hlate : ∀ u : State ι, u.eo = .running → u.enableOk = true → u.globalOk = true →
      u.localFailed = ∅ → u.Handled → u.counted = true → u.doneEvent = false → Late u :=
    fun u he hen hg hf hh hc hdone => ⟨fun hp => absurd hh hp.2,fun _ => by
      simp [he, State.outcome, State.Succeeded, hen, hg, hf],fun hc' => by simp [hc] at hc',
      fun _ => hdone,fun hd' => by simp [hdone] at hd'⟩
  split
  · exact .late hphase (hlate _ rfl rfl hok hfine.1 ⟨hr,hs,rfl⟩ hcount rfl)
  · exact .late ⟨nofun,nofun,nofun⟩ (hlate _ rfl rfl hok hfine.1 ⟨hr,hs,rfl⟩ hcount rfl)

private theorem inv_create (h : Inv s) (ht : s.step .create = some t) : Inv t := by
  simp only [State.step] at ht
  split at ht <;> cases ht
  rename_i hg
  cases h with
  | idle phase handled => exact .idle phase handled
  | globalStart _ h => cases hg.symm.trans h.eo
  | globalDone _ _ h => cases hg.symm.trans h.eo
  | late _ h =>
    by_cases hp : Pending s
    · have := (h.pending hp).2
      simp [hg] at this
    · have := h.settled hp
      unfold State.outcome at this
      split at this <;> simp [hg] at this

theorem same_buffer {events : List Entry} (ht : s.step (.buffer events) = some t) :
    t.phase = s.phase ∧ SameStart s t := by
  simp only [State.step] at ht
  split at ht
  · cases ht
  · split at ht <;> cases ht
    exact ⟨rfl,rfl,rfl,rfl,rfl,rfl,rfl,rfl,rfl⟩

theorem same_getBurst {num : Nat} (ht : s.step (.getBurst num) = some t) :
    t.phase = s.phase ∧ SameStart s t := by
  simp only [State.step] at ht
  split at ht
  · split at ht <;> cases ht
    exact ⟨rfl,rfl,rfl,rfl,rfl,rfl,rfl,rfl,rfl⟩
  · cases ht

theorem same_sendBatch {numSent : Nat} {nested : Bool}
    (ht : s.step (.sendBatch numSent nested) = some t) : t.phase = s.phase ∧ SameStart s t := by
  simp only [State.step] at ht
  split at ht
  · split at ht <;> cases ht
    exact ⟨rfl,rfl,rfl,rfl,rfl,rfl,rfl,rfl,rfl⟩
  · cases ht

theorem same_destroyStash (ht : s.step .destroyStash = some t) :
    ∃ notify, s.phase = .flushing notify ∧ t.phase = (if notify then .notifying else .ended) ∧
      SameStart s t := by
  simp only [State.step] at ht
  split at ht <;> cases ht
  rename_i notify hp _ _
  exact ⟨notify,hp,rfl,rfl,rfl,rfl,rfl,rfl,rfl,rfl,rfl⟩

/-- What a step that completes well preserves. -/
theorem inv_step {l : Label ι} (h : Inv s) (ht : s.step l = some t) (hl : CompletesWell s l t) :
    Inv t := by
  cases l with
  | start sync stashOk => exact inv_start h ht
  | globalReturns ok => exact inv_globalReturns h ht
  | requestAll cores => exact inv_requests h (.inl ht)
  | requestFails cores => exact inv_requests h (.inr ht)
  | enable ok => exact inv_enable h ht
  | localBegins c => exact inv_localBegins h ht
  | localReturns c ok => exact inv_localReturns h ht
  | doneCallback ok => exact inv_doneCallback h ht hl
  | create => exact inv_create h ht
  | buffer events =>
    obtain ⟨hp,hs⟩ := same_buffer ht
    exact h.same hp hs
  | syncApi =>
    simp only [State.step] at ht
    split at ht <;> cases ht
    exact h.same rfl ⟨rfl,rfl,rfl,rfl,rfl,rfl,rfl,rfl⟩
  | pollEnds =>
    simp only [State.step] at ht
    split at ht <;> cases ht
    rename_i hg
    have hl := h.late_of (by simp [hg.1]) (by simp [hg.1]) (by simp [hg.1])
    have hs : SameStart s { s with phase := .flushing false } := ⟨rfl,rfl,rfl,rfl,rfl,rfl,rfl,rfl⟩
    exact .late ⟨nofun,nofun,nofun⟩ (hs.late hl)
  | getBurst num =>
    obtain ⟨hp,hs⟩ := same_getBurst ht
    exact h.same hp hs
  | sendBatch numSent nested =>
    obtain ⟨hp,hs⟩ := same_sendBatch ht
    exact h.same hp hs
  | destroyStash =>
    obtain ⟨notify,hp,hp',hs⟩ := same_destroyStash ht
    have hl := h.late_of (by simp [hp]) (by simp [hp]) (by simp [hp])
    exact .late (by rw [hp']; cases notify <;> exact ⟨nofun,nofun,nofun⟩) (hs.late hl)
  | notify ok =>
    obtain rfl : ok = true := hl
    simp only [State.step] at ht
    split at ht <;> cases ht
    rename_i hg
    have hl := h.late_of (by simp [hg]) (by simp [hg]) (by simp [hg])
    have hs : SameStart s { s with phase := .ended } := ⟨rfl,rfl,rfl,rfl,rfl,rfl,rfl,rfl⟩
    exact .late ⟨nofun,nofun,nofun⟩ (hs.late hl)
  | applyGroup egrp =>
    obtain rfl := Option.some.inj ht
    exact h.same rfl ⟨rfl,rfl,rfl,rfl,rfl,rfl,rfl,rfl⟩
  | stop =>
    simp only [State.step] at ht
    split at ht <;> cases ht
    rename_i hg
    exact .idle rfl hg.2.2

/-- In a run whose steps complete well, an EO whose start has ended is running if all has
succeeded, else it is in error and can be deleted. -/
theorem ended_outcome (s : State ι) (h : machine.ReachableVia CompletesWell s) (he : s.Ended) :
    s.eo = (if s.Succeeded then .running else .error) ∧
      (¬s.Succeeded → s.eo.acceptsDelete = true) := by
  have hi : Inv s := h.invariant (fun _ => inv_initial) fun _ _ _ hi hs hl => inv_step hi hs hl
  have hl := hi.late_of (by simp [he.1]) (by simp [he.1]) (by simp [he.1])
  have ho : s.eo = (if s.Succeeded then .running else .error) := hl.settled fun hp => hp.2 he.2
  refine ⟨ho,fun hn => ?_⟩
  rw [ho, if_neg hn]
  rfl

instance (l : Label ι) : Decidable (CompletesWell s l t) :=
  match l with
  | .doneCallback _ => inferInstanceAs (Decidable (_ ∧ _))
  | .notify ok => inferInstanceAs (Decidable (ok = true))
  | .create | .start .. | .buffer _ | .globalReturns _ | .requestAll _ | .requestFails _ | .enable _
  | .localBegins _ | .localReturns .. | .syncApi | .pollEnds | .getBurst _ | .sendBatch ..
  | .destroyStash | .applyGroup _ | .stop => inferInstanceAs (Decidable True)

/-- An EO that is not created yet. -/
def noEo : State (Fin 2) where
  eo := .undef
  phase := .idle
  sync := false
  stash := none
  burst := []
  gens _ := 0
  requested := ∅
  localStart := ∅
  localFailed := ∅
  counted := false
  doneEvent := false
  inProgress := false
  globalOk := false
  enableOk := false
  accepted := []
  sent := []
  freed := []
  diverted := []

theorem initial_noEo : Initial noEo := ⟨rfl,rfl,rfl,rfl,rfl⟩

/-- Both cores run the local start function, then the queues are enabled. -/
private def started : Option (State (Fin 2)) :=
  System.exec State.step (fun s l t => decide (CompletesWell s l t)) noEo
    [.create, .start true true, .globalReturns true, .requestAll {0,1}, .localBegins 1,
      .localBegins 0, .localReturns 0 true, .localReturns 1 true, .doneCallback true, .pollEnds,
      .destroyStash]

private theorem started_isSome : started.isSome = true := by decide

theorem ended_outcome_started :
    (started.get started_isSome).Succeeded ∧ (started.get started_isSome).eo = .running := by
  have hs : (started.get started_isSome).Succeeded := by decide
  have ho := (ended_outcome _ (System.ReachableVia.exec (fun _ _ _ => of_decide_eq_true)
    (.start initial_noEo) (Option.some_get started_isSome).symm) (by decide)).1
  exact ⟨hs,ho.trans (if_pos hs)⟩

/-- The local start function fails on core 1. -/
private def stuck : Option (State (Fin 2)) :=
  System.exec State.step (fun _ _ _ => true) noEo
    [.create, .start false true, .globalReturns true, .requestAll {0,1}, .localBegins 0,
      .localBegins 1, .localReturns 0 true, .localReturns 1 false, .doneCallback true,
      .destroyStash]

private theorem stuck_isSome : stuck.isSome = true := by decide

/-- No API of the EO's life cycle is accepted any more. -/
theorem failed_start_stuck : ∃ s : State (Fin 2), machine.Reachable s ∧ s.Ended ∧
    s.eo = .starting ∧ s.eo.acceptsStart = false ∧ s.eo.acceptsStop = false ∧
    s.eo.acceptsDelete = false :=
  ⟨stuck.get stuck_isSome,System.ReachableVia.exec (fun _ _ _ _ => trivial)
    (.start initial_noEo) (Option.some_get stuck_isSome).symm,by decide⟩

end EmOdp.EoStart
