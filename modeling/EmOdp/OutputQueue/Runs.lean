import Mathlib.Data.Fintype.Basic
import EmOdp.OutputQueue.Lock

/-! Runs in which no core gives up on a queue that its lock holder will not look at again:
there a queue that no core drains is empty. -/
namespace EmOdp.OutputQueue
open Lib

/-- No core has the queue tracked or attempts to drain it. -/
def Quiet {ι κ E : Type} (s : State ι κ E) (q : κ) : Prop :=
  ∀ c, (s.core c).track.usedQueues q = false ∧ ∀ caller, (s.core c).phase.attempt ≠ some (q,caller)

/-- The core that holds the lock of `q` has seen its last empty dequeue. -/
def State.SeenEmpty {ι κ E : Type} (s : State ι κ E) (q : κ) : Prop :=
  match s.lock q with
  | none => False
  | some d => (s.core d).phase.drained = some q

/-- A trylock that fails after the holder's last dequeue leaves no event behind, unless
another core is to drain the queue, and `output_fn` returns no negative number. -/
def DrainsInTime {ι κ E : Type} (s : State ι κ E) : Label ι κ E → Prop
  | .trylock c =>
    match (s.core c).phase with
    | .trylock q _ => s.SeenEmpty q →
        (s.queue q).odpQueue.isEmpty = true ∨ ∃ d, d ≠ c ∧ (s.core d).drains q
    | .idle | .loop _ | .dequeue _ _ | .output _ _ _ | .unlock _ _ => True
  | .output _ ret => 0 ≤ ret
  | .send .. | .roundEnd _ | .loop _ | .dequeue .. | .unlock _ => True

section Core
variable {κ E : Type} {k : Core κ E} {p : Phase κ E} {q : κ}

instance [DecidableEq κ] : Decidable (k.drains q) := inferInstanceAs (Decidable (_ ∨ _ ∧ _ ≠ _))

theorem Core.drains_of_tracked (h : k.track.usedQueues q = true) (hp : k.phase.drained = none) :
    k.drains q := .inr ⟨h,by simp [hp]⟩

theorem Core.tracked_of_drains (h : k.drains q) (hp : k.phase.draining = none) :
    k.track.usedQueues q = true := by
  rcases h with h | h
  · rw [hp] at h
    cases h
  · exact h.1

/-- A step of the core within its attempt. -/
theorem Core.drains_phase (hdraining : k.phase.draining = none ∨ p.draining = k.phase.draining)
    (hp : p.drained = none) (h : k.drains q) : ({ k with phase := p } : Core κ E).drains q := by
  rcases h with h | h
  · refine .inl ?_
    rcases hdraining with hnone | heq
    · rw [hnone] at h
      cases h
    · exact heq.trans h
  · exact drains_of_tracked h.1 hp

end Core

instance {ι κ E : Type} [Fintype ι] [DecidableEq ι] [DecidableEq κ] (s : State ι κ E)
    (l : Label ι κ E) : Decidable (DrainsInTime s l) := by
  cases l <;> simp only [DrainsInTime, State.SeenEmpty] <;> repeat' split
  all_goals infer_instance

namespace State
variable {ι κ E : Type} [DecidableEq ι] [DecidableEq κ] {s t : State ι κ E} {c : ι}
  {immediate : Bool}

theorem Drained.send_step {q : κ} {events : List E} {numEnq : Nat} (h : s.Drained)
    (ht : s.step immediate (.send c q events numEnq) = some t) : t.Drained := by
  simp only [step] at ht
  split at ht
  swap
  · cases ht
  rename_i hg
  have hidle := phase_idle hg.1
  have hused : ∀ r, (s.core c).drains r → (s.core c).track.usedQueues r = true := fun r hr =>
    Core.tracked_of_drains hr (by rw [hidle]; rfl)
  have hqueue : ∀ r, r ≠ q →
      (Function.update s.queue q ((s.queue q).enqueue events numEnq) r).odpQueue ≠ [] →
      (s.queue r).odpQueue ≠ [] := by
    intro r hr
    rw [Function.update_of_ne hr]
    exact id
  split at ht
  · split at ht <;> cases ht
    · intro r hr
      refine h r ?_
      by_cases he : r = q
      · subst he
        simpa [Queue.enqueue, *] using hr
      · exact hqueue r he hr
    · refine h.update rfl fun r hr => ?_
      by_cases he : r = q
      · subst he
        exact .inl (.inl rfl)
      · exact .inr (.inr ⟨hqueue r he hr,fun hd => Core.drains_of_tracked (hused r hd) rfl⟩)
  · cases ht
    have hphase : (s.core c).phase.drained = none := by rw [hidle]; rfl
    refine h.update rfl fun r hr => ?_
    by_cases he : r = q
    · subst he
      refine .inl (Core.drains_of_tracked ?_ hphase)
      simp only [Track.track]
      split <;> simp [*]
    · refine .inr (.inr ⟨hqueue r he hr,fun hd => Core.drains_of_tracked ?_ hphase⟩)
      have hr := hused r hd
      simp only [Track.track]
      split
      · exact hr
      · simpa only [Function.update_of_ne he] using hr

theorem Drained.trylock_step (h : s.Drained) (hinv : s.Inv)
    (ht : s.step immediate (.trylock c) = some t) (hok : DrainsInTime s (.trylock c)) :
    t.Drained := by
  simp only [step] at ht
  split at ht
  swap
  · cases ht
  rename_i q caller htry
  split at ht <;> cases ht
  · refine h.update rfl fun r hr => .inr (.inr ⟨hr,?_⟩)
    exact Core.drains_phase (.inr (by rw [htry]; rfl)) rfl
  rename_i holder hholder
  refine h.update rfl fun r hr => ?_
  by_cases he : r = q
  swap
  · exact .inr (.inr ⟨hr,Core.drains_attempted (by rw [htry]; rfl) he⟩)
  subst he
  have hlocked := (hinv.lock r holder).1 hholder
  have hne : holder ≠ c := by
    rintro rfl
    rw [htry] at hlocked
    cases hlocked
  -- the holder looks at the queue again, or the condition leaves it to another core
  refine .inr (.inl ?_)
  rcases Phase.draining_of_locked hlocked with hdraining | hdrained
  · exact ⟨holder,hne,.inl hdraining⟩
  · simp only [DrainsInTime, htry] at hok
    have hseen : s.SeenEmpty r := by
      simp only [SeenEmpty, hholder]
      exact hdrained
    exact (hok hseen).resolve_left fun hempty => hr (List.isEmpty_iff.1 hempty)

theorem Drained.dequeue_step {deq : Nat} (h : s.Drained)
    (ht : s.step immediate (.dequeue c deq) = some t) : t.Drained := by
  simp only [step] at ht
  split at ht
  swap
  · cases ht
  rename_i q caller hdeq
  split at ht
  · rename_i hempty
    cases ht
    refine h.update rfl fun r hr => .inr (.inr ⟨hr,fun hd => ?_⟩)
    have hne : r ≠ q := fun he => hr (by rw [he]; exact List.isEmpty_iff.1 hempty)
    rcases hd with hd | hd
    · rw [hdeq] at hd
      exact absurd (Option.some.inj hd).symm hne
    · exact .inr ⟨hd.1,fun he => hne (Option.some.inj he).symm⟩
  split at ht <;> cases ht
  refine h.update rfl fun r hr => .inr (.inr ⟨fun hnil => hr ?_,
    Core.drains_phase (.inr (by rw [hdeq]; rfl)) rfl⟩)
  by_cases he : r = q
  · subst he
    simp [setCore, hnil]
  · simpa only [setCore, Function.update_of_ne he] using hnil

theorem Drained.output_step {ret : Int} (h : s.Drained)
    (ht : s.step immediate (.output c ret) = some t) : t.Drained := by
  simp only [step] at ht
  split at ht <;> cases ht
  rename_i q caller outputEvTbl hout
  refine h.update rfl fun r hr => .inr (.inr ⟨fun hnil => hr ?_,
    Core.drains_phase (.inr (by rw [hout]; rfl)) rfl⟩)
  by_cases he : r = q
  · subst he
    simpa [setCore, Queue.output] using hnil
  · simpa only [setCore, Function.update_of_ne he] using hnil

theorem Drained.unlock_step (h : s.Drained)
    (ht : s.step immediate (.unlock c) = some t) : t.Drained := by
  simp only [step] at ht
  split at ht <;> cases ht
  rename_i q caller hunlock
  refine h.update rfl fun r hr => .inr (.inr ⟨hr,fun hd => ?_⟩)
  by_cases he : r = q
  · subst he
    simp [Core.drains, hunlock, Phase.draining, Phase.drained] at hd
  · exact Core.drains_attempted (by rw [hunlock]; rfl) he hd

theorem drained_step {l : Label ι κ E} (h : s.Drained) (hinv : s.Inv)
    (ht : s.step immediate l = some t) (hok : DrainsInTime s l) : t.Drained := by
  cases l with
  | send c q events numEnq => exact h.send_step ht
  | roundEnd c =>
    simp only [step] at ht
    split at ht <;> cases ht
    rename_i hg
    rw [Bool.and_eq_true] at hg
    exact h.update rfl fun r hr => .inr (.inr ⟨hr,
      Core.drains_phase (.inl (by rw [phase_idle hg.2]; rfl)) rfl⟩)
  | loop c =>
    simp only [step] at ht
    split at ht
    swap
    · cases ht
    rename_i i hloop
    have hused : ∀ r, (s.core c).drains r → (s.core c).track.usedQueues r = true := fun r hr =>
      Core.tracked_of_drains hr (by rw [hloop]; rfl)
    split at ht <;> cases ht
    · exact h.update rfl fun r hr => .inr (.inr ⟨hr,fun hd => Core.drains_of_tracked (hused r hd) rfl⟩)
    · exact h.update rfl fun r hr => .inr (.inr ⟨hr,fun hd => Core.drains_of_tracked (hused r hd) rfl⟩)
  | trylock c => exact h.trylock_step hinv ht hok
  | dequeue c deq => exact h.dequeue_step ht
  | output c ret => exact h.output_step ht
  | unlock c => exact h.unlock_step ht

theorem inBounds_step {l : Label ι κ E} (h : s.outOfBounds = false)
    (ht : s.step immediate l = some t) (hok : DrainsInTime s l) : t.outOfBounds = false := by
  cases l with
  | send | roundEnd | loop | trylock | dequeue | unlock =>
    simp only [step] at ht
    repeat' split at ht
    all_goals cases ht
    all_goals exact h
  | output c ret =>
    have hret : ¬ ret < 0 := Int.not_lt.2 hok
    simp only [step] at ht
    split at ht <;> cases ht
    simp only [setCore, h, hret, decide_false, Bool.or_false]

theorem reachable_inv (h : (machine ι κ E immediate).Reachable s) : s.Inv := by
  refine h.invariant (I := State.Inv) (fun s hi => ?_) fun _ _ _ hs ht _ => inv_step hs ht
  have hlock : ∀ q, s.inFlight q = [] := fun q => by simp only [inFlight, hi.locks q]
  refine ⟨fun c => ⟨fun q hq => ?_,fun q i hq => ?_⟩,fun q c => ?_,fun q => ?_,fun q => ?_⟩
  · rw [(hi.cores c).2 q] at hq
    cases hq
  · rw [(hi.cores c).1] at hq
    cases hq
  · rw [hi.locks q, (hi.cores c).1]
    exact ⟨(fun h => by cases h),fun h => by cases h⟩
  · rw [hlock q, hi.queues q]
    rfl
  · rw [hi.queues q]
    exact .nil

theorem reachable_drained
    (h : (machine ι κ E immediate).ReachableVia (fun s l _ => DrainsInTime s l) s) :
    s.Drained ∧ s.outOfBounds = false := by
  refine (h.invariant (I := fun s => s.Inv ∧ s.Drained ∧ s.outOfBounds = false) (fun s hi => ?_)
    fun _ _ _ hs ht hok => ⟨inv_step hs.1 ht,drained_step hs.2.1 hs.1 ht hok,
      inBounds_step hs.2.2 ht hok⟩).2
  refine ⟨reachable_inv (.start hi),fun q hq => ?_,hi.inBounds⟩
  rw [hi.queues q] at hq
  exact absurd rfl hq

omit [DecidableEq ι] [DecidableEq κ] in
/-- Events taken from a queue that no core attempts to drain have been given on. -/
theorem Inv.inFlight_quiet {q : κ} (h : s.Inv) (hq : Quiet s q) : s.inFlight q = [] := by
  simp only [inFlight]
  split
  · rfl
  · rename_i c hc
    obtain ⟨caller,hattempt⟩ := Phase.locked_attempt ((h.lock q c).1 hc)
    exact absurd hattempt ((hq c).2 caller)

omit [DecidableEq ι] [DecidableEq κ] in
theorem not_drains_quiet {q : κ} (hq : Quiet s q) (c : ι) : ¬ (s.core c).drains q := by
  rintro (hdraining | hused)
  · have hattempt := (hq c).2
    cases hp : (s.core c).phase <;> simp_all [Phase.draining, Phase.attempt]
  · rw [(hq c).1] at hused
    exact Bool.noConfusion hused.1

end State

private def unused : State (Fin 2) Unit Nat where
  queue _ := {}
  lock _ := none
  core _ := {}
  outOfBounds := false

private theorem unused_initial : Initial unused := ⟨fun _ => rfl,fun _ => rfl,fun _ => ⟨rfl,fun _ => rfl⟩,rfl⟩

/-- The second core gives up while the first one is still to dequeue its event. -/
private def bothOutput : Option (State (Fin 2) Unit Nat) :=
  System.exec (State.step true) (fun s l _ => decide (DrainsInTime s l)) unused
    [.send 0 () [1,2] 2,.trylock 0,.dequeue 0 2,.send 1 () [3] 1,.trylock 1,.output 0 1,
      .dequeue 0 1,.output 0 1,.dequeue 0 1,.unlock 0]

private theorem bothOutput_isSome : bothOutput.isSome = true := by decide

/-- The second core's trylock fails after the first core's last empty dequeue: right after
its send, or at the end of its dispatch round. -/
private def oneStranded (immediate : Bool) : Option (State (Fin 2) Unit Nat) :=
  System.exec (State.step immediate) (fun _ _ _ => true) unused
    (if immediate then
      [.send 0 () [1] 1,.trylock 0,.dequeue 0 1,.output 0 1,.dequeue 0 1,.send 1 () [2] 1,
        .trylock 1,.unlock 0]
    else
      [.send 0 () [1] 1,.roundEnd 0,.loop 0,.trylock 0,.dequeue 0 1,.output 0 1,.dequeue 0 1,
        .send 1 () [2] 1,.roundEnd 1,.loop 1,.trylock 1,.loop 1,.unlock 0,.loop 0])

private theorem oneStranded_isSome : ∀ immediate, (oneStranded immediate).isSome = true := by
  decide

private theorem stranded_run (immediate : Bool) : ∃ s : State (Fin 2) Unit Nat,
    (machine (Fin 2) Unit Nat immediate).Reachable s ∧ Quiet s () ∧
      (s.queue ()).odpQueue = [2] ∧ (s.queue ()).given ≠ (s.queue ()).accepted := by
  refine ⟨(oneStranded immediate).get (oneStranded_isSome immediate),?_,fun c => ⟨?_,?_⟩,?_,?_⟩
  · exact System.ReachableVia.exec (fun _ _ _ _ => trivial) (.start unused_initial)
      (Option.some_get (oneStranded_isSome immediate)).symm
  · revert immediate c
    decide
  · have hidle : ((((oneStranded immediate).get (oneStranded_isSome immediate)).core c).phase.attempt)
        = none := by
      revert immediate c
      decide
    exact fun caller => by simp [hidle]
  · revert immediate
    decide
  · revert immediate
    decide

end EmOdp.OutputQueue
