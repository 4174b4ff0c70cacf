import Mathlib.Tactic.Common
import EmOdp.Lib.Handover
import EmOdp.OutputQueue.Machine

/-! The lock of an output queue, the events in its ODP queue and the cores that are still
to drain it. -/
namespace EmOdp.OutputQueue
open Lib
variable {ι κ E : Type}

namespace Phase

/-- The queue that the core attempts to drain. -/
def attempt : Phase κ E → Option (κ × Caller)
  | .idle | .loop _ => none
  | .trylock q caller | .dequeue q caller | .output q caller _ | .unlock q caller => some (q,caller)

/-- The queue whose lock the core holds. -/
def locked : Phase κ E → Option κ
  | .idle | .loop _ | .trylock _ _ => none
  | .dequeue q _ | .output q _ _ | .unlock q _ => some q

/-- The queue that the core finds empty before it gives up, if it gets the lock. -/
def draining : Phase κ E → Option κ
  | .idle | .loop _ | .unlock _ _ => none
  | .trylock q _ | .dequeue q _ | .output q _ _ => some q

def drained : Phase κ E → Option κ
  | .unlock q _ => some q
  | .idle | .loop _ | .trylock _ _ | .dequeue _ _ | .output _ _ _ => none

/-- The events that were dequeued and not yet given to `output_fn`. -/
def table : Phase κ E → List E
  | .output _ _ outputEvTbl => outputEvTbl
  | .idle | .loop _ | .trylock _ _ | .dequeue _ _ | .unlock _ _ => []

/-- The index in `idx` of the next queue to drain. -/
def position : Phase κ E → Nat
  | .loop i => i
  | .idle => 0
  | .trylock _ caller | .dequeue _ caller | .output _ caller _ | .unlock _ caller =>
    match caller with
    | .send => 0
    | .bufferingDrain i => i

end Phase

/-- The core drains `q` before it is through with its attempts. -/
def Core.drains (k : Core κ E) (q : κ) : Prop :=
  k.phase.draining = some q ∨ k.track.usedQueues q = true ∧ k.phase.drained ≠ some q

/-- The tracked queues are those at the indexes still to come. -/
structure CoreOk (k : Core κ E) : Prop where
  tracked : ∀ q, k.track.usedQueues q = true → q ∈ k.track.idx.drop k.phase.position
  current : ∀ q i, k.phase.attempt = some (q,.bufferingDrain i) → k.track.idx[i]? = some q

namespace State

/-- The events of `q` that were dequeued and not yet given to `output_fn`. -/
def inFlight (s : State ι κ E) (q : κ) : List E :=
  match s.lock q with
  | none => []
  | some c => (s.core c).phase.table

structure Inv (s : State ι κ E) : Prop where
  cores : ∀ c, CoreOk (s.core c)
  lock : ∀ q c, s.lock q = some c ↔ (s.core c).phase.locked = some q
  order : ∀ q, (s.queue q).given ++ s.inFlight q ++ (s.queue q).odpQueue = (s.queue q).accepted
  handover : ∀ q, Handover (s.queue q).given (s.queue q).passed (s.queue q).freed

/-- A queue that is not empty is drained by some core. -/
def Drained (s : State ι κ E) : Prop :=
  ∀ q, (s.queue q).odpQueue ≠ [] → ∃ c, (s.core c).drains q

end State

theorem Phase.locked_attempt {p : Phase κ E} {q : κ} (h : p.locked = some q) :
    ∃ caller, p.attempt = some (q,caller) := by
  cases p <;> simp_all [Phase.locked, Phase.attempt]

/-- A core that holds a lock drains the queue or has done so. -/
theorem Phase.draining_of_locked {p : Phase κ E} {q : κ} (h : p.locked = some q) :
    p.draining = some q ∨ p.drained = some q := by
  cases p <;> simp_all [Phase.locked, Phase.draining, Phase.drained]

section Attempted
variable [DecidableEq κ] {k : Core κ E} {q r : κ} {caller : Caller}

theorem Core.locked_attempted : (k.attempted q caller).phase.locked = none := by
  cases caller <;> rfl

theorem CoreOk.attempted (h : CoreOk k) (hq : k.phase.attempt = some (q,caller)) :
    CoreOk (k.attempted q caller) := by
  cases caller with
  | send =>
    refine ⟨fun r hr => ?_,nofun⟩
    have htracked := h.tracked r hr
    have hposition : k.phase.position = 0 := by
      cases hp : k.phase <;> simp_all [Phase.attempt, Phase.position]
    rwa [hposition] at htracked
  | bufferingDrain i =>
    refine ⟨fun r hr => ?_,nofun⟩
    have hposition : k.phase.position = i := by
      cases hp : k.phase <;> simp_all [Phase.attempt, Phase.position]
    simp only [Core.attempted] at hr
    have hne : r ≠ q := fun he => by simp [he] at hr
    rw [Function.update_of_ne hne] at hr
    have htracked := h.tracked r hr
    obtain ⟨hlt,hget⟩ := List.getElem?_eq_some_iff.1 (h.current q i hq)
    rw [hposition, List.drop_eq_getElem_cons hlt, hget] at htracked
    exact (List.mem_cons.1 htracked).resolve_left hne

/-- After an attempt the core drains the other queues it would have drained. -/
theorem Core.drains_attempted (hq : k.phase.attempt = some (q,caller)) (hr : r ≠ q)
    (h : k.drains r) : (k.attempted q caller).drains r := by
  have hused : k.track.usedQueues r = true := by
    rcases h with h | h
    · cases hp : k.phase <;> simp_all [Phase.attempt, Phase.draining]
    · exact h.1
  cases caller with
  | send => exact .inr ⟨hused,nofun⟩
  | bufferingDrain i =>
    refine .inr ⟨?_,nofun⟩
    simpa only [Core.attempted, Function.update_of_ne hr] using hused

end Attempted

namespace State
variable [DecidableEq ι] [DecidableEq κ] {s t : State ι κ E} {c : ι} {k : Core κ E} {q : κ}

/-- A step of core `c` that takes and frees no lock. -/
theorem inFlight_update (h : s.Inv) (hlock : t.lock = s.lock)
    (hcore : t.core = Function.update s.core c k)
    (hlocked : k.phase.locked = (s.core c).phase.locked) (q : κ) :
    t.inFlight q = if k.phase.locked = some q then k.phase.table else s.inFlight q := by
  simp only [inFlight, hlock, hcore]
  split
  · rename_i hnone
    rw [if_neg]
    intro hq
    rw [hlocked, ← h.lock, hnone] at hq
    cases hq
  · rename_i d hd
    by_cases he : d = c
    · subst he
      rw [Function.update_self, if_pos (hlocked.trans ((h.lock q d).1 hd))]
    · rw [Function.update_of_ne he, if_neg]
      intro hq
      rw [hlocked, ← h.lock, hd] at hq
      exact he (Option.some.inj hq)

omit [DecidableEq κ] in
theorem lock_update (h : s.Inv) (hlock : t.lock = s.lock)
    (hcore : t.core = Function.update s.core c k)
    (hlocked : k.phase.locked = (s.core c).phase.locked) :
    ∀ q d, t.lock q = some d ↔ (t.core d).phase.locked = some q := by
  intro q d
  rw [hlock, hcore, h.lock]
  by_cases he : d = c
  · subst he
    rw [Function.update_self, hlocked]
  · rw [Function.update_of_ne he]

omit [DecidableEq κ] in
theorem cores_update (h : ∀ d, CoreOk (s.core d)) (hcore : t.core = Function.update s.core c k)
    (hk : CoreOk k) : ∀ d, CoreOk (t.core d) := by
  intro d
  rw [hcore]
  by_cases he : d = c
  · subst he
    rwa [Function.update_self]
  · rw [Function.update_of_ne he]
    exact h d

/-- A step of core `c` that touches neither a lock nor a queue. -/
theorem Inv.local_step (h : s.Inv) (hlock : t.lock = s.lock) (hqueue : t.queue = s.queue)
    (hcore : t.core = Function.update s.core c k)
    (hlocked : k.phase.locked = (s.core c).phase.locked)
    (htable : k.phase.table = (s.core c).phase.table) (hk : CoreOk k) : t.Inv := by
  refine ⟨cores_update h.cores hcore hk,lock_update h hlock hcore hlocked,fun q => ?_,fun q => ?_⟩
  · rw [hqueue, inFlight_update h hlock hcore hlocked, ← h.order q]
    split
    · rename_i hq
      rw [hlocked] at hq
      have hin : s.inFlight q = (s.core c).phase.table := by
        simp only [inFlight, (h.lock q c).2 hq]
      rw [hin, htable]
    · rfl
  · rw [hqueue]
    exact h.handover q

omit [DecidableEq κ] in
/-- The queues that are not empty are drained after a step of core `c`, where it or another
core drains the ones it drained before. -/
theorem Drained.update (h : s.Drained) (hcore : t.core = Function.update s.core c k)
    (hk : ∀ q, (t.queue q).odpQueue ≠ [] → k.drains q ∨ (∃ d, d ≠ c ∧ (s.core d).drains q) ∨
      (s.queue q).odpQueue ≠ [] ∧ ((s.core c).drains q → k.drains q)) : t.Drained := by
  have hother : ∀ q d, d ≠ c → (s.core d).drains q → ∃ d, (t.core d).drains q := by
    intro q d hd hdrains
    exact ⟨d,by rwa [hcore, Function.update_of_ne hd]⟩
  intro q hq
  rcases hk q hq with hc | ⟨d,hd,hdrains⟩ | ⟨hs,hc⟩
  · exact ⟨c,by rwa [hcore, Function.update_self]⟩
  · exact hother q d hd hdrains
  · obtain ⟨d,hdrains⟩ := h q hs
    by_cases he : d = c
    · subst he
      exact ⟨d,by rw [hcore, Function.update_self]; exact hc hdrains⟩
    · exact hother q d he hdrains

end State

end EmOdp.OutputQueue
