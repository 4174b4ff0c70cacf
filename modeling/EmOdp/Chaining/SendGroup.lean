import EmOdp.Chaining.Calls

/-! What chained sends do to the counts of an event group over whole runs. -/
namespace EmOdp.Chaining
open Lib EventGroup
variable {ι γ : Type} [DecidableEq ι] [DecidableEq γ]

namespace State
variable {s t : State ι γ} {c d : ι} {egrp : γ}

theorem reachable_cores (h : (machine ι γ).Reachable s) : ∀ c, CoreOk (s.core c) := by
  refine h.invariant (I := fun s => ∀ c, CoreOk (s.core c)) (fun s hi c => ?_)
    fun _ _ _ hs ht _ => cores_step hs ht
  rw [hi.cores c]
  exact ⟨nofun,nofun,nofun⟩

theorem reachable_books
    (h : (machine ι γ).ReachableVia (fun s l _ => s.SendsAccepted l) s) : s.Books := by
  refine (h.invariant (I := fun s => s.Books ∧ ∀ c, CoreOk (s.core c)) (fun s hi => ?_)
    fun _ _ _ hs ht hsends => ⟨books_step hs.1 hs.2 ht hsends,cores_step hs.2 ht⟩).1
  refine ⟨⟨fun g _ => (hi.counts g).2.1,fun g ha => ?_,?_⟩,fun c => ?_⟩
  · rw [(hi.counts g).2.2] at ha
    cases ha
  · rw [hi.completed]
    exact nofun
  · rw [hi.cores c]
    exact ⟨nofun,nofun,nofun⟩

/-- The steps of a call before it returns leave the post-counts as they are. -/
theorem postCnt_call (ht : (∃ egrp num, s.step (.send c egrp num) = some t) ∨
    s.step (.setLocal c) = some t ∨ ∃ outcome, s.step (.sendDevice c outcome) = some t) (g : γ) :
    (t.counts g).postCnt = (s.counts g).postCnt := by
  rcases ht with ⟨egrp,num,ht⟩ | ht | ⟨outcome,ht⟩
  · simp only [step] at ht
    split at ht <;> cases ht
    rfl
  · simp only [step] at ht
    split at ht <;> cases ht
    exact postCnt_setLocal g
  · simp only [step] at ht
    split at ht
    swap
    · cases ht
    split at ht <;> cases ht
    rfl

/-- A chained send takes as many events off the post-count as it reports, if and only if it
sends exactly what the group accepts, and it restores the current event group. In every run
whose chained sends do so, the notifications of a group are sent when all its events are
processed or have left. -/
theorem chained_send_counts :
    (∀ s : State ι γ, (machine ι γ).Reachable s → ∀ c t k,
      (s.core c).call = some k → s.step (.returned c) = some t →
      ((s.counts k.egrp).postCnt.toNat = (t.counts k.egrp).postCnt.toNat + k.numSent ↔
        k.numSent = if s.Accepts c k then k.num else 0)) ∧
    (∀ (s t : State ι γ) c, (∃ egrp num, s.step (.send c egrp num) = some t) ∨
      s.step (.setLocal c) = some t ∨ (∃ outcome, s.step (.sendDevice c outcome) = some t) →
      ∀ g, (t.counts g).postCnt = (s.counts g).postCnt) ∧
    (∀ (s₀ s₁ s t : State ι γ) c egrp num ls, s₀.step (.send c egrp num) = some s₁ →
      System.Path (machine ι γ) s₁ ls s → (∀ l ∈ ls, l ≠ .returned c) →
      s.step (.returned c) = some t → (t.core c).current = (s₀.core c).current) ∧
    ∀ s : State ι γ, (machine ι γ).ReachableVia (fun s l _ => s.SendsAccepted l) s →
      ∀ a ∈ s.completed, a.events = a.processed + a.left := by
  refine ⟨fun s hs c t k hcall ht => ?_,fun s t c ht => postCnt_call ht,
    fun s₀ s₁ s t c egrp num ls => current_restored,fun s hs => (reachable_books hs).completed⟩
  simp only [step, hcall] at ht
  split at ht <;> cases ht
  rename_i hk
  cases hk
  exact returnSent_postCnt_iff ((reachable_cores hs c).current _ hcall (by simp))

end State

private def unapplied : State (Fin 1) Unit where
  counts _ := { preCnt := 0, postCnt := 0, applied := false, gen := 0 }
  core _ := {}
  account _ := {}
  completed := []

private theorem unapplied_initial : Initial unapplied :=
  ⟨fun _ => ⟨rfl,rfl,rfl⟩,fun _ => rfl,rfl⟩

/-- Two events of a group of two are sent to another device, `numSent` of them leave. -/
private def twoChained (numSent : Nat) : Option (State (Fin 1) Unit) :=
  System.exec State.step (fun s l _ => numSent = 1 ∨ s.SendsAccepted l) unapplied
    [.apply () 2, .send 0 () 2, .setLocal 0, .sendDevice 0 { device := numSent }, .returned 0]

private theorem bothLeave_isSome : (twoChained 2).isSome = true := by decide

theorem chained_send_counts_both : ∃ s : State (Fin 1) Unit, s.completed = [⟨2,0,2⟩] ∧
    ∀ a ∈ s.completed, a.events = a.processed + a.left := by
  have hs : (machine (Fin 1) Unit).ReachableVia (fun s l _ => s.SendsAccepted l)
      ((twoChained 2).get bothLeave_isSome) :=
    System.ReachableVia.exec (fun _ _ _ ho => (of_decide_eq_true ho).resolve_left (by decide))
      (.start unapplied_initial) (Option.some_get bothLeave_isSome).symm
  refine ⟨_,?_,(@State.chained_send_counts (Fin 1) Unit _ _).2.2.2 _ hs⟩
  decide

private theorem oneLeaves_isSome : (twoChained 1).isSome = true := by decide

/-- One of the two events is still with the caller when the notifications are sent. -/
theorem unsent_event_counted : ∃ s : State (Fin 1) Unit, (machine (Fin 1) Unit).Reachable s ∧
    (s.counts ()).postCnt = 0 ∧ ∃ a ∈ s.completed, a.processed + a.left < a.events := by
  refine ⟨(twoChained 1).get oneLeaves_isSome,?_,by decide,by decide⟩
  exact System.ReachableVia.exec (fun _ _ _ _ => trivial) (.start unapplied_initial)
    (Option.some_get oneLeaves_isSome).symm

end EmOdp.Chaining
