import Mathlib.Algebra.GroupWithZero.Nat
import Mathlib.Logic.Relation

/-! Labelled transition systems, runs restricted by a condition on their steps,
inductive invariants and forward simulations. -/
namespace EmOdp.Lib

/-! The sizes of the types that runs are evaluated over -/
instance neZeroOne : NeZero 1 := ⟨Nat.succ_ne_zero 0⟩
instance neZeroTwo : NeZero 2 := ⟨Nat.succ_ne_zero 1⟩
instance neZeroThree : NeZero 3 := ⟨Nat.succ_ne_zero 2⟩

/-- Initial states and a labelled step relation. -/
structure System (S L : Type*) where
  init : S → Prop
  step : S → L → S → Prop

namespace System
variable {S L : Type*} (M : System S L)

/-- States reached by runs each of whose steps satisfies `allowed`. -/
inductive ReachableVia (allowed : S → L → S → Prop) : S → Prop where
  | start {s : S} : M.init s → ReachableVia allowed s
  | step {s t : S} {l : L} : ReachableVia allowed s → M.step s l t → allowed s l t →
      ReachableVia allowed t

/-- States reached by any run. -/
abbrev Reachable : S → Prop := M.ReachableVia fun _ _ _ => True

/-- A system whose steps are computed. -/
def ofFn (init : S → Prop) (f : S → L → Option S) : System S L := ⟨init,fun s l t => f s l = some t⟩

variable {M}

/-- A predicate that holds initially and is kept by every allowed step holds in
every state of such a run. -/
theorem ReachableVia.invariant {allowed : S → L → S → Prop} {I : S → Prop}
    (h0 : ∀ s, M.init s → I s)
    (hs : ∀ s l t, I s → M.step s l t → allowed s l t → I t) {s : S}
    (h : M.ReachableVia allowed s) : I s := by
  induction h with
  | start hi => exact h0 _ hi
  | step _ hst ha ih => exact hs _ _ _ ih hst ha

theorem ReachableVia.mono {allowed weaker : S → L → S → Prop}
    (hw : ∀ s l t, allowed s l t → weaker s l t) {s : S}
    (h : M.ReachableVia allowed s) : M.ReachableVia weaker s := by
  induction h with
  | start hi => exact .start hi
  | step _ hst ha ih => exact .step ih hst (hw _ _ _ ha)

/-- The labels of a finite run, performed from left to right. -/
inductive Path (M : System S L) : S → List L → S → Prop where
  | nil (s : S) : Path M s [] s
  | cons {s t u : S} {l : L} {ls : List L} : M.step s l t → Path M t ls u → Path M s (l :: ls) u

theorem Path.append {s t u : S} {ls ls' : List L} (h : M.Path s ls t) (h' : M.Path t ls' u) :
    M.Path s (ls ++ ls') u := by
  induction h with
  | nil => exact h'
  | cons hst _ ih => exact .cons hst (ih h')

theorem ReachableVia.path {s t : S} {ls : List L} (h : M.Reachable s) (hpath : M.Path s ls t) :
    M.Reachable t := by
  induction hpath with
  | nil => exact h
  | cons hst _ ih => exact ih (.step h hst trivial)

/-- Runs the labels from left to right while `ok` accepts every step. -/
def exec (f : S → L → Option S) (ok : S → L → S → Bool) : S → List L → Option S
  | s, [] => some s
  | s, l :: ls => (f s l).bind fun t => if ok s l t then exec f ok t ls else none

theorem ReachableVia.exec {allowed : S → L → S → Prop} {init : S → Prop} {f : S → L → Option S}
    {ok : S → L → S → Bool} (hok : ∀ s l t, ok s l t = true → allowed s l t) {s t : S} {ls : List L}
    (hs : (ofFn init f).ReachableVia allowed s) (h : System.exec f ok s ls = some t) :
    (ofFn init f).ReachableVia allowed t := by
  induction ls generalizing s with
  | nil =>
    cases h
    exact hs
  | cons l ls ih =>
    obtain ⟨u,hu,h⟩ := Option.bind_eq_some_iff.1 h
    split at h
    · exact ih (.step hs hu (hok _ _ _ ‹_›)) h
    · cases h

theorem Path.of_exec {init : S → Prop} {f : S → L → Option S} {ok : L → Bool} {s t : S} {ls : List L}
    (h : System.exec f (fun _ l _ => ok l) s ls = some t) :
    (ofFn init f).Path s ls t ∧ ∀ l ∈ ls, ok l = true := by
  induction ls generalizing s with
  | nil =>
    cases h
    exact ⟨.nil _,nofun⟩
  | cons l ls ih =>
    obtain ⟨u,hu,h⟩ := Option.bind_eq_some_iff.1 h
    split at h
    · obtain ⟨hpath,hls⟩ := ih h
      exact ⟨.cons hu hpath,List.forall_mem_cons.2 ⟨‹_›,hls⟩⟩
    · cases h

end System
end EmOdp.Lib
