import Mathlib.Algebra.GroupWithZero.Nat
import Mathlib.Algebra.Order.BigOperators.Group.List
import Mathlib.Algebra.Order.Group.Nat
import Mathlib.Data.List.TakeWhile

/-! Programs whose loops are cut off after a number of iterations, with rules for
what holds when they end (`ok`) and where they were cut off (`error`). -/
namespace EmOdp.Lib

universe u
abbrev BoundedRun (S : Type u) : Type u → Type u := Except S

namespace BoundedRun
variable {S α : Type u}

def state : BoundedRun S S → S
  | .ok s => s
  | .error s => s

/-- `P` holds if the run ended and `Q` if it was cut off. -/
def Sat (r : BoundedRun S S) (P Q : S → Prop) : Prop :=
  match r with
  | .ok s => P s
  | .error s => Q s

variable {r : BoundedRun S S} {f : S → BoundedRun S S} {P P' Q Q' : S → Prop}

theorem Sat.mono (h : r.Sat P Q) (hp : ∀ s, P s → P' s) (hq : ∀ s, Q s → Q' s) : r.Sat P' Q' := by
  cases r with
  | ok s => exact hp s h
  | error s => exact hq s h

theorem Sat.state (h : r.Sat P P) : P r.state := by
  cases r <;> exact h

theorem Sat.bind (h : r.Sat P Q) (hf : ∀ s, P s → (f s).Sat P' Q) : Sat (r >>= f) P' Q := by
  cases r with
  | ok s => exact hf s h
  | error s => exact h

/-- An invariant indexed by the steps that are still to be made. -/
theorem Sat.foldlM {g : S → α → BoundedRun S S} (I : List α → S → Prop)
    (hg : ∀ a l s, I (a :: l) s → (g s a).Sat (I l) Q) {l : List α} {s : S} (h : I l s) :
    Sat (l.foldlM g s) (I []) Q := by
  induction l generalizing s with
  | nil => exact h
  | cons a l ih =>
    rw [List.foldlM_cons]
    exact (hg a l s h).bind fun t ht => ih ht

end BoundedRun

section Segments
variable {S α : Type u}

/-- Maximal segments of elements that are the `same` as the segment's first one;
`k` elements still belong to the segment before. -/
def segments (same : α → α → Bool) : List α → Nat → List (List α)
  | [], _ => []
  | _ :: l, k+1 => segments same l k
  | a :: l, 0 => (a :: l.takeWhile (same a)) :: segments same l (l.takeWhile (same a)).length

/-- A loop whose index moves on by the length of each segment. -/
def forSegments (same : α → α → Bool) (f : List α → S → BoundedRun S S) :
    List α → Nat → S → BoundedRun S S
  | [], _, s => .ok s
  | _ :: l, k+1, s => forSegments same f l k s
  | a :: l, 0, s => do
    let s ← f (a :: l.takeWhile (same a)) s
    forSegments same f l (l.takeWhile (same a)).length s

theorem forSegments_eq (same : α → α → Bool) (f : List α → S → BoundedRun S S) (l : List α) (k : Nat)
    (s : S) : forSegments same f l k s = (segments same l k).foldlM (fun s a => f a s) s := by
  induction l generalizing k s with
  | nil => rfl
  | cons a l ih =>
    cases k with
    | zero =>
      rw [forSegments, segments, List.foldlM_cons]
      exact congrArg _ (funext fun t => ih _ t)
    | succ k => exact ih k s

theorem forSegments_drop (same : α → α → Bool) (f : List α → S → BoundedRun S S) (l : List α)
    (k : Nat) (s : S) : forSegments same f l k s = forSegments same f (l.drop k) 0 s := by
  induction l generalizing k with
  | nil => rw [List.drop_nil]; rfl
  | cons a l ih =>
    cases k with
    | zero => rfl
    | succ k => exact ih k

theorem segments_flatten (same : α → α → Bool) (l : List α) (k : Nat) :
    (segments same l k).flatten = l.drop k := by
  induction l generalizing k with
  | nil => simp [segments]
  | cons a l ih =>
    cases k with
    | zero =>
      have hpre := List.prefix_iff_eq_append.1 (List.takeWhile_prefix (l := l) (same a))
      rw [segments, List.flatten_cons, ih, List.drop_zero, List.cons_append, hpre]
    | succ k => exact ih k

theorem sum_length_segments (same : α → α → Bool) (l : List α) :
    ((segments same l 0).map List.length).sum = l.length := by
  rw [← List.length_flatten, segments_flatten, List.drop_zero]

theorem length_le_of_mem_segments {same : α → α → Bool} {l g : List α}
    (h : g ∈ segments same l 0) : g.length ≤ l.length := by
  rw [← sum_length_segments same l]
  exact List.single_le_sum (fun _ _ => Nat.zero_le _) _ (List.mem_map_of_mem h)

theorem length_pos_of_mem_segments {same : α → α → Bool} {l g : List α} {k : Nat}
    (h : g ∈ segments same l k) : 0 < g.length := by
  induction l generalizing k with
  | nil => cases h
  | cons a l ih =>
    cases k with
    | zero =>
      rcases List.mem_cons.1 h with rfl | h
      · exact Nat.succ_pos _
      · exact ih h
    | succ k => exact ih h

/-- The elements of a segment are the same as its first one. -/
theorem same_of_mem_segments {same : α → α → Bool} {l g : List α} {k : Nat}
    (h : g ∈ segments same l k) : ∃ a rest, g = a :: rest ∧ ∀ b ∈ rest, same a b = true := by
  induction l generalizing k with
  | nil => cases h
  | cons a l ih =>
    cases k with
    | zero =>
      rcases List.mem_cons.1 h with rfl | h
      · exact ⟨a,_,rfl,fun _ hb => List.mem_takeWhile_imp hb⟩
      · exact ih h
    | succ k => exact ih h

end Segments
end EmOdp.Lib
