import Mathlib.Data.Nat.Notation
import Mathlib.Order.Basic

/-! While loops whose body is told the number of the iteration. -/
namespace EmOdp.Lib
variable {S T : Type*} (cond : S → Bool) (body : ℕ → S → S)

/-- The state before iteration `k`, were the condition true until then. -/
def iterate (s : S) : ℕ → S
  | 0 => s
  | k+1 => body k (iterate s k)

/-- Iterations `0` to `k-1` are run. -/
def Iterates (s : S) (k : ℕ) : Prop := ∀ j < k, cond (iterate body s j) = true

/-- The loop from iteration `k` on, cut off after `fuel` tests of the condition. -/
def whileLoop : ℕ → ℕ → S → Option (ℕ × S)
  | 0, _, _ => none
  | fuel+1, k, s => if cond s then whileLoop fuel (k+1) (body k s) else some (k,s)

variable {cond body} {s : S} {k : ℕ}

theorem Iterates.zero : Iterates cond body s 0 := fun _ hj => absurd hj (Nat.not_lt_zero _)

theorem iterates_succ :
    Iterates cond body s (k+1) ↔ Iterates cond body s k ∧ cond (iterate body s k) = true :=
  Nat.forall_lt_succ_right

theorem Iterates.le (h : Iterates cond body s k) {j : ℕ} (hj : j ≤ k) : Iterates cond body s j :=
  fun i hi => h i (Nat.lt_of_lt_of_le hi hj)

/-- The loop is left before the first iteration whose condition is false. -/
structure Leaves (cond : S → Bool) (body : ℕ → S → S) (s : S) (n : ℕ) : Prop where
  iterates : Iterates cond body s n
  stop : cond (iterate body s n) = false

theorem Leaves.unique {m n : ℕ} (hm : Leaves cond body s m) (hn : Leaves cond body s n) : m = n := by
  rcases Nat.lt_trichotomy m n with h | h | h
  · exact absurd (hm.stop.symm.trans (hn.iterates m h)) Bool.false_ne_true
  · exact h
  · exact absurd (hn.stop.symm.trans (hm.iterates n h)) Bool.false_ne_true

private theorem whileLoop_from {fuel n : ℕ} {t : S} (hk : Iterates cond body s k) :
    whileLoop cond body fuel k (iterate body s k) = some (n,t) ↔
      k ≤ n ∧ n < k+fuel ∧ Leaves cond body s n ∧ t = iterate body s n := by
  induction fuel generalizing k with
  | zero =>
    refine iff_of_false (fun h => ?_) fun h => absurd h.2.1 (Nat.not_lt.2 h.1)
    cases h
  | succ fuel ih =>
    cases hc : cond (iterate body s k) with
    | true =>
      rw [whileLoop, if_pos hc]
      refine (ih (iterates_succ.2 ⟨hk,hc⟩)).trans ⟨?_,?_⟩
      · rintro ⟨hle,hlt,hrest⟩
        exact ⟨by omega,by omega,hrest⟩
      · rintro ⟨hle,hlt,hleaves,ht⟩
        have hne : k ≠ n := by
          rintro rfl
          exact Bool.false_ne_true (hleaves.stop.symm.trans hc)
        exact ⟨by omega,by omega,hleaves,ht⟩
    | false =>
      rw [whileLoop, if_neg (Bool.eq_false_iff.1 hc)]
      constructor
      · intro h
        obtain ⟨rfl,rfl⟩ := Prod.mk.inj (Option.some.inj h)
        exact ⟨Nat.le_refl _,by omega,⟨hk,hc⟩,rfl⟩
      · rintro ⟨-,-,hleaves,rfl⟩
        rw [Leaves.unique ⟨hk,hc⟩ hleaves]

theorem whileLoop_eq_some {fuel n : ℕ} {t : S} :
    whileLoop cond body fuel 0 s = some (n,t) ↔
      n < fuel ∧ Leaves cond body s n ∧ t = iterate body s n := by
  refine (whileLoop_from Iterates.zero).trans ?_
  rw [Nat.zero_add]
  exact and_iff_right (Nat.zero_le n)

theorem whileLoop_map_eq_some {U : Type*} {f : ℕ × S → U} {u : U} {fuel : ℕ} :
    (whileLoop cond body fuel 0 s).map f = some u ↔
      ∃ n, n < fuel ∧ Leaves cond body s n ∧ f (n,iterate body s n) = u := by
  rw [Option.map_eq_some_iff]
  constructor
  · rintro ⟨⟨n,t⟩,h,rfl⟩
    obtain ⟨hn,hleaves,rfl⟩ := whileLoop_eq_some.1 h
    exact ⟨n,hn,hleaves,rfl⟩
  · rintro ⟨n,hn,hleaves,hu⟩
    exact ⟨_,whileLoop_eq_some.2 ⟨hn,hleaves,rfl⟩,hu⟩

/-- A loop with an invariant and a variant below the fuel ends. -/
theorem whileLoop_ends {I : S → Prop} (v : S → ℕ) {fuel : ℕ}
    (hstep : ∀ k s, I s → cond s = true → I (body k s) ∧ v (body k s) < v s) (h : I s) (hfuel : v s < fuel) :
    ∃ n t, whileLoop cond body fuel k s = some (n,t) ∧ I t ∧ cond t = false := by
  induction fuel generalizing k s with
  | zero => exact absurd hfuel (Nat.not_lt_zero _)
  | succ fuel ih =>
    rw [whileLoop]
    cases hc : cond s with
    | true =>
      obtain ⟨hI,hlt⟩ := hstep k s h hc
      exact ih hI (Nat.lt_of_lt_of_le hlt (Nat.le_of_lt_succ hfuel))
    | false => exact ⟨k,s,rfl,h,hc⟩

section Simulation
variable {cond' : T → Bool} {body' : ℕ → T → T} {s' : T} {R : S → T → Prop}

/-- A relation that every iteration keeps holds before all of them. -/
theorem iterate_rel (h0 : R s s') (hbody : ∀ k s t, R s t → R (body k s) (body' k t)) (k : ℕ) :
    R (iterate body s k) (iterate body' s' k) := by
  induction k with
  | zero => exact h0
  | succ k ih => exact hbody k _ _ ih

theorem iterates_rel (h0 : R s s') (hbody : ∀ k s t, R s t → R (body k s) (body' k t))
    (hcond : ∀ s t, R s t → cond s = cond' t) (k : ℕ) :
    Iterates cond body s k ↔ Iterates cond' body' s' k :=
  forall₂_congr fun j _ => by rw [hcond _ _ (iterate_rel h0 hbody j)]

/-- Related loops end after the same number of iterations. -/
theorem whileLoop_rel {U : Type*} {f : S → U} {g : T → U} {fuel : ℕ} (h : R s s')
    (hbody : ∀ k s t, R s t → R (body k s) (body' k t)) (hcond : ∀ s t, R s t → cond s = cond' t)
    (hend : ∀ s t, R s t → f s = g t) (k : ℕ) :
    (whileLoop cond body fuel k s).map (fun r => (r.1,f r.2)) =
      (whileLoop cond' body' fuel k s').map fun r => (r.1,g r.2) := by
  induction fuel generalizing k s s' with
  | zero => rfl
  | succ fuel ih =>
    rw [whileLoop, whileLoop, hcond s s' h]
    cases cond' s' with
    | true => exact ih (hbody k s s' h) (k+1)
    | false => exact congrArg (fun u => some (k,u)) (hend s s' h)

end Simulation
end EmOdp.Lib
