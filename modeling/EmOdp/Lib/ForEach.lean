import Mathlib.Logic.Relation

/-! Loops over a list that stop at the first call that does not return the good result. -/
namespace EmOdp.Lib
variable {S α R : Type*} [DecidableEq R] {good : R} {f : S → α → S × R} {xs : List α} {s : S}

/-- The state after the loop and the result of its last call. -/
def forEach (good : R) (f : S → α → S × R) : List α → S → S × R
  | [], s => (s,good)
  | x :: xs, s => if (f s x).2 = good then forEach good f xs (f s x).1 else f s x

/-- Each call takes a step or none, as long as the invariant holds. -/
theorem forEach_steps {step : S → S → Prop} {I : S → Prop}
    (h : ∀ s, I s → ∀ x ∈ xs, Relation.ReflTransGen step s (f s x).1 ∧ I (f s x).1) (hs : I s) :
    Relation.ReflTransGen step s (forEach good f xs s).1 ∧ I (forEach good f xs s).1 := by
  induction xs generalizing s with
  | nil => exact ⟨.refl,hs⟩
  | cons x xs ih =>
    obtain ⟨hstep,hx⟩ := h s hs x List.mem_cons_self
    unfold forEach
    split
    · obtain ⟨hrest,hlast⟩ := ih (fun t ht y hy => h t ht y (List.mem_cons_of_mem _ hy)) hx
      exact ⟨hstep.trans hrest,hlast⟩
    · exact ⟨hstep,hx⟩

/-- A loop that comes to its end has made every call; `I` is told what has been visited. -/
theorem forEach_good {I : List α → S → Prop} (hs : I [] s)
    (h : ∀ ys y zs t, xs = ys ++ y :: zs → I ys t → (f t y).2 = good → I (ys ++ [y]) (f t y).1)
    (hgood : (forEach good f xs s).2 = good) : I xs (forEach good f xs s).1 := by
  suffices hloop : ∀ ys zs t, xs = ys ++ zs → I ys t → (forEach good f zs t).2 = good →
      I xs (forEach good f zs t).1 from hloop [] xs s rfl hs hgood
  intro ys zs
  induction zs generalizing ys with
  | nil =>
    rintro t rfl ht -
    rw [List.append_nil]
    exact ht
  | cons z zs ih =>
    intro t hxs ht hgood
    rw [forEach] at hgood ⊢
    split at hgood
    · rename_i hz
      rw [if_pos hz]
      refine ih (ys ++ [z]) (f t z).1 ?_ (h ys z zs t hxs ht hz) hgood
      rw [hxs, List.append_assoc, List.singleton_append]
    · contradiction

/-- The loop comes to its end when no call fails. -/
theorem forEach_complete {I : List α → S → Prop} (hs : I [] s)
    (h : ∀ ys y zs t, xs = ys ++ y :: zs → I ys t → (f t y).2 = good ∧ I (ys ++ [y]) (f t y).1) :
    (forEach good f xs s).2 = good ∧ I xs (forEach good f xs s).1 := by
  suffices hgood : (forEach good f xs s).2 = good from
    ⟨hgood,forEach_good hs (fun ys y zs t hxs ht _ => (h ys y zs t hxs ht).2) hgood⟩
  suffices hloop : ∀ ys zs t, xs = ys ++ zs → I ys t → (forEach good f zs t).2 = good from
    hloop [] xs s rfl hs
  intro ys zs
  induction zs generalizing ys with
  | nil => exact fun _ _ _ => rfl
  | cons z zs ih =>
    intro t hxs ht
    obtain ⟨hgood,hz⟩ := h ys z zs t hxs ht
    rw [forEach, if_pos hgood]
    exact ih (ys ++ [z]) (f t z).1 (by rw [hxs, List.append_assoc, List.singleton_append]) hz

variable (good) in
/-- A loop over the first `n` numbers keeps what each good round keeps, to its end or to the round
that fails. -/
theorem forEach_range {f : S → Nat → S × R} {I : Nat → S → Prop} {n : Nat} (hs : I 0 s)
    (h : ∀ i < n, ∀ t, I i t → (f t i).2 = good → I (i+1) (f t i).1) :
    (forEach good f (List.range n) s).2 = good ∧ I n (forEach good f (List.range n) s).1 ∨
      ∃ i < n, ∃ t, I i t ∧ (f t i).2 ≠ good ∧ forEach good f (List.range n) s = f t i := by
  suffices hloop : ∀ k i t, i + k = n → I i t →
      (forEach good f (List.range' i k) t).2 = good ∧ I n (forEach good f (List.range' i k) t).1 ∨
        ∃ j < n, ∃ u, I j u ∧ (f u j).2 ≠ good ∧ forEach good f (List.range' i k) t = f u j by
    rw [List.range_eq_range']
    exact hloop n 0 s (Nat.zero_add n) hs
  intro k
  induction k with
  | zero =>
    rintro i t rfl ht
    exact .inl ⟨rfl,ht⟩
  | succ k ih =>
    intro i t hi ht
    rw [List.range'_succ, forEach]
    split
    · rename_i hgood
      exact ih (i+1) (f t i).1 (by omega) (h i (by omega) t ht hgood)
    · rename_i hbad
      exact .inr ⟨i,by omega,t,ht,hbad,rfl⟩

end EmOdp.Lib
