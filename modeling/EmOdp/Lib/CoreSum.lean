import Mathlib.Algebra.BigOperators.Group.Finset.Piecewise
import Mathlib.Algebra.BigOperators.Group.Finset.Sigma
import Mathlib.Algebra.BigOperators.Fin
import Mathlib.Algebra.Order.BigOperators.Group.Finset

/-! Totals over a finite set of cores when the value of one core changes. -/
namespace EmOdp.Lib
variable {ι : Type*} [Fintype ι] [DecidableEq ι]

theorem sum_update (f : ι → Nat) (c : ι) (b : Nat) :
    ∑ i, Function.update f c b i + f c = ∑ i, f i + b := by
  rw [Finset.sum_update_of_mem (Finset.mem_univ c), ← Finset.add_sum_erase _ f (Finset.mem_univ c),
    Finset.sdiff_singleton_eq_erase]
  omega

omit [DecidableEq ι] in
theorem le_sum (f : ι → Nat) (c : ι) : f c ≤ ∑ i, f i :=
  Finset.single_le_sum (fun _ _ => Nat.zero_le _) (Finset.mem_univ c)

end EmOdp.Lib
