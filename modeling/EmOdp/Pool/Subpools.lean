import EmOdp.Pool.Machine
import Mathlib.Tactic.ByContra

/-! The subpools of an EM pool in ascending order of their sizes, and those that an allocation tries. -/
namespace EmOdp.Pool

private def sizeAt (subpool : Array Subpool) (j : Nat) : Nat := (subpool[j]?.map Subpool.size).getD 0

/-- The scan has seen the subpools up to `k`. -/
private theorem foldl_smallest (subpool : Array Subpool) {i k : Nat} (n : Nat) {idx : Nat} (hi : i ≤ idx)
    (hk : idx < k) (hmin : ∀ j, i ≤ j → j < k → sizeAt subpool idx ≤ sizeAt subpool j) :
    let r := (List.range' k n).foldl
      (fun idx j => if sizeAt subpool j < sizeAt subpool idx then j else idx) idx
    i ≤ r ∧ r < k + n ∧ ∀ j, i ≤ j → j < k + n → sizeAt subpool r ≤ sizeAt subpool j := by
  induction n generalizing k idx with
  | zero => exact ⟨hi,hk,hmin⟩
  | succ n ih =>
    rw [List.range'_succ, List.foldl_cons]
    rw [show k + (n+1) = (k+1) + n by omega]
    split
    · rename_i hlt
      refine ih (by omega) (Nat.lt_succ_self k) fun j hij hj => ?_
      rcases Nat.lt_succ_iff_lt_or_eq.1 hj with hj | rfl
      · exact Nat.le_trans (Nat.le_of_lt hlt) (hmin j hij hj)
      · exact Nat.le_refl _
    · rename_i hge
      refine ih hi (Nat.lt_succ_of_lt hk) fun j hij hj => ?_
      rcases Nat.lt_succ_iff_lt_or_eq.1 hj with hj | rfl
      · exact hmin j hij hj
      · exact Nat.not_lt.1 hge

private theorem smallestFrom_spec (subpool : Array Subpool) {i : Nat} (hi : i < subpool.size) :
    i ≤ smallestFrom subpool i ∧ smallestFrom subpool i < subpool.size ∧
      ∀ j, i ≤ j → j < subpool.size → sizeAt subpool (smallestFrom subpool i) ≤ sizeAt subpool j := by
  have h := foldl_smallest subpool (subpool.size - (i+1)) (Nat.le_refl i) (Nat.lt_succ_self i)
    fun j hij hj => by
      obtain rfl : j = i := by omega
      exact Nat.le_refl _
  rw [show i.succ + (subpool.size - (i+1)) = subpool.size by omega] at h
  exact h

private theorem sizeAt_swap (subpool : Array Subpool) {i k j : Nat} (hi : i < subpool.size)
    (hk : k < subpool.size) : sizeAt (subpool.swapIfInBounds i k) j =
      if j = k then sizeAt subpool i else if j = i then sizeAt subpool k else sizeAt subpool j := by
  rw [Array.swapIfInBounds, dif_pos hi, dif_pos hk, sizeAt, Array.getElem?_swap]
  by_cases hjk : j = k
  · rw [if_pos hjk.symm, if_pos hjk, sizeAt, Array.getElem?_eq_getElem hi]
  · rw [if_neg (Ne.symm hjk), if_neg hjk]
    by_cases hji : j = i
    · rw [if_pos hji.symm, if_pos hji, sizeAt, Array.getElem?_eq_getElem hk]
    · rw [if_neg (Ne.symm hji), if_neg hji, sizeAt]

/-- The first `m` subpools are in place. -/
private def SortedUpTo (subpool : Array Subpool) (m : Nat) : Prop :=
  ∀ a b, a < m → a ≤ b → b < subpool.size → sizeAt subpool a ≤ sizeAt subpool b

private theorem SortedUpTo.swap {subpool : Array Subpool} {m : Nat} (h : SortedUpTo subpool m)
    (hm : m < subpool.size) :
    SortedUpTo (subpool.swapIfInBounds m (smallestFrom subpool m)) (m+1) := by
  obtain ⟨hle,hlt,hmin⟩ := smallestFrom_spec subpool hm
  intro a b ha hab hb
  rw [Array.size_swapIfInBounds] at hb
  -- what stands at `b` was behind the first `m`, unless it has not been moved
  have hb' : b < m ∧ sizeAt (subpool.swapIfInBounds m (smallestFrom subpool m)) b = sizeAt subpool b ∨
      ∃ c, m ≤ c ∧ c < subpool.size ∧
        sizeAt (subpool.swapIfInBounds m (smallestFrom subpool m)) b = sizeAt subpool c := by
    rw [sizeAt_swap subpool hm hlt]
    by_cases hbk : b = smallestFrom subpool m
    · rw [if_pos hbk]
      exact .inr ⟨m,Nat.le_refl m,hm,rfl⟩
    · rw [if_neg hbk]
      by_cases hbm : b = m
      · rw [if_pos hbm]
        exact .inr ⟨_,hle,hlt,rfl⟩
      · rw [if_neg hbm]
        rcases Nat.lt_or_ge b m with hlt | hge
        · exact .inl ⟨hlt,rfl⟩
        · exact .inr ⟨b,hge,hb,rfl⟩
  rcases Nat.lt_succ_iff_lt_or_eq.1 ha with ha | rfl
  · have hsame : sizeAt (subpool.swapIfInBounds m (smallestFrom subpool m)) a = sizeAt subpool a := by
      rw [sizeAt_swap subpool hm hlt, if_neg (by omega), if_neg (by omega)]
    rw [hsame]
    rcases hb' with ⟨-,heq⟩ | ⟨c,hc,hclt,heq⟩
    · rw [heq]
      exact h a b ha hab hb
    · rw [heq]
      exact h a c ha (by omega) hclt
  · have hat : sizeAt (subpool.swapIfInBounds a (smallestFrom subpool a)) a =
        sizeAt subpool (smallestFrom subpool a) := by
      rw [sizeAt_swap subpool hm hlt]
      split
      · rename_i heq
        rw [← heq]
      · rw [if_pos rfl]
    rw [hat]
    rcases hb' with ⟨hba,-⟩ | ⟨c,hc,hclt,heq⟩
    · exact absurd hab (Nat.not_le.2 hba)
    · rw [heq]
      exact hmin c hc hclt

private theorem foldl_sorted {subpool : Array Subpool} {m : Nat} (n : Nat) (h : SortedUpTo subpool m)
    (hn : m + n ≤ subpool.size) :
    let r := (List.range' m n).foldl
      (fun sorted i => sorted.swapIfInBounds i (smallestFrom sorted i)) subpool
    r.size = subpool.size ∧ SortedUpTo r (m + n) := by
  induction n generalizing m subpool with
  | zero => exact ⟨rfl,h⟩
  | succ n ih =>
    rw [List.range'_succ, List.foldl_cons]
    obtain ⟨hsize,hsorted⟩ := ih (h.swap (by omega))
      (by rw [Array.size_swapIfInBounds]; omega)
    rw [Array.size_swapIfInBounds] at hsize
    rw [show m + (n+1) = (m+1) + n by omega]
    exact ⟨hsize,hsorted⟩

theorem sortPoolCfg_sorted (subpool : List Subpool) :
    ((sortPoolCfg subpool).map Subpool.size).Pairwise (· ≤ ·) := by
  have hlen := (sortPoolCfg_perm subpool).length_eq
  have hnone : SortedUpTo subpool.toArray 0 := fun a _ ha => absurd ha (Nat.not_lt_zero a)
  obtain ⟨-,hsorted⟩ := foldl_sorted (subpool.length - 1) hnone (by rw [List.size_toArray]; omega)
  rw [← List.range_eq_range'] at hsorted
  refine List.pairwise_iff_getElem.2 fun a b ha hb hab => ?_
  rw [List.length_map] at ha hb
  have ha' := ha
  have hb' := hb
  rw [sortPoolCfg, Array.length_toList] at ha' hb'
  have hle := hsorted a b (by omega) (Nat.le_of_lt hab) hb'
  rw [sizeAt, sizeAt, Array.getElem?_eq_getElem ha', Array.getElem?_eq_getElem hb'] at hle
  rw [List.getElem_map, List.getElem_map]
  exact hle

/-- `pool_find_subpool`, none is a negative index -/
def poolFindSubpool (size : Nat) (sizes : List Nat) : Option Nat := sizes.findIdx? (size ≤ ·)

/-- An allocation of the size tries the `j`-th subpool. -/
def Tries (sizes : List Nat) (size j : Nat) : Prop :=
  ∃ i ∈ poolFindSubpool size sizes, i ≤ j ∧ j < sizes.length

/-- In ascending order no subpool is tried that is too small. -/
theorem Tries.le {sizes : List Nat} {size j : Nat} (h : Tries sizes size j)
    (hsorted : sizes.Pairwise (· ≤ ·)) : ∃ n, sizes[j]? = some n ∧ size ≤ n := by
  obtain ⟨i,hi,hij,hj⟩ := h
  obtain ⟨hlt,hle,-⟩ := List.findIdx?_eq_some_iff_getElem.1 hi
  refine ⟨sizes[j],List.getElem?_eq_getElem hj,Nat.le_trans (of_decide_eq_true hle) ?_⟩
  rcases Nat.lt_or_eq_of_le hij with hij | rfl
  · exact List.pairwise_iff_getElem.1 hsorted i j hlt hj hij
  · exact Nat.le_refl _

/-- A subpool is tried for its own size. -/
theorem tries_self {sizes : List Nat} {j n : Nat} (hj : sizes[j]? = some n) : Tries sizes n j := by
  obtain ⟨hlt,hget⟩ := List.getElem?_eq_some_iff.1 hj
  cases hi : poolFindSubpool n sizes with
  | none =>
    have hnone := List.findIdx?_eq_none_iff.1 hi sizes[j] (List.getElem_mem hlt)
    rw [hget] at hnone
    exact absurd (Nat.le_refl n) (of_decide_eq_false hnone)
  | some i =>
    refine ⟨i,hi,?_,hlt⟩
    obtain ⟨_,_,hmin⟩ := List.findIdx?_eq_some_iff_getElem.1 hi
    by_contra hji
    refine hmin j (Nat.not_le.1 hji) ?_
    rw [hget]
    exact decide_eq_true (Nat.le_refl n)

end EmOdp.Pool
