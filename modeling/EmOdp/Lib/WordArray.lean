import Mathlib.Data.BitVec
import Mathlib.Data.List.Basic

/-! Arrays of 64-bit words as sequences of bits, and the lowest set bit of a word. -/
namespace EmOdp.Lib.WordArray

/-- Bit `d` of an array, false behind its end -/
def bitAt (bits : List (BitVec 64)) (d : Nat) : Bool := (bits.getD (d/64) 0).getLsbD (d%64)

variable {bits : List (BitVec 64)} {c d : Nat}

theorem bitAt_replicate (n : Nat) : bitAt (List.replicate n 0) d = false := by
  have hzero : (List.replicate n (0 : BitVec 64)).getD (d/64) 0 = 0 := by
    rw [List.getD_eq_getElem?_getD, List.getElem?_replicate]
    split <;> rfl
  rw [bitAt, hzero]
  exact BitVec.getLsbD_zero

theorem bitAt_eq_false (h : 64 * bits.length ≤ d) : bitAt bits d = false := by
  rw [bitAt, List.getD_eq_getElem?_getD, List.getElem?_eq_none (by omega)]
  exact BitVec.getLsbD_zero

/-- The word with the bit is or-ed with a word that has just this bit. -/
def setBit (bits : List (BitVec 64)) (c : Nat) : List (BitVec 64) :=
  bits.modify (c/64) (· ||| (1#64 <<< (c%64)))

@[simp] theorem length_setBit : (setBit bits c).length = bits.length := List.length_modify ..

theorem getLsbD_one_shiftLeft {j b : Nat} (hj : j < 64) : (1#64 <<< j).getLsbD b = decide (b = j) := by
  rw [BitVec.getLsbD_shiftLeft, BitVec.getLsbD_one]
  grind

theorem and_shiftLeft_ne_zero {x : BitVec 64} {j : Nat} (hj : j < 64) :
    x &&& (1#64 <<< j) ≠ 0 ↔ x.getLsbD j = true := by
  constructor
  · intro hne
    refine Bool.eq_true_of_not_eq_false fun hfalse => hne (BitVec.eq_of_getLsbD_eq fun b _ => ?_)
    rw [BitVec.getLsbD_and, getLsbD_one_shiftLeft hj]
    by_cases hb : b = j
    · rw [hb, hfalse]
      simp
    · simp [hb]
  · intro htrue hzero
    have hbit := congrArg (·.getLsbD j) hzero
    simp [getLsbD_one_shiftLeft hj, htrue] at hbit

theorem bitAt_setBit (hc : c < 64 * bits.length) : bitAt (setBit bits c) d = (bitAt bits d || decide (d = c)) := by
  have hlt : c/64 < bits.length := by omega
  have hmod : c%64 < 64 := Nat.mod_lt _ (by decide)
  rw [bitAt, bitAt, setBit, List.getD_eq_getElem?_getD, List.getElem?_modify]
  by_cases hword : c/64 = d/64
  · simp only [if_pos hword]
    rw [← hword, List.getD_eq_getElem?_getD, List.getElem?_eq_getElem hlt]
    simp only [Functor.map, Option.map_some, Option.getD_some, BitVec.getLsbD_or, getLsbD_one_shiftLeft hmod]
    congr 2
    exact propext ⟨fun h => by omega,fun h => by rw [h]⟩
  · have hne : d ≠ c := by
      rintro rfl
      exact hword rfl
    simp only [if_neg hword]
    rw [List.getD_eq_getElem?_getD]
    simp [hne]

/-- A word is zero if the array has none of its bits. -/
theorem word_eq_zero {k : Nat} (h : ∀ j < 64, bitAt bits (64*k+j) = false) : bits.getD k 0 = 0 := by
  refine BitVec.eq_of_getLsbD_eq fun j hj => ?_
  have hbit := h j hj
  rw [bitAt, show (64*k+j)/64 = k by omega, show (64*k+j)%64 = j by omega] at hbit
  rw [hbit]
  exact BitVec.getLsbD_zero.symm

theorem word_ne_zero (h : bitAt bits d = true) : bits.getD (d/64) 0 ≠ 0 := by
  intro hzero
  rw [bitAt, hzero] at h
  exact Bool.false_ne_true (BitVec.getLsbD_zero.symm.trans h)

/-- `x & (x-1)` clears the lowest set bit. -/
theorem getLsbD_clearLowest {w j : Nat} {x : BitVec w} (hj : x.getLsbD j = true)
    (hlow : ∀ b < j, x.getLsbD b = false) (b : Nat) :
    (x &&& (x-1)).getLsbD b = (x.getLsbD b && decide (b ≠ j)) := by
  have hw : j < w := BitVec.lt_of_getLsbD hj
  have hrest : x.toNat % 2^(j+1) = 2^j := by
    refine Nat.eq_of_testBit_eq fun b => ?_
    rw [Nat.testBit_mod_two_pow, Nat.testBit_two_pow]
    rcases Nat.lt_trichotomy b j with hb | rfl | hb
    · have hfalse := hlow b hb
      rw [BitVec.getLsbD] at hfalse
      simp [hfalse, hb.ne']
    · rw [BitVec.getLsbD] at hj
      simp [hj]
    · simp [hb.ne, show ¬b < j+1 by omega]
  have hx := Nat.div_add_mod x.toNat (2^(j+1))
  rw [hrest] at hx
  have hpos := Nat.two_pow_pos j
  have hpred : (x-1).toNat = 2^(j+1) * (x.toNat / 2^(j+1)) + (2^j - 1) := by
    have hlt := x.isLt
    have hone : (1 : BitVec w).toNat = 1 := BitVec.toNat_one (by omega)
    rw [BitVec.toNat_sub, hone]
    rw [show 2^w - 1 + x.toNat = 2^w + (x.toNat - 1) by omega, Nat.add_mod_left, Nat.mod_eq_of_lt (by omega)]
    omega
  have hbit (b : Nat) : (x-1).getLsbD b = if b < j+1 then decide (b < j) else x.getLsbD b := by
    rw [BitVec.getLsbD, BitVec.getLsbD, hpred, Nat.testBit_two_pow_mul_add _ (by rw [Nat.pow_succ]; omega)]
    split
    · exact Nat.testBit_two_pow_sub_one ..
    · rw [Nat.testBit_div_two_pow]
      congr 1
      omega
  rw [BitVec.getLsbD_and, hbit]
  rcases Nat.lt_trichotomy b j with hb | rfl | hb
  · rw [hlow b hb]
    rfl
  · simp
  · simp [hb.ne', show ¬b < j+1 by omega]

end EmOdp.Lib.WordArray
