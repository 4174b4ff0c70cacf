import Mathlib.Tactic.Ring
import EmOdp.Lib.PackedWord

/-! The event-state counters: generation, references and sends, packed into one word.
A word is read as exact integers first; its fields are these integers while none of
them leaves its field. -/
namespace EmOdp.EventState
open Lib.PackedWord

def evgenInit : BitVec 16 := 0x1000
def evgenMax : BitVec 16 := 0xFFFF - 0x1000
def sendCntInit : BitVec 16 := 0x8000
def refCntInit : BitVec 16 := 0x8000

/-- `evstate_cnt_t`; the fields are views of the word. -/
structure EvstateCnt where
  u64 : BitVec 64
  deriving DecidableEq, Repr

namespace EvstateCnt
variable (c d : EvstateCnt)

def evgen : BitVec 16 := field 0 16 c.u64
def rsvd : BitVec 16 := field 16 16 c.u64
def refCnt : BitVec 16 := field 32 16 c.u64
def sendCnt : BitVec 16 := field 48 16 c.u64

def ofParts (evgen rsvd refCnt sendCnt : BitVec 16) : EvstateCnt :=
  ⟨sendCnt ++ (refCnt ++ (rsvd ++ evgen))⟩

theorem ofParts_fields : ofParts c.evgen c.rsvd c.refCnt c.sendCnt = c := by
  rw [ofParts, evgen, rsvd, refCnt, sendCnt, append_field 0 16 16, append_field 0 32 16, append_field 0 48 16]
  exact congrArg EvstateCnt.mk (field_self c.u64)

def addFetch : EvstateCnt := ⟨c.u64 + d.u64⟩
def subFetch : EvstateCnt := ⟨c.u64 - d.u64⟩

/-- `int16_t ref_cnt = REF_CNT_INIT - new_cnt.ref_cnt` -/
def refs : Int := (refCntInit - c.refCnt).toInt

/-- `int16_t send_cnt = new_cnt.send_cnt - SEND_CNT_INIT` -/
def sends : Int := (c.sendCnt - sendCntInit).toInt

/-- The word with generation `g`, `s` sends and `r` references. -/
def encode (g s r : Int) : EvstateCnt :=
  ⟨BitVec.ofInt 64 ((0x8000+s) * 2 ^ 48 + (0x8000-r) * 2 ^ 32 + g)⟩

end EvstateCnt

open EvstateCnt

private theorem u64_ofParts (a b c : BitVec 16) : (ofParts a 0 b c).u64 =
    BitVec.ofInt 64 (c.toNat * 2 ^ 48 + b.toNat * 2 ^ 32 + a.toNat) := by
  apply BitVec.eq_of_toNat_eq
  have ha := a.isLt
  have hb := b.isLt
  have hc := c.isLt
  simp only [ofParts, toNat_append, BitVec.toNat_ofInt, BitVec.ofNat_eq_ofNat, BitVec.toNat_ofNat]
  omega

theorem encode_addFetch (g s r : Int) (a b c : BitVec 16) :
    (encode g s r).addFetch (ofParts a 0 b c) = encode (g+a.toNat) (s+c.toNat) (r-b.toNat) := by
  simp only [addFetch, encode, u64_ofParts, ← BitVec.ofInt_add, EvstateCnt.mk.injEq]
  congr 1
  ring

theorem encode_subFetch (g s r : Int) (a b c : BitVec 16) :
    (encode g s r).subFetch (ofParts a 0 b c) = encode (g-a.toNat) (s-c.toNat) (r+b.toNat) := by
  simp only [subFetch, encode, u64_ofParts, BitVec.sub_eq_add_neg, ← BitVec.ofInt_neg,
    ← BitVec.ofInt_add, EvstateCnt.mk.injEq]
  congr 1
  ring

theorem ofParts_eq_encode (a b c : BitVec 16) :
    ofParts a 0 b c = encode a.toNat (c.toNat - 0x8000) (0x8000 - b.toNat) := by
  have hzero : encode 0 (-0x8000) 0x8000 = ⟨0⟩ := by decide
  have hadd := encode_addFetch 0 (-0x8000) 0x8000 a b c
  rw [hzero, addFetch, show (⟨0⟩ : EvstateCnt).u64 = 0#64 from rfl, BitVec.zero_add, Int.zero_add] at hadd
  rw [show (c.toNat : Int) - 0x8000 = -0x8000 + c.toNat by omega]
  exact hadd

section Decode
variable {g s r : Int}

theorem encode_evgen : (encode g s r).evgen = BitVec.ofInt 16 g := by
  have hword : (0x8000+s) * 2 ^ 48 + (0x8000-r) * 2 ^ 32 + g =
      ((0x8000+s) * 2 ^ 32 + (0x8000-r) * 2 ^ 16) * 2 ^ 16 + g := by omega
  rw [evgen, encode, field_ofInt 0 16 (by decide), Int.pow_zero, Int.ediv_one, hword, ofInt_mul_add]

theorem encode_rsvd (h0 : 0 ≤ g) (h1 : g < 2 ^ 16) : (encode g s r).rsvd = 0 := by
  have hword : ((0x8000+s) * 2 ^ 48 + (0x8000-r) * 2 ^ 32 + g) / 2 ^ 16 =
      ((0x8000+s) * 2 ^ 16 + (0x8000-r)) * 2 ^ 16 + 0 := by omega
  rw [rsvd, encode, field_ofInt 16 16 (by decide), hword, ofInt_mul_add]
  rfl

/-- Whatever the reserved bits take up from the generation. -/
theorem encode_refCnt (h0 : 0 ≤ g) (h1 : g < 2 ^ 32) :
    (encode g s r).refCnt = BitVec.ofInt 16 (0x8000-r) := by
  have hword : ((0x8000+s) * 2 ^ 48 + (0x8000-r) * 2 ^ 32 + g) / 2 ^ 32 =
      (0x8000+s) * 2 ^ 16 + (0x8000-r) := by omega
  rw [refCnt, encode, field_ofInt 32 16 (by decide), hword, ofInt_mul_add]

theorem encode_sendCnt (h0 : 0 ≤ g) (h1 : g < 2 ^ 32) (hr0 : -0x8000 < r) (hr1 : r ≤ 0x8000) :
    (encode g s r).sendCnt = BitVec.ofInt 16 (0x8000+s) := by
  have hword : ((0x8000+s) * 2 ^ 48 + (0x8000-r) * 2 ^ 32 + g) / 2 ^ 48 = 0x8000+s := by omega
  rw [sendCnt, encode, field_ofInt 48 16 (by decide), hword]

private theorem ofInt_sub (x y : Int) :
    BitVec.ofInt 16 x - BitVec.ofInt 16 y = BitVec.ofInt 16 (x-y) := by
  rw [BitVec.sub_eq_add_neg, ← BitVec.ofInt_neg, ← BitVec.ofInt_add, Int.sub_eq_add_neg]

private theorem toInt_ofInt {z : Int} (h0 : -0x8000 ≤ z) (h1 : z < 0x8000) :
    (BitVec.ofInt 16 z).toInt = z := by
  rw [BitVec.toInt_ofInt, Int.bmod_eq_of_le] <;> omega

theorem encode_refs (h0 : 0 ≤ g) (h1 : g < 2 ^ 32) (hr0 : -0x8000 < r) (hr1 : r < 0x8000) :
    (encode g s r).refs = r := by
  have hinit : refCntInit = BitVec.ofInt 16 0x8000 := rfl
  rw [refs, encode_refCnt h0 h1, hinit, ofInt_sub, sub_sub_cancel, toInt_ofInt (by omega) hr1]

theorem encode_sends (h0 : 0 ≤ g) (h1 : g < 2 ^ 32) (hr0 : -0x8000 < r) (hr1 : r ≤ 0x8000)
    (hs0 : -0x8000 ≤ s) (hs1 : s < 0x8000) : (encode g s r).sends = s := by
  have hinit : sendCntInit = BitVec.ofInt 16 0x8000 := rfl
  rw [sends, encode_sendCnt h0 h1 hr0 hr1, hinit, ofInt_sub, add_sub_cancel_left, toInt_ofInt hs0 hs1]

end Decode
end EmOdp.EventState
