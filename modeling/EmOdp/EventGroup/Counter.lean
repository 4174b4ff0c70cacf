import EmOdp.Lib.PackedWord

/-! The packed counter word of an event group (`egrp_counter_t`) and the body of
each compare-exchange loop on it. A body is `none` where the loop returns early. -/
namespace EmOdp.EventGroup
open Lib.PackedWord

def egrpCntBits : Nat := 24
def egrpGenBits : Nat := 64 - 2 * egrpCntBits - 1
def egrpCntMax : Nat := 2 ^ egrpCntBits - 1

abbrev Gen := BitVec egrpGenBits

/-- The bit-fields of `egrp_counter_t`; each wraps at its own width. -/
@[ext] structure EgrpCounter where
  preCnt : BitVec egrpCntBits
  postCnt : BitVec egrpCntBits
  applied : Bool
  gen : Gen
  deriving DecidableEq, Repr

namespace EgrpCounter

/-- The word the atomics act on, `pre_cnt` in the low bits. -/
def allU64 (w : EgrpCounter) : BitVec 64 :=
  w.gen ++ (BitVec.ofBool w.applied ++ (w.postCnt ++ w.preCnt))

/-- Comparing the words compares all fields. -/
theorem allU64_injective : Function.Injective allU64 := by
  rintro ⟨p,q,a,g⟩ ⟨p',q',a',g'⟩ h
  obtain ⟨hg,h⟩ := append_inj h
  obtain ⟨ha,h⟩ := append_inj h
  obtain ⟨hq,hp⟩ := append_inj h
  have ha : a = a' := by cases a <;> cases a' <;> simp_all [BitVec.ofBool]
  simp_all

/-- `valid_pre_cnt` -/
def validPreCnt (w : EgrpCounter) (decr : Nat) (eventEgrpGen : Gen) : Bool :=
  !(w.preCnt.toNat < decr || !w.applied || w.gen != eventEgrpGen)

/-- `valid_post_cnt`: `applied` only decides whether an error is reported. -/
def validPostCnt (w : EgrpCounter) (decr : Nat) (egrpGen : Gen) : Bool :=
  !(w.postCnt.toNat < decr || w.gen != egrpGen)

/-- loop body of `pre_count_decrement` -/
def preCountDecrement (decr : Nat) (eventEgrpGen : Gen) (w : EgrpCounter) : Option EgrpCounter :=
  if w.validPreCnt decr eventEgrpGen then
    some { w with preCnt := w.preCnt - BitVec.ofNat _ decr }
  else none

/-- loop body of `post_count_decrement` -/
def postCountDecrement (decr : Nat) (egrpGen : Gen) (w : EgrpCounter) : Option EgrpCounter :=
  if w.validPostCnt decr egrpGen then
    let postCnt := w.postCnt - BitVec.ofNat _ decr
    some { w with
      postCnt := postCnt
      -- all events handled: clear applied before sending notifications
      applied := if postCnt = 0 then false else w.applied }
  else none

/-- loop body of `em_event_group_apply` -/
def emEventGroupApply (count : Nat) (w : EgrpCounter) : Option EgrpCounter :=
  if w.applied then none
  else some
    { preCnt := BitVec.ofNat _ count, postCnt := BitVec.ofNat _ count, applied := true,
      gen := w.gen + 1 }

/-- loop body of `em_event_group_increment` -/
def emEventGroupIncrement (incr : Nat) (egrpGen : Gen) (w : EgrpCounter) : Option EgrpCounter :=
  if w.gen ≠ egrpGen ∨ !w.applied then none
  else if w.preCnt.toNat + incr > egrpCntMax ∨ w.postCnt.toNat + incr > egrpCntMax then none
  else some { w with
    preCnt := w.preCnt + BitVec.ofNat _ incr, postCnt := w.postCnt + BitVec.ofNat _ incr }

/-- loop body of `em_event_group_assign` -/
def emEventGroupAssign (numEvents : Nat) (w : EgrpCounter) : Option EgrpCounter :=
  if w.preCnt.toNat < numEvents ∨ !w.applied then none
  else some { w with preCnt := w.preCnt - BitVec.ofNat _ numEvents }

/-- loop body of `em_event_group_abort` -/
def emEventGroupAbort (w : EgrpCounter) : Option EgrpCounter :=
  if !w.applied then none else some { w with preCnt := 0, postCnt := 0, applied := false }

private theorem sub_toNat {x : BitVec egrpCntBits} {n : Nat} (h : n ≤ x.toNat) :
    (x - BitVec.ofNat _ n).toNat = x.toNat - n := by
  have hx := x.isLt
  have hn : (BitVec.ofNat egrpCntBits n).toNat = n := by
    rw [BitVec.toNat_ofNat, Nat.mod_eq_of_lt (by omega)]
  rw [BitVec.toNat_sub_of_le (by simpa only [BitVec.le_def, hn] using h), hn]

private theorem add_toNat {x : BitVec egrpCntBits} {n : Nat} (h : x.toNat + n ≤ egrpCntMax) :
    (x + BitVec.ofNat _ n).toNat = x.toNat + n := by
  have hlt : x.toNat + n < 2 ^ egrpCntBits := by simp only [egrpCntMax, egrpCntBits] at h ⊢; omega
  have hn : (BitVec.ofNat egrpCntBits n).toNat = n := by
    rw [BitVec.toNat_ofNat, Nat.mod_eq_of_lt (by omega)]
  rw [BitVec.toNat_add_of_lt (by rwa [hn]), hn]

private theorem count_toNat {n : Nat} (h : n ≤ egrpCntMax) :
    (BitVec.ofNat egrpCntBits n).toNat = n := by
  have hlt : n < 2 ^ egrpCntBits := by simp only [egrpCntMax, egrpCntBits] at h ⊢; omega
  rw [BitVec.toNat_ofNat, Nat.mod_eq_of_lt hlt]

theorem postCnt_le_max (w : EgrpCounter) : w.postCnt.toNat ≤ egrpCntMax := by
  have h := w.postCnt.isLt
  simp only [egrpCntMax]
  omega

variable {w v : EgrpCounter}

theorem validPreCnt_iff {decr : Nat} {egrpGen : Gen} : w.validPreCnt decr egrpGen = true ↔
    decr ≤ w.preCnt.toNat ∧ w.applied = true ∧ w.gen = egrpGen := by
  simp [validPreCnt, and_assoc]

theorem validPostCnt_iff {decr : Nat} {egrpGen : Gen} : w.validPostCnt decr egrpGen = true ↔
    decr ≤ w.postCnt.toNat ∧ w.gen = egrpGen := by
  simp [validPostCnt]

theorem preCountDecrement_some {decr : Nat} {egrpGen : Gen}
    (h : w.preCountDecrement decr egrpGen = some v) :
    decr ≤ w.preCnt.toNat ∧ w.applied = true ∧ w.gen = egrpGen ∧
      v.preCnt.toNat = w.preCnt.toNat - decr ∧
      v.postCnt = w.postCnt ∧ v.applied = true ∧ v.gen = w.gen := by
  simp only [preCountDecrement] at h
  split at h <;> cases h
  rename_i hv
  obtain ⟨hd,ha,hg⟩ := validPreCnt_iff.1 hv
  exact ⟨hd,ha,hg,sub_toNat hd,rfl,ha,rfl⟩

theorem postCountDecrement_some {decr : Nat} {egrpGen : Gen}
    (h : w.postCountDecrement decr egrpGen = some v) :
    decr ≤ w.postCnt.toNat ∧ w.gen = egrpGen ∧ v.postCnt.toNat = w.postCnt.toNat - decr ∧
      v.preCnt = w.preCnt ∧ v.gen = w.gen ∧
      v.applied = (if v.postCnt = 0 then false else w.applied) := by
  simp only [postCountDecrement] at h
  split at h <;> cases h
  rename_i hv
  obtain ⟨hd,hg⟩ := validPostCnt_iff.1 hv
  exact ⟨hd,hg,sub_toNat hd,rfl,rfl,rfl⟩

theorem emEventGroupApply_some {count : Nat} (hc : count ≤ egrpCntMax)
    (h : w.emEventGroupApply count = some v) :
    w.applied = false ∧ v.preCnt.toNat = count ∧ v.postCnt.toNat = count ∧ v.applied = true ∧
      v.gen = w.gen + 1 := by
  simp only [emEventGroupApply] at h
  split at h <;> cases h
  rename_i ha
  exact ⟨by simpa using ha,count_toNat hc,count_toNat hc,rfl,rfl⟩

theorem emEventGroupIncrement_some {incr : Nat} {egrpGen : Gen}
    (h : w.emEventGroupIncrement incr egrpGen = some v) :
    w.gen = egrpGen ∧ w.applied = true ∧ v.preCnt.toNat = w.preCnt.toNat + incr ∧
      v.postCnt.toNat = w.postCnt.toNat + incr ∧ v.applied = true ∧ v.gen = w.gen := by
  simp only [emEventGroupIncrement] at h
  split at h
  · cases h
  rename_i hg
  split at h <;> cases h
  rename_i ho
  simp only [ne_eq, Bool.not_eq_eq_eq_not, Bool.not_true, not_or, not_not,
    Bool.not_eq_false] at hg
  simp only [gt_iff_lt, not_or, Nat.not_lt] at ho
  exact ⟨hg.1,hg.2,add_toNat ho.1,add_toNat ho.2,hg.2,rfl⟩

theorem emEventGroupAssign_some {numEvents : Nat} (h : w.emEventGroupAssign numEvents = some v) :
    numEvents ≤ w.preCnt.toNat ∧ w.applied = true ∧
      v.preCnt.toNat = w.preCnt.toNat - numEvents ∧
      v.postCnt = w.postCnt ∧ v.applied = true ∧ v.gen = w.gen := by
  simp only [emEventGroupAssign] at h
  split at h <;> cases h
  rename_i hv
  simp only [Bool.not_eq_eq_eq_not, Bool.not_true, not_or, Nat.not_lt, Bool.not_eq_false] at hv
  exact ⟨hv.1,hv.2,sub_toNat hv.1,rfl,hv.2,rfl⟩

theorem emEventGroupAbort_some (h : w.emEventGroupAbort = some v) :
    w.applied = true ∧ v = { w with preCnt := 0, postCnt := 0, applied := false } := by
  simp only [emEventGroupAbort] at h
  split at h <;> cases h
  rename_i ha
  exact ⟨by simpa using ha,rfl⟩

end EgrpCounter
end EmOdp.EventGroup
