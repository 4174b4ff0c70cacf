import EmOdp.Lib.PackedWord

/-! The lock and event count of an atomic group, packed into one word. -/
namespace EmOdp.AtomicGroup
open Lib.PackedWord

def wrapProtect : BitVec 16 := 0x0FFF

/-- `atomic_group_dispatch_lock_t`, `evcnt` in the low bits. -/
@[ext] structure DispatchLock where
  evcnt : BitVec 32
  wrap : BitVec 16
  lock : BitVec 16
  deriving DecidableEq, Repr

namespace DispatchLock

def lockAndEvcnt (w : DispatchLock) : BitVec 64 := w.lock ++ (w.wrap ++ w.evcnt)

def ofU64 (x : BitVec 64) : DispatchLock := ⟨field 0 32 x,field 32 16 x,field 48 16 x⟩

/-- A carry out of `evcnt` goes into `wrap`. -/
def fetchAdd (w : DispatchLock) (n : Nat) : DispatchLock :=
  ofU64 (w.lockAndEvcnt + BitVec.ofNat 64 n)

/-- A borrow from `evcnt` comes out of `wrap`. -/
def fetchSub (w : DispatchLock) (n : Nat) : DispatchLock :=
  ofU64 (w.lockAndEvcnt - BitVec.ofNat 64 n)

def free : DispatchLock := ⟨0,wrapProtect,0⟩
def held : DispatchLock := ⟨0,wrapProtect,1⟩

theorem lockAndEvcnt_injective : Function.Injective lockAndEvcnt := by
  rintro ⟨e,w,l⟩ ⟨e',w',l'⟩ h
  obtain ⟨hl,h⟩ := append_inj h
  obtain ⟨hw,he⟩ := append_inj h
  simp_all

theorem ofU64_append (l w : BitVec 16) (e : BitVec 32) : ofU64 (l ++ (w ++ e)) = ⟨e,w,l⟩ := by
  have he := field_append_low (x := l) (y := w ++ e) 0 32 (by decide)
  have he' := field_append_low (x := w) (y := e) 0 32 (by decide)
  have hw := field_append_low (x := l) (y := w ++ e) 32 16 (by decide)
  have hw' := field_append_high (x := w) (y := e) 0 16
  have hl := field_append_high (x := l) (y := w ++ e) 0 16
  rw [field_self] at he' hw' hl
  exact congr (congr (congrArg DispatchLock.mk (he.trans he')) (hw.trans hw')) hl

/-- An addition that does not overflow `evcnt` changes nothing else. -/
theorem fetchAdd_spec {w : DispatchLock} {n : Nat} (h : w.evcnt.toNat + n < 2 ^ 32) :
    (w.fetchAdd n).evcnt.toNat = w.evcnt.toNat + n ∧ (w.fetchAdd n).wrap = w.wrap ∧
      (w.fetchAdd n).lock = w.lock := by
  have hword : w.lockAndEvcnt + BitVec.ofNat 64 n = w.lock ++ (w.wrap ++ (w.evcnt + BitVec.ofNat 32 n)) := by
    rw [lockAndEvcnt, ← append_add_ofNat h]
    exact append_add_ofNat (toNat_append_add_lt h)
  rw [fetchAdd, hword, ofU64_append]
  exact ⟨toNat_add_ofNat h,rfl,rfl⟩

theorem fetchSub_spec {w : DispatchLock} {n : Nat} (h : n ≤ w.evcnt.toNat) :
    (w.fetchSub n).evcnt.toNat = w.evcnt.toNat - n ∧ (w.fetchSub n).wrap = w.wrap ∧
      (w.fetchSub n).lock = w.lock := by
  have hword : w.lockAndEvcnt - BitVec.ofNat 64 n = w.lock ++ (w.wrap ++ (w.evcnt - BitVec.ofNat 32 n)) := by
    rw [lockAndEvcnt, ← append_sub_ofNat h]
    exact append_sub_ofNat (h.trans le_toNat_append)
  rw [fetchSub, hword, ofU64_append]
  exact ⟨toNat_sub_ofNat h,rfl,rfl⟩

end DispatchLock
end EmOdp.AtomicGroup
