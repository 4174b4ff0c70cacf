import EmOdp.Lib.WhileLoop
import EmOdp.Lib.WordArray

/-! Core masks and the arrays of words that they are read from and written to. -/
namespace EmOdp.CoreMask
open Lib Lib.WordArray

/-- `odp_cpumask_t`, where `size` is `ODP_CPUMASK_SIZE` -/
structure OdpCpumask (size : Nat) where
  cpus : BitVec size
  deriving DecidableEq, Repr

namespace OdpCpumask
variable {size : Nat} (mask : OdpCpumask size)

def zero : OdpCpumask size := ⟨0⟩

def set (cpu : Nat) : OdpCpumask size := ⟨mask.cpus ||| BitVec.twoPow size cpu⟩

def isset (cpu : Nat) : Bool := mask.cpus.getLsbD cpu

/-- The first cpu above `cpu`, or -1 -/
def next (cpu : Int) : Int :=
  match (List.range size).find? fun c : Nat => decide (cpu < c) && mask.isset c with
  | some c => c
  | none => -1

def first : Int := mask.next (-1)

@[ext] theorem ext {a b : OdpCpumask size} (h : ∀ c < size, a.isset c = b.isset c) : a = b :=
  congrArg mk (BitVec.eq_of_getLsbD_eq h)

@[simp] theorem isset_zero (c : Nat) : (zero : OdpCpumask size).isset c = false := BitVec.getLsbD_zero

theorem isset_set (cpu c : Nat) : (mask.set cpu).isset c = (mask.isset c || decide (c < size ∧ c = cpu)) := by
  rw [isset, isset, set, BitVec.getLsbD_or, BitVec.getLsbD_twoPow]
  grind

theorem lt_of_isset {c : Nat} (h : mask.isset c = true) : c < size := BitVec.lt_of_getLsbD h

/-- The next cpu is the least one above. -/
theorem next_spec (cpu : Int) : (mask.next cpu = -1 ∧ ∀ c : Nat, cpu < c → mask.isset c = false) ∨
    ∃ c : Nat, mask.next cpu = c ∧ cpu < c ∧ mask.isset c = true ∧ ∀ d : Nat, cpu < d → d < c → mask.isset d = false := by
  rw [next]
  cases hf : (List.range size).find? fun c : Nat => decide (cpu < c) && mask.isset c with
  | none =>
    refine .inl ⟨rfl,fun c hc => Bool.eq_false_iff.2 fun hset => ?_⟩
    have hnot := List.find?_eq_none.1 hf c (List.mem_range.2 (mask.lt_of_isset hset))
    simp [hc, hset] at hnot
  | some c =>
    obtain ⟨hc,-,hbefore⟩ := List.find?_range_eq_some.1 hf
    simp only [Bool.and_eq_true, decide_eq_true_eq] at hc
    refine .inr ⟨c,rfl,hc.1,hc.2,fun d hd hdc => ?_⟩
    simpa [hd] using hbefore d hdc

end OdpCpumask

/-- An `int`: the C standard leaves the overflow undefined. -/
def int (x : Int) : Option Int := if -2^31 ≤ x ∧ x < 2^31 then some x else none

section
variable {size : Nat}

/-- Word `i` of `em_core_mask_set_bits` from bit `64 - n` on; false if a cpu is above the last one -/
def setWord (i : Nat) : Nat → BitVec 64 → OdpCpumask size → OdpCpumask size × Bool
  | 0, _, mask => (mask,true)
  | n+1, mask64, mask =>
    if mask64 = 0 then (mask,true)
    else
      let j := 63 - n
      let cpu := i*64 + j
      if (size : Int) - 1 < cpu then (mask,false)
      else if mask64 &&& (1#64 <<< j) ≠ 0 then setWord i n (mask64 &&& (mask64 - 1)) (mask.set cpu)
      else setWord i n mask64 mask

def setWords (bits : List (BitVec 64)) : List Nat → OdpCpumask size → OdpCpumask size
  | [], mask => mask
  | i :: is, mask =>
    match setWord i 64 (bits.getD i 0) mask with
    | (mask,true) => setWords bits is mask
    | (mask,false) => mask

def emCoreMaskSetBits (bits : List (BitVec 64)) (len : Nat) (mask : OdpCpumask size) : OdpCpumask size :=
  let maxlen := (size + 63) / 64
  let len := if maxlen < len then maxlen else len
  setWords bits (List.range len) mask

/-- The loop of `em_core_mask_bits` over the cpus -/
structure Walk where
  cpu : Int
  i : Int
  bits : List (BitVec 64)

def Walk.step (mask : OdpCpumask size) (w : Walk) : Walk where
  cpu := mask.next w.cpu
  i := w.cpu / 64
  bits := setBit w.bits w.cpu.toNat

def emCoreMaskBits (bits : List (BitVec 64)) (len : Nat) (mask : OdpCpumask size) :
    Option (List (BitVec 64) × Int) :=
  if len < 1 then some (bits,0)
  else do
    let maxcpu : Int := size - 1
    let cpus ← int (len * 64)
    let maxcpu := if maxcpu ≥ cpus then cpus - 1 else maxcpu
    let bits := (List.range len).foldl (fun bits i => bits.set i 0) bits
    let (_,w) ← whileLoop (fun w : Walk => decide (0 ≤ w.cpu ∧ w.cpu ≤ maxcpu)) (fun _ w => Walk.step mask w)
      (size + 1) 0 ⟨mask.first,-1,bits⟩
    return (w.bits,w.i + 1)

end

end EmOdp.CoreMask
