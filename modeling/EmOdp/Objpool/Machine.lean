import Mathlib.Algebra.GroupWithZero.Nat
import EmOdp.Lib.IntrusiveList
import EmOdp.Lib.TransitionSystem

/-! One object pool, down to the links of its lists. A critical section of a subpool is one step; what
the operations access outside of it is a step before. -/
namespace EmOdp.Objpool
open Lib

/-- `OBJSUBPOOLS_MAX` -/
def objsubpoolsMax : Nat := 8

/-- The heads of the subpool lists, and the nodes embedded in the elements -/
inductive ListNode (ι : Type) where
  | listHead (subpool : Nat)
  | listNode (elem : ι)
  deriving DecidableEq

/-- `objpool_node2elem`, which takes any node for that of an element -/
def ListNode.objpoolNode2elem {ι : Type} : ListNode ι → Option ι
  | .listHead _ => none
  | .listNode x => some x

/-- `objpool_elem_t`, less its list node -/
structure Elem where
  subpoolIdx : Nat
  inPool : Bool
  deriving DecidableEq, Repr

/-- What a core is going to do next. -/
inductive Pc (ι : Type) where
  | idle
  /-- `objpool_add` has set the index of the element, and locks the subpool. -/
  | add (elem : ι) (idx : Nat)
  /-- `objpool_rem` locks the subpool of round `i`. -/
  | rem (subpoolIdx : UInt32) (i : Nat)
  /-- `objpool_rem_elem` has read the index of the element, and locks the subpool. -/
  | remElem (elem : ι) (idx : Nat)

/-- The elements added, and what the removals return -/
inductive Event (κ ι : Type) where
  | added (core : κ) (elem : ι)
  | returned (core : κ) (elem : ι)
  /-- `objpool_rem` returns `NULL`. -/
  | null (core : κ)
  /-- `objpool_rem_elem` returns -1. -/
  | notInPool (core : κ) (elem : ι)
  deriving DecidableEq

/-- `objpool_t` with its elements `ι`, and the cores `κ` that use it. `owner` is the core that an element
has been returned to, or that has it from the start. -/
structure State (κ ι : Type) where
  nbrSubpools : Nat
  links : Links (ListNode ι)
  elem : ι → Elem
  pc : κ → Pc ι
  owner : ι → Option κ
  log : List (Event κ ι)

inductive Label (κ ι : Type) where
  | objpoolAdd (core : κ) (subpoolIdx : UInt32) (elem : ι)
  | objpoolRem (core : κ) (subpoolIdx : UInt32)
  | objpoolRemElem (core : κ) (elem : ι)
  /-- the next critical section of the call -/
  | critical (core : κ)
  deriving DecidableEq

/-- The subpool of round `i` of `objpool_rem`: the sum is of type `uint32_t`. -/
def roundIdx (nbrSubpools : Nat) (subpoolIdx : UInt32) (i : Nat) : Nat :=
  (subpoolIdx + UInt32.ofNat i).toNat % nbrSubpools

variable {κ ι : Type} [DecidableEq κ] [DecidableEq ι]

namespace State
variable (s : State κ ι)

/-- `objpool_init`, none is -1 -/
def objpoolInit (nbrSubpools : Nat) : Option (State κ ι) :=
  if nbrSubpools = 0 then none
  else
    let n := if objsubpoolsMax < nbrSubpools then objsubpoolsMax else nbrSubpools
    some { s with
      nbrSubpools := n
      links := (List.range n).foldl (fun links i => links.init (.listHead i)) s.links }

def goto (c : κ) (pc : Pc ι) : State κ ι := { s with pc := Function.update s.pc c pc }

def setInPool (x : ι) (inPool : Bool) : State κ ι :=
  { s with elem := Function.update s.elem x { s.elem x with inPool } }

/-- The call of the core returns. -/
def finish (c : κ) (e : Event κ ι) : State κ ι := { s.goto c .idle with log := s.log ++ [e] }

/-- The element has been taken out of the list that it was linked to. -/
def give (c : κ) (x : ι) (links : Links (ListNode ι)) : State κ ι :=
  ({ s.setInPool x false with links, owner := Function.update s.owner x (some c) }).finish c (.returned c x)

/-- The critical section of `objpool_add` -/
def addSection (c : κ) (x : ι) (idx : Nat) : State κ ι :=
  ({ s.setInPool x true with
    links := s.links.add (.listHead idx) (.listNode x)
    owner := Function.update s.owner x none }).finish c (.added c x)

/-- The critical section of round `i` of `objpool_rem` -/
def remSection (c : κ) (subpoolIdx : UInt32) (i : Nat) : Option (State κ ι) :=
  match s.links.remFirst (.listHead (roundIdx s.nbrSubpools subpoolIdx i)) with
  | none =>
    if i+1 < s.nbrSubpools then some (s.goto c (.rem subpoolIdx (i+1))) else some (s.finish c (.null c))
  | some (node,links) => node.objpoolNode2elem.map fun x => s.give c x links

/-- The critical section of `objpool_rem_elem`: `list_rem` does not read the list head, which may be
that of another subpool by now. -/
def remElemSection (c : κ) (x : ι) : State κ ι :=
  if (s.elem x).inPool then s.give c x (s.links.rem (.listNode x)) else s.finish c (.notInPool c x)

/-- Only the owner of an element adds it. -/
def step : Label κ ι → Option (State κ ι)
  | .objpoolAdd c subpoolIdx x =>
    match s.pc c with
    | .idle =>
      if s.owner x = some c then
        let idx := subpoolIdx.toNat % s.nbrSubpools
        some ({ s with elem := Function.update s.elem x { s.elem x with subpoolIdx := idx } }.goto c (.add x idx))
      else none
    | _ => none
  | .objpoolRem c subpoolIdx =>
    match s.pc c with
    | .idle => some (s.goto c (.rem subpoolIdx 0))
    | _ => none
  | .objpoolRemElem c x =>
    match s.pc c with
    | .idle => some (s.goto c (.remElem x (s.elem x).subpoolIdx))
    | _ => none
  | .critical c =>
    match s.pc c with
    | .idle => none
    | .add x idx => some (s.addSection c x idx)
    | .rem subpoolIdx i => s.remSection c subpoolIdx i
    | .remElem x _ => some (s.remElemSection c x)

/-- Memory that has been set to 0, with any owners of the elements -/
structure Zeroed : Prop where
  elem : ∀ x, (s.elem x).inPool = false
  pc : ∀ c, s.pc c = .idle
  log : s.log = []

/-- After `objpool_init` -/
def Initial : Prop := ∃ t : State κ ι, t.Zeroed ∧ ∃ nbrSubpools, t.objpoolInit nbrSubpools = some s

end State

def system (κ ι : Type) [DecidableEq κ] [DecidableEq ι] : System (State κ ι) (Label κ ι) :=
  System.ofFn State.Initial State.step

namespace State
variable (s t : State κ ι)

/-- The lists of the subpools are rings, and hold the elements that are in the pool, each in the list
of its index. -/
structure Linked (links : Links (ListNode ι)) (elem : ι → Elem) (n : Nat) (lists : Nat → List ι) : Prop where
  ring : ∀ idx < n, links.Ring (.listHead idx) ((lists idx).map .listNode)
  mem : ∀ idx x, x ∈ lists idx ↔ (elem x).inPool = true ∧ (elem x).subpoolIdx = idx
  lt : ∀ x, (elem x).inPool = true → (elem x).subpoolIdx < n

/-- Since it was returned last, the element has been added. -/
def AddedSince (log : List (Event κ ι)) (x : ι) : Prop :=
  ∀ before c after, log = before ++ .returned c x :: after → ∃ d, .added d x ∈ after

/-- The elements are neither lost nor duplicated. -/
structure Conserved : Prop where
  lists : ∃ lists : Nat → List ι,
    (∀ idx < s.nbrSubpools, s.links.Ring (.listHead idx) ((lists idx).map .listNode)) ∧
    (∀ x, ∀ i < s.nbrSubpools, ∀ j < s.nbrSubpools, x ∈ lists i → x ∈ lists j → i = j) ∧
    (∀ x, (s.elem x).inPool = true ↔ ∃ idx < s.nbrSubpools, x ∈ lists idx) ∧
    ∀ idx < s.nbrSubpools, ∀ x ∈ lists idx, (s.elem x).subpoolIdx = idx
  once : ∀ before d x after, s.log = before ++ .returned d x :: after → AddedSince before x

/-- `objpool_rem` runs alone, and returns `NULL`. -/
def RemAlone (c : κ) (subpoolIdx : UInt32) : Prop :=
  (∃ rounds, (system κ ι).Path s (.objpoolRem c subpoolIdx :: List.replicate rounds (.critical c)) t) ∧
    t.log = s.log ++ [.null c]

/-- `list_is_empty` of every subpool -/
def AllEmpty : Prop := ∀ idx < s.nbrSubpools, s.links.isEmpty (.listHead idx) = true

end State

/-- The rounds of `objpool_rem` do not pass the last `uint32_t`, or the remainders go on there. -/
def Scans (nbrSubpools : Nat) (subpoolIdx : UInt32) : Prop :=
  subpoolIdx.toNat + nbrSubpools ≤ 2 ^ 32 ∨ nbrSubpools ∣ 2 ^ 32

instance (nbrSubpools : Nat) (subpoolIdx : UInt32) : Decidable (Scans nbrSubpools subpoolIdx) :=
  inferInstanceAs (Decidable (subpoolIdx.toNat + nbrSubpools ≤ 2 ^ 32 ∨ nbrSubpools ∣ 2 ^ 32))

end EmOdp.Objpool
