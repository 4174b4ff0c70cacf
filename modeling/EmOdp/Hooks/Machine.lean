import EmOdp.Lib.TransitionSystem
import EmOdp.Hooks.Refinement

/-! Updates of the hooks, store by store under the lock of the storage, and dispatching
cores that read a table without a lock. -/
namespace EmOdp.Hooks
open Lib

/-- Where the call that holds the lock is. -/
inductive Writer (n : Nat) (F : Type) where
  /-- still to be stored into `next_tbl`, then returned -/
  | storing (op : Op F) (stores : List (Store n F)) (status : Status)
  /-- `next_tbl` is active, `idx` is still to be set -/
  | published (op : Op F)

/-- A core in `dispatch_enter_cb` or `dispatch_exit_cb`. -/
structure Reader (n : Nat) (F : Type) where
  /-- the table it has loaded -/
  cbTbl : Fin apiHooksMaxTblSize
  i : Nat
  called : List F
  /-- it has seen a NULL or the end of the table -/
  done : Bool
  /-- ghost: contents of the table, list of functions and calls started at the load -/
  contents : HookTbl n F
  version : List F
  before : Nat

structure State (ι : Type) (n : Nat) (F : Type) where
  storage : HookStorage n F
  writer : Option (Writer n F)
  reader : ι → Option (Reader n F)
  /-- ghost: the calls in the order in which they got the lock -/
  started : List (Op F)
  /-- ghost: the calls that are completed or have made `next_tbl` active -/
  applied : List (Op F)

inductive Label (ι : Type) (F : Type) where
  /-- a call gets the lock -/
  | start (op : Op F)
  /-- the next store of the call that holds the lock -/
  | store
  /-- a core loads the pointer to the active table -/
  | load (c : ι)
  /-- a core reads the next entry and calls the function -/
  | read (c : ι)
  /-- a core has left the loop, early when no event is left -/
  | leave (c : ι)
  deriving DecidableEq, Repr

variable {ι F : Type} {n : Nat} [DecidableEq ι] [DecidableEq F]

namespace State
variable (s : State ι n F)

def setReader (c : ι) (r : Option (Reader n F)) : State ι n F :=
  { s with reader := Function.update s.reader c r }

def storeNext : Option (State ι n F) :=
  match s.writer with
  | none => none
  | some (.storing op (w :: stores) status) =>
    let next := s.storage.nextIdx
    let hookTblStorage := Function.update s.storage.hookTblStorage next
      ((s.storage.hookTblStorage next).store w)
    some { s with
      storage := { s.storage with hookTblStorage }, writer := some (.storing op stores status) }
  | some (.storing op [] status) =>
    if status = .ok then
      some { s with
        storage := { s.storage with active := s.storage.nextIdx }
        writer := some (.published op)
        applied := s.started }
    else some { s with writer := none, applied := s.started }
  | some (.published _) =>
    some { s with storage := { s.storage with idx := s.storage.nextIdx }, writer := none }

def readNext (c : ι) (r : Reader n F) : State ι n F :=
  if h : r.i < n then
    match s.storage.hookTblStorage r.cbTbl ⟨r.i,h⟩ with
    | some fn => s.setReader c (some { r with i := r.i + 1, called := r.called ++ [fn] })
    | none => s.setReader c (some { r with done := true })
  else s.setReader c (some { r with done := true })

def step : Label ι F → Option (State ι n F)
  | .start op =>
    if s.writer.isNone then
      let update := op.update (s.storage.hookTblStorage s.storage.idx)
      some { s with
        writer := some (.storing op update.stores update.status), started := s.started ++ [op] }
    else none
  | .store => s.storeNext
  | .load c =>
    if (s.reader c).isNone then
      let contents := s.storage.hookTblStorage s.storage.active
      some (s.setReader c (some ⟨s.storage.active,0,[],false,contents,listAfter n s.applied,
        s.started.length⟩))
    else none
  | .read c =>
    match s.reader c with
    | some r => if r.done then none else some (s.readNext c r)
    | none => none
  | .leave c => if (s.reader c).isSome then some (s.setReader c none) else none

end State

structure Initial (s : State ι n F) : Prop where
  storage : s.storage = .init
  writer : s.writer = none
  reader : ∀ c, s.reader c = none
  started : s.started = []
  applied : s.applied = []

def machine (ι : Type) (n : Nat) (F : Type) [DecidableEq ι] [DecidableEq F] :
    System (State ι n F) (Label ι F) :=
  .ofFn Initial State.step

end EmOdp.Hooks
