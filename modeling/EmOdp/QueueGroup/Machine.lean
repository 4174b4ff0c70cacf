import Mathlib.Data.Finset.SymmDiff
import Mathlib.Data.Fintype.Basic
import EmOdp.Lib.TransitionSystem

/-! Changes of one queue group's core mask. The mask is updated under the group's lock;
the other cores join or leave the ODP schedule group when they handle a request from
their own control queue. -/
namespace EmOdp.QueueGroup
open Lib

/-- `core_map_t`, fixed while no core starts or ends. -/
structure CoreMap (ι : Type) where
  /-- the running cores -/
  logicMask : Finset ι
  /-- EM cores in the order of their ODP thread ids -/
  threads : List ι
  nodup : threads.Nodup
  complete : ∀ c, c ∈ threads

/-- `QUEUE_GROUP_ADD_REQ` and `QUEUE_GROUP_REM_REQ` -/
inductive Req where
  | add | rem
  deriving DecidableEq, Repr

instance : Fintype Req := ⟨{.add,.rem},fun req => by cases req <;> decide⟩

/-- Whether the core is joined once it has handled the request. -/
def Req.joins : Req → Bool
  | .add => true
  | .rem => false

/-- One `queue_group_elem_t` and the control events that concern it. -/
structure State (ι : Type) where
  allocated : Bool
  coreMask : Finset ι
  /-- the cores whose threads are in `odp_sched_group` -/
  schedGroup : Finset ι
  ctrlQueue : ι → List Req
  /-- requests that the operation called by a core is still to send -/
  unsent : ι → List (ι × Req)

inductive Label (ι : Type) where
  /-- `queue_group_create` or `queue_group_create_sync` -/
  | create (c : ι) (mask : Finset ι)
  /-- `queue_group_modify`, or `queue_group_modify_sync` if `sync` is set -/
  | modify (c : ι) (newMask : Finset ι) (sync : Bool)
  /-- the core's operation sends its next request -/
  | send (c : ι)
  /-- an allocation or a send fails: all that is unsent is freed -/
  | sendFails (c : ι)
  /-- the core handles the first request of its control queue -/
  | handle (c : ι)

variable {ι : Type} [DecidableEq ι]

/-- `count_qgrp_adds` -/
def addMask (oldMask newMask : Finset ι) : Finset ι := symmDiff oldMask newMask ∩ newMask

/-- `count_qgrp_rems` -/
def remMask (oldMask newMask : Finset ι) : Finset ι := symmDiff oldMask newMask ∩ oldMask

namespace CoreMap

/-- `mask_em2odp__rwlocked` and the thread loop of `send_addrem_events` -/
def toThreads (m : CoreMap ι) (mask : Finset ι) : List ι := m.threads.filter (· ∈ mask)

/-- The requests of `send_qgrp_addrem_reqs` in the order they are sent. -/
def addremReqs (m : CoreMap ι) (add rem : Finset ι) : List (ι × Req) :=
  (m.toThreads rem).map (·,.rem) ++ (m.toThreads add).map (·,.add)

end CoreMap

namespace State
variable (s : State ι)

def qGrpAddCore (c : ι) : State ι := { s with schedGroup := insert c s.schedGroup }
def qGrpRemCore (c : ι) : State ι := { s with schedGroup := s.schedGroup.erase c }

def create (m : CoreMap ι) (c : ι) (mask : Finset ι) : State ι :=
  let s := { s with allocated := true, coreMask := mask, schedGroup := ∅ }
  let s := if c ∈ mask then s.qGrpAddCore c else s
  { s with unsent := Function.update s.unsent c (m.addremReqs (mask.erase c) ∅) }

def modify (m : CoreMap ι) (c : ι) (newMask : Finset ι) (sync : Bool) : State ι :=
  let add := addMask s.coreMask newMask
  let rem := remMask s.coreMask newMask
  let s := { s with coreMask := newMask }
  let s := if c ∈ add then s.qGrpAddCore c else s
  -- only the blocking variant leaves at once, the other one sends itself a request
  let s := if sync ∧ c ∈ rem then s.qGrpRemCore c else s
  let unsent := m.addremReqs (add.erase c) (if sync then rem.erase c else rem)
  { s with unsent := Function.update s.unsent c unsent }

/-- `i_event__qgrp_add_core_req` and `i_event__qgrp_rem_core_req` -/
def handleReq (c : ι) : Req → State ι
  | .add => s.qGrpAddCore c
  | .rem => s.qGrpRemCore c

def step (m : CoreMap ι) : Label ι → Option (State ι)
  | .create c mask =>
    if s.allocated = false ∧ c ∈ m.logicMask ∧ s.unsent c = [] then
      -- `queue_group_check_mask`
      some (if mask ⊆ m.logicMask then s.create m c mask else s)
    else none
  | .modify c newMask sync =>
    if s.allocated ∧ c ∈ m.logicMask ∧ s.unsent c = [] then
      some (if newMask ⊆ m.logicMask then s.modify m c newMask sync else s)
    else none
  | .send c =>
    match s.unsent c with
    | [] => none
    | (d,req) :: unsent => some { s with
        ctrlQueue := Function.update s.ctrlQueue d (s.ctrlQueue d ++ [req])
        unsent := Function.update s.unsent c unsent }
  | .sendFails c =>
    if s.unsent c = [] then none else some { s with unsent := Function.update s.unsent c [] }
  | .handle c =>
    match s.ctrlQueue c with
    | [] => none
    | req :: ctrlQueue =>
      if s.unsent c = [] then
        some ({ s with ctrlQueue := Function.update s.ctrlQueue c ctrlQueue }.handleReq c req)
      else none

end State

/-- The element is free and no request is on its way. -/
structure Initial (s : State ι) : Prop where
  allocated : s.allocated = false
  coreMask : s.coreMask = ∅
  schedGroup : s.schedGroup = ∅
  ctrlQueue : ∀ c, s.ctrlQueue c = []
  unsent : ∀ c, s.unsent c = []

def machine (m : CoreMap ι) : System (State ι) (Label ι) := .ofFn Initial (State.step · m)

/-- No request for the group is in flight. -/
structure Quiet (s : State ι) : Prop where
  ctrlQueue : ∀ c, s.ctrlQueue c = []
  unsent : ∀ c, s.unsent c = []

end EmOdp.QueueGroup
