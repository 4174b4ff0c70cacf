import EmOdp.QueueGroup.Machine

/-! Operations on one queue group from their call to their return: the requests to the
cores, the event group that counts them, its done event and the blocking of sync calls. -/
namespace EmOdp.QueueGroup.Operation
open Lib

/-- `em_queue_group_create`, `_modify`, `_delete` and their sync variants -/
inductive Kind where
  | create | createSync | modify | modifySync | delete | deleteSync
  deriving DecidableEq, Repr

namespace Kind

def creates (kind : Kind) : Bool := kind matches .create | .createSync
def deletes (kind : Kind) : Bool := kind matches .delete | .deleteSync

/-- The API that only returns once the operation is complete. -/
def sync (kind : Kind) : Bool := kind matches .createSync | .modifySync | .deleteSync

/-- `queue_group_modify_sync` polls until `in_progress` is cleared, a create never does. -/
def waits (kind : Kind) : Bool := kind matches .modifySync | .deleteSync

end Kind

/-- A call of an operation and its event group. -/
structure Op (ι : Type) where
  kind : Kind
  newMask : Finset ι
  evgrp : Nat
  unsent : List (ι × Req)

/-- `QUEUE_GROUP_ADD_REQ`, `QUEUE_GROUP_REM_REQ` and `EM_INTERNAL_DONE` -/
inductive CtrlEvent where
  | req (req : Req) (evgrp : Nat)
  | done (evgrp : Nat)
  deriving DecidableEq, Repr

/-- The event group of an operation and its done notification. -/
structure Evgrp (ι : Type) where
  /-- requests still to be handled, none once the group is aborted -/
  left : Nat
  kind : Kind
  newMask : Finset ι
  /-- the core that called the operation -/
  caller : ι

structure State (ι : Type) where
  allocated : Bool
  ongoingDelete : Bool
  queues : Nat
  coreMask : Finset ι
  schedGroup : Finset ι
  /-- the operations a core is executing, the innermost first -/
  calls : ι → List (Op ι)
  /-- `locm->sync_api.in_progress` -/
  inProgress : ι → Bool
  /-- the control queue of each core's thread -/
  ctrlQueue : ι → List CtrlEvent
  /-- the shared internal queue, polled by all cores -/
  sharedQueue : List CtrlEvent
  evgrps : Nat → Option (Evgrp ι)
  /-- the next event group -/
  fresh : Nat

inductive Label (ι : Type) where
  | start (c : ι) (kind : Kind) (mask : Finset ι)
  /-- the core's operation sends its next request -/
  | send (c : ι)
  /-- an allocation or a send fails: what is unsent is freed, the event group aborted -/
  | sendFails (c : ι)
  /-- the core handles the first event of its own control queue, or of the shared one -/
  | handle (c : ι)
  | handleShared (c : ι)
  /-- a handler called by the core's poll has made another sync-API call, which has set
  and cleared `in_progress` -/
  | syncApi (c : ι)
  | ret (c : ι)
  /-- queues are created in or deleted from the group -/
  | queues (n : Nat)

variable {ι : Type} [DecidableEq ι]

namespace State
variable (s : State ι)

/-- The core is not in the middle of sending requests. -/
def polls (c : ι) : Bool := (s.calls c).head?.all fun op => op.unsent.isEmpty

/-- The core polls its control queue in a sync call. -/
def waiting (c : ι) : Bool := (s.calls c).head?.any fun op => op.kind.waits && op.unsent.isEmpty

/-- `queue_group_check_mask`, the allocation of a new group and `check_qgrp_state` -/
def accepts (m : CoreMap ι) (kind : Kind) (mask : Finset ι) : Bool :=
  decide (mask ⊆ m.logicMask) &&
    if kind.creates then !s.allocated
    else s.allocated && !s.ongoingDelete && (!kind.deletes || s.queues == 0)

/-- `q_grp_delete_done` -/
def qGrpDeleteDone : State ι :=
  { s with schedGroup := ∅, ongoingDelete := false, allocated := false }

/-- A new group starts empty. -/
def oldMask (kind : Kind) : Finset ι := if kind.creates then ∅ else s.coreMask
def oldGroup (kind : Kind) : Finset ι := if kind.creates then ∅ else s.schedGroup

/-- The calling core joins by itself, and leaves by itself in a call that waits. -/
def moveSelf (c : ι) (kind : Kind) (add rem schedGroup : Finset ι) : Finset ι :=
  let schedGroup := if c ∈ add then insert c schedGroup else schedGroup
  if kind.waits ∧ c ∈ rem then schedGroup.erase c else schedGroup

/-- The mask is updated and the calling core moves itself, under the lock. -/
def update (c : ι) (kind : Kind) (mask : Finset ι) : State ι :=
  let add := addMask (s.oldMask kind) mask
  let rem := remMask (s.oldMask kind) mask
  { s with
    allocated := true
    queues := if kind.creates then 0 else s.queues
    coreMask := mask
    schedGroup := moveSelf c kind add rem (s.oldGroup kind) }

/-- The requests for the other cores. -/
def requests (m : CoreMap ι) (c : ι) (kind : Kind) (mask : Finset ι) : List (ι × Req) :=
  let add := addMask (s.oldMask kind) mask
  let rem := remMask (s.oldMask kind) mask
  m.addremReqs (add.erase c) (if kind.waits then rem.erase c else rem)

def start (m : CoreMap ι) (c : ι) (kind : Kind) (mask : Finset ι) : State ι :=
  let reqs := s.requests m c kind mask
  let t := s.update c kind mask
  if reqs = [] then
    -- nothing to send: the operation is done at once
    let t := if kind.deletes then t.qGrpDeleteDone else t
    if kind.sync then
      let op := { kind, newMask := mask, evgrp := t.fresh, unsent := [] }
      { t with
        calls := Function.update t.calls c (op :: t.calls c), fresh := t.fresh+1
        inProgress := Function.update t.inProgress c (!kind.waits && t.inProgress c) }
    else t
  else
    let op := { kind, newMask := mask, evgrp := t.fresh, unsent := reqs }
    let evgrp := { left := reqs.length, kind, newMask := mask, caller := c }
    { t with
      ongoingDelete := kind.deletes
      calls := Function.update t.calls c (op :: t.calls c), fresh := t.fresh+1
      inProgress := Function.update t.inProgress c (kind.waits || t.inProgress c)
      evgrps := Function.update t.evgrps t.fresh (some evgrp) }

/-- The event group has counted a handled request; its last one sends the done event. -/
def countDecrement (e : Nat) : State ι :=
  match s.evgrps e with
  | none => s
  | some g =>
    let s := { s with evgrps := Function.update s.evgrps e (some { g with left := g.left-1 }) }
    if g.left = 1 then
      if g.kind.sync then
        { s with ctrlQueue := Function.update s.ctrlQueue g.caller (s.ctrlQueue g.caller ++ [.done e]) }
      else { s with sharedQueue := s.sharedQueue ++ [.done e] }
    else s

/-- The done callback of an operation, run by core `c`. -/
def doneCallback (c : ι) (e : Nat) : State ι :=
  match s.evgrps e with
  | none => s
  | some g =>
    let s := if g.kind.deletes then s.qGrpDeleteDone else s
    if g.kind.waits then { s with inProgress := Function.update s.inProgress c false } else s

/-- `i_event__qgrp_add_core_req`, `i_event__qgrp_rem_core_req` or the done callback -/
def handle (c : ι) : CtrlEvent → State ι
  | .req .add e => { s with schedGroup := insert c s.schedGroup }.countDecrement e
  | .req .rem e => { s with schedGroup := s.schedGroup.erase c }.countDecrement e
  | .done e => s.doneCallback c e

def step (m : CoreMap ι) : Label ι → Option (State ι)
  | .start c kind mask =>
    let mask := if kind.deletes then ∅ else mask
    if (s.calls c = [] ∨ s.waiting c) ∧ c ∈ m.logicMask ∧ s.accepts m kind mask then
      some (s.start m c kind mask)
    else none
  | .send c =>
    match s.calls c with
    | { kind, newMask, evgrp, unsent := (d,req) :: unsent } :: calls =>
      let op := { kind, newMask, evgrp, unsent }
      some { s with
        ctrlQueue := Function.update s.ctrlQueue d (s.ctrlQueue d ++ [.req req evgrp])
        calls := Function.update s.calls c (op :: calls) }
    | _ => none
  | .sendFails c =>
    match s.calls c with
    | op :: calls =>
      if op.unsent = [] then none
      else
        -- a create reports the error and returns the group all the same
        let calls := if op.kind.creates then { op with unsent := [] } :: calls else calls
        some { s with
          evgrps := Function.update s.evgrps op.evgrp ((s.evgrps op.evgrp).map ({ · with left := 0 }))
          calls := Function.update s.calls c calls
          inProgress := Function.update s.inProgress c (!op.kind.waits && s.inProgress c) }
    | [] => none
  | .handle c =>
    match s.ctrlQueue c with
    | [] => none
    | event :: events =>
      if s.polls c then
        some ({ s with ctrlQueue := Function.update s.ctrlQueue c events }.handle c event)
      else none
  | .handleShared c =>
    match s.sharedQueue with
    | [] => none
    | event :: events =>
      if s.polls c then some ({ s with sharedQueue := events }.handle c event) else none
  | .syncApi c =>
    if s.waiting c then some { s with inProgress := Function.update s.inProgress c false } else none
  | .ret c =>
    match s.calls c with
    | [] => none
    | op :: calls =>
      if op.unsent = [] ∧ (op.kind.waits → s.inProgress c = false) then
        some { s with calls := Function.update s.calls c calls }
      else none
  | .queues n => if s.allocated then some { s with queues := n } else none

/-- `em_queue_group_mask` -/
def emQueueGroupMask : Option (Finset ι) :=
  if s.allocated = false ∨ s.ongoingDelete then none else some s.coreMask

end State

/-- The element is free and nothing is on its way. -/
structure Initial (s : State ι) : Prop where
  allocated : s.allocated = false
  ongoingDelete : s.ongoingDelete = false
  calls : ∀ c, s.calls c = []
  inProgress : ∀ c, s.inProgress c = false
  ctrlQueue : ∀ c, s.ctrlQueue c = []
  sharedQueue : s.sharedQueue = []
  evgrps : ∀ e, s.evgrps e = none

def machine (m : CoreMap ι) : System (State ι) (Label ι) := .ofFn Initial (State.step · m)

/-- A request of the operation with event group `e` is not handled yet. -/
def Outstanding (s : State ι) (e : Nat) : Prop :=
  (∃ c op, op ∈ s.calls c ∧ op.evgrp = e ∧ op.unsent ≠ []) ∨
    ∃ d req, CtrlEvent.req req e ∈ s.ctrlQueue d

/-- A sync call of core `c` for the mask returns success in this state. -/
def Returns (s : State ι) (c : ι) (mask : Finset ι) : Prop :=
  ∃ op calls, s.calls c = op :: calls ∧ op.kind.sync = true ∧ op.newMask = mask ∧
    op.unsent = [] ∧ (op.kind.waits → s.inProgress c = false)

/-- What is said to be complete is complete. -/
structure Complete (s : State ι) : Prop where
  sync : ∀ c mask, Returns s c mask → s.schedGroup = mask
  async : ∀ e g, s.evgrps e = some g → g.kind = .create ∨ g.kind = .modify →
    s.emQueueGroupMask = some g.newMask → ¬Outstanding s e

end EmOdp.QueueGroup.Operation
