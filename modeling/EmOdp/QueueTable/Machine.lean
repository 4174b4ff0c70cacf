import Mathlib.Algebra.GroupWithZero.Nat
import Mathlib.Data.Finset.Basic
import Mathlib.Data.List.FinRange
import EmOdp.Lib.TransitionSystem
import EmOdp.Lib.IntrusiveList

/-! The queue table: what `queue_create_param` acquires for a queue and what `queue_delete`
releases. -/
namespace EmOdp.QueueTable
open Lib

def emMaxOutputQueues : Nat := 64

instance : NeZero emMaxOutputQueues := ⟨by decide⟩

inductive QueueType where
  | undef | atomic | parallel | ordered | unscheduled | local_ | aggr | output
  deriving DecidableEq, Repr

def QueueType.scheduled : QueueType → Bool
  | .atomic | .parallel | .ordered => true
  | _ => false

inductive QueueState where
  | invalid | init | bind | ready | unscheduled
  deriving DecidableEq, Repr

/-- The number of the state in `queue_state_t`. -/
def QueueState.code : QueueState → BitVec 32
  | .invalid => 0
  | .init => 1
  | .bind => 2
  | .ready => 3
  | .unscheduled => 255

/-- `queue_state_change__check` -/
def queueStateChangeCheck (oldState newState : QueueState) (isSetup : Bool) : Bool :=
  if isSetup then newState.code - oldState.code = 1 else oldState.code - newState.code = 1

/-- `queue_elem_t`, for queue handles `ι`, queue groups `γ` and atomic groups `α`. -/
structure QueueElem (ι γ α : Type) where
  /-- not in a queue pool -/
  allocated : Bool := false
  type : QueueType := .undef
  state : QueueState := .invalid
  queueGroup : Option γ := none
  /-- `agrp.atomic_group` where `flags.in_atomic_group` is set -/
  atomicGroup : Option α := none
  /-- the priority is `EM_QUEUE_PRIO_HIGHEST` -/
  highestPrio : Bool := false
  /-- `odp_queue` is not `ODP_QUEUE_INVALID` -/
  odpQueue : Bool := false
  isPktin : Bool := false
  /-- the aggregator queues of a parent, none unless `flags.has_aggr` -/
  aggrQueues : List ι := []
  /-- `aggr.parent_queue` -/
  parentQueue : Option ι := none
  /-- `output.idx` -/
  idx : Fin emMaxOutputQueues := 0
  /-- `output.output_fn_args_event` -/
  argsEvent : Option Nat := none
  deriving DecidableEq

structure State (ι γ α : Type) where
  elem : ι → QueueElem ι γ α
  groupAllocated : γ → Bool
  /-- the nodes `queue_list` of the groups and `qgrp_node` of the queues -/
  qgrpLinks : Links (γ ⊕ ι)
  numQueues : γ → BitVec 32
  /-- the nodes `qlist_head` of the atomic groups and `agrp_node` of the queues -/
  agrpLinks : Links (α ⊕ ι)
  agrpNumQueues : α → BitVec 32
  agrpNumHiPrio : α → BitVec 32
  outputQueueCount : BitVec 32
  outputQueueIdxFree : Fin emMaxOutputQueues → Bool
  /-- the allocated events that hold output function arguments -/
  argsEvents : Finset Nat

/-- Arguments of `queue_create_param`, and what the functions it calls return. -/
structure Create (ι γ α : Type) where
  type : QueueType
  queueGroup : Option γ := none
  atomicGroup : Option α := none
  /-- the call is `em_queue_create_ag`, not `em_queue_create_param` -/
  createAg : Bool := true
  highestPrio : Bool := false
  /-- `output_conf.output_fn` is not null, `output_conf.args_len` is not 0 -/
  outputFn : Bool := true
  hasArgs : Bool := false
  /-- the event that `em_alloc` returns for the arguments -/
  argsEvent : Option Nat := none
  nonblockingOk : Bool := true
  odpQueueOk : Bool := true
  /-- the queues that `queue_setup_aggr` allocates, none where it fails -/
  aggrQueues : Option (List ι) := some []

inductive Status where
  | ok | badState | notSupported | badId | libFailed
  deriving DecidableEq, Repr

variable {ι γ α : Type} [DecidableEq ι] [DecidableEq γ] [DecidableEq α]

namespace State
variable (s : State ι γ α)

def setElem (q : ι) (e : QueueElem ι γ α) : State ι γ α :=
  { s with elem := Function.update s.elem q e }

/-- `queue_group_add_queue_list` -/
def queueGroupAddQueueList (g : γ) (q : ι) : State ι γ α :=
  { s with
    qgrpLinks := s.qgrpLinks.add (.inl g) (.inr q)
    numQueues := Function.update s.numQueues g (s.numQueues g + 1) }

/-- `queue_group_rem_queue_list` -/
def queueGroupRemQueueList (g : γ) (q : ι) : State ι γ α :=
  if s.qgrpLinks.isEmpty (.inl g) then s
  else { s with
    qgrpLinks := s.qgrpLinks.rem (.inr q)
    numQueues := Function.update s.numQueues g (s.numQueues g - 1) }

/-- `atomic_group_add_queue_list` -/
def atomicGroupAddQueueList (a : α) (q : ι) : State ι γ α :=
  { s with
    agrpLinks := s.agrpLinks.add (.inl a) (.inr q)
    agrpNumQueues := Function.update s.agrpNumQueues a (s.agrpNumQueues a + 1)
    agrpNumHiPrio :=
      if (s.elem q).highestPrio then Function.update s.agrpNumHiPrio a (s.agrpNumHiPrio a + 1)
      else s.agrpNumHiPrio }

/-- `atomic_group_rem_queue_list` -/
def atomicGroupRemQueueList (a : α) (q : ι) : State ι γ α :=
  if s.agrpLinks.isEmpty (.inl a) then s
  else { s with
    agrpLinks := s.agrpLinks.rem (.inr q)
    agrpNumQueues := Function.update s.agrpNumQueues a (s.agrpNumQueues a - 1)
    agrpNumHiPrio :=
      if (s.elem q).highestPrio then Function.update s.agrpNumHiPrio a (s.agrpNumHiPrio a - 1)
      else s.agrpNumHiPrio }

/-- `atomic_group_remove_queue` -/
def atomicGroupRemoveQueue (q : ι) : State ι γ α :=
  match (s.elem q).atomicGroup with
  | none => s
  | some a => (s.atomicGroupRemQueueList a q).setElem q { s.elem q with atomicGroup := none }

/-- The element of a queue while it is set up: `queue_setup_common`. -/
def queueSetupCommon (q : ι) (p : Create ι γ α) : State ι γ α :=
  s.setElem q { s.elem q with
    allocated := true
    type := p.type
    state := .invalid
    queueGroup := p.queueGroup
    atomicGroup := p.atomicGroup
    highestPrio := p.highestPrio
    odpQueue := false
    isPktin := false
    aggrQueues := [] }

/-- The aggregator queues of `queue_setup_aggr`, allocated with `q` as parent. -/
def setupAggr (q : ι) (aggrQueues : List ι) : State ι γ α :=
  { s with elem := fun r =>
    if r ∈ aggrQueues then
      { s.elem r with
        allocated := true
        type := .aggr
        state := (s.elem q).state
        queueGroup := none
        atomicGroup := none
        odpQueue := true
        isPktin := false
        aggrQueues := []
        parentQueue := some q }
    else if r = q then { s.elem q with aggrQueues } else s.elem r }

/-- `queue_setup_scheduled` -/
def queueSetupScheduled (q : ι) (p : Create ι γ α) : State ι γ α × Bool :=
  match p.queueGroup with
  | none => (s,false)
  | some g =>
    let s := s.setElem q { s.elem q with state := .init }
    if !p.nonblockingOk || !p.odpQueueOk then (s,false)
    else
      match p.aggrQueues with
      | none => (s,false)
      | some aggrQueues =>
        let s := s.setElem q { s.elem q with odpQueue := true }
        ((s.setupAggr q aggrQueues).queueGroupAddQueueList g q,true)

/-- `queue_setup_unscheduled` -/
def queueSetupUnscheduled (q : ι) (p : Create ι γ α) : State ι γ α × Bool :=
  let s := s.setElem q { s.elem q with queueGroup := none, state := .unscheduled }
  if !p.nonblockingOk || !p.odpQueueOk then (s,false)
  else
    match p.aggrQueues with
    | none => (s,false)
    | some aggrQueues =>
      ((s.setElem q { s.elem q with odpQueue := true }).setupAggr q aggrQueues,true)

/-- `queue_setup_local` -/
def queueSetupLocal (q : ι) : State ι γ α × Bool :=
  (s.setElem q { s.elem q with queueGroup := none, state := .init },true)

/-- Takes the first free output queue index, if there is one. -/
def takeIdx (q : ι) : State ι γ α :=
  match (List.finRange emMaxOutputQueues).find? s.outputQueueIdxFree with
  | none => s
  | some i => { s.setElem q { s.elem q with idx := i } with
      outputQueueIdxFree := Function.update s.outputQueueIdxFree i false }

/-- `error_dec_cnt` -/
def errorDecCnt : State ι γ α × Bool :=
  ({ s with outputQueueCount := s.outputQueueCount - 1 },false)

/-- `queue_setup_output` from the allocation of the arguments on -/
def queueSetupOutputArgs (q : ι) (p : Create ι γ α) : State ι γ α × Bool :=
  let s := s.setElem q { s.elem q with argsEvent := none }
  if p.hasArgs then
    match p.argsEvent with
    | none => s.errorDecCnt
    | some e =>
      let s := { s.setElem q { s.elem q with argsEvent := some e } with
        argsEvents := insert e s.argsEvents }
      if !p.nonblockingOk || !p.odpQueueOk then s.errorDecCnt
      else (s.setElem q { s.elem q with odpQueue := true },true)
  else if !p.nonblockingOk || !p.odpQueueOk then s.errorDecCnt
  else (s.setElem q { s.elem q with odpQueue := true },true)

/-- `queue_setup_output` -/
def queueSetupOutput (q : ι) (p : Create ι γ α) : State ι γ α × Bool :=
  let s := { s with outputQueueCount := s.outputQueueCount + 1 }
  if BitVec.ofNat 32 emMaxOutputQueues < s.outputQueueCount then s.errorDecCnt
  else
    let s := s.setElem q { s.elem q with queueGroup := none, state := .unscheduled }
    if !p.outputFn then s.errorDecCnt else (s.takeIdx q).queueSetupOutputArgs q p

/-- `queue_setup` -/
def queueSetup (q : ι) (p : Create ι γ α) : State ι γ α × Bool :=
  let s := s.queueSetupCommon q p
  match p.type with
  | .atomic | .parallel | .ordered => s.queueSetupScheduled q p
  | .unscheduled => s.queueSetupUnscheduled q p
  | .local_ => s.queueSetupLocal q
  | .output => s.queueSetupOutput q p
  | .undef | .aggr => (s,false)

/-- `queue_free` -/
def queueFree (q : ι) : State ι γ α :=
  s.setElem q { s.elem q with state := .invalid, allocated := false }

/-- `queue_create_check_args`: the groups a queue of the type is created with. -/
def queueCreateCheckArgs (p : Create ι γ α) : Bool :=
  match p.type with
  | .atomic => p.queueGroup.any s.groupAllocated
  | .parallel | .ordered => p.queueGroup.any s.groupAllocated && p.atomicGroup.isNone
  | .unscheduled => p.queueGroup.isNone && p.atomicGroup.isNone
  | .local_ => p.queueGroup.isNone && p.atomicGroup.isNone
  | .output => p.queueGroup.isNone && p.atomicGroup.isNone && p.outputFn
  | .undef | .aggr => false

/-- `queue_create_param` for an element `q` taken from its pool, and the addition to the
list of the atomic group in `em_queue_create_ag` -/
def queueCreate (q : ι) (p : Create ι γ α) : State ι γ α × Bool :=
  if !s.queueCreateCheckArgs p then (s,false)
  else
    match s.queueSetup q p with
    | (t,false) => (t.queueFree q,false)
    | (t,true) =>
      match p.atomicGroup with
      | none => (t,true)
      | some a => if p.createAg then (t.atomicGroupAddQueueList a q,true) else (t,true)

/-- `pktin_event_queue2em` for an ODP queue of the group; the queue is not put on the
group's list. -/
def pktinEventQueue2em (q : ι) (type : QueueType) (g : γ) (contextSetOk : Bool) : State ι γ α :=
  let s := s.queueSetupCommon q { type, queueGroup := some g }
  let s := s.setElem q { s.elem q with odpQueue := true, isPktin := true, state := .init }
  if contextSetOk then s else s.queueFree q

/-- `queue_free_aggr_all`: the linked elements that are aggregators of `q` are freed. -/
def queueFreeAggrAll (q : ι) : State ι γ α :=
  { s with elem := fun r =>
    let e := s.elem r
    if r ∈ (s.elem q).aggrQueues ∧ e.allocated ∧ e.type = .aggr ∧ e.parentQueue = some q then
      { e with allocated := false, state := .invalid, parentQueue := none }
    else if r = q then { e with aggrQueues := [] } else e }

/-- The output queue's part of `queue_delete`, after its events are drained. -/
def releaseOutput (q : ι) : State ι γ α :=
  let e := s.elem q
  { s.setElem q { e with argsEvent := none } with
    argsEvents := e.argsEvent.elim s.argsEvents s.argsEvents.erase
    outputQueueIdxFree := Function.update s.outputQueueIdxFree e.idx true
    outputQueueCount := s.outputQueueCount - 1 }

/-- The removals of `queue_delete` that come before the ODP queue is destroyed; none where
the queue group is invalid. -/
def queueRelease (q : ι) : Option (State ι γ α) :=
  let e := s.elem q
  if e.type ≠ .unscheduled ∧ e.type ≠ .local_ ∧ e.type ≠ .output then
    match e.queueGroup with
    | none => none
    | some g => if s.groupAllocated g then some (s.queueGroupRemQueueList g q) else none
  else if e.type = .output then some (s.releaseOutput q)
  else some s

/-- `odp_queue_destroy` is called. -/
def destroysOdpQueue (q : ι) : Bool := (s.elem q).odpQueue && !(s.elem q).isPktin

/-- `queue_delete` from `odp_queue_destroy` on, which returns `destroyOk` if it is called -/
def queueDestroy (q : ι) (destroyOk : Bool) : State ι γ α × Status :=
  if s.destroysOdpQueue q && !destroyOk then (s,.libFailed)
  else
    let s := s.setElem q { s.elem q with odpQueue := false }
    (((s.queueFreeAggrAll q).atomicGroupRemoveQueue q).queueFree q,.ok)

/-- `queue_delete` -/
def queueDelete (q : ι) (destroyOk : Bool) : State ι γ α × Status :=
  let e := s.elem q
  if !e.allocated then (s,.badState)
  else if e.type = .aggr then (s,.notSupported)
  else if e.type ≠ .unscheduled ∧ e.type ≠ .output ∧
      !queueStateChangeCheck e.state .invalid false then (s,.badState)
  else
    match s.queueRelease q with
    | none => (s,.badId)
    | some t => t.queueDestroy q destroyOk

/-- `check_qgrp_state` for a delete of the group -/
def queueGroupDeleteAccepted (g : γ) : Bool :=
  s.groupAllocated g && s.qgrpLinks.isEmpty (.inl g)

end State

inductive Label (ι γ α : Type) where
  | create (q : ι) (p : Create ι γ α)
  | delete (q : ι) (destroyOk : Bool)
  | pktinQueue (q : ι) (type : QueueType) (g : γ) (contextSetOk : Bool)
  /-- a queue is added to an EO, enabled, disabled or removed from the EO -/
  | setState (q : ι) (state : QueueState)
  | createGroup (g : γ)
  | deleteGroup (g : γ)

namespace State

/-- `queue_alloc` and `queue_aggr_alloc` take elements that are free, `em_alloc` an event
that is not in use. -/
def Fresh (s : State ι γ α) (q : ι) (p : Create ι γ α) : Prop :=
  (s.elem q).allocated = false ∧
    (∀ r ∈ p.aggrQueues.getD [], (s.elem r).allocated = false ∧ r ≠ q) ∧
    ∀ e ∈ p.argsEvent, e ∉ s.argsEvents

instance (s : State ι γ α) (q : ι) (p : Create ι γ α) : Decidable (s.Fresh q p) := by
  unfold Fresh
  infer_instance

def step (s : State ι γ α) : Label ι γ α → Option (State ι γ α)
  | .create q p => if s.Fresh q p then some (s.queueCreate q p).1 else none
  | .delete q destroyOk => some (s.queueDelete q destroyOk).1
  | .pktinQueue q type g contextSetOk =>
    if (s.elem q).allocated = false ∧ type.scheduled ∧ s.groupAllocated g then
      some (s.pktinEventQueue2em q type g contextSetOk)
    else none
  | .setState q state =>
    let e := s.elem q
    if e.allocated ∧ e.type ≠ .output ∧ e.type ≠ .unscheduled ∧ state ≠ .invalid ∧
        queueStateChangeCheck e.state state (decide (state = .ready)) then
      some (s.setElem q { e with state })
    else none
  | .createGroup g =>
    if s.groupAllocated g then none
    else some { s with
      groupAllocated := Function.update s.groupAllocated g true
      qgrpLinks := s.qgrpLinks.init (.inl g)
      numQueues := Function.update s.numQueues g 0 }
  | .deleteGroup g =>
    if s.queueGroupDeleteAccepted g then
      some { s with groupAllocated := Function.update s.groupAllocated g false }
    else none

end State

/-- No queue and no queue group exists. -/
structure Initial (s : State ι γ α) : Prop where
  elem : ∀ q, (s.elem q).allocated = false
  groups : ∀ g, s.groupAllocated g = false
  count : s.outputQueueCount = 0
  idxFree : ∀ i, s.outputQueueIdxFree i = true
  argsEvents : s.argsEvents = ∅

/-- The table after initialization, each node linked to itself. -/
def emptyTable : State ι γ α where
  elem _ := {}
  groupAllocated _ := false
  qgrpLinks := { next := id, prev := id }
  numQueues _ := 0
  agrpLinks := { next := id, prev := id }
  agrpNumQueues _ := 0
  agrpNumHiPrio _ := 0
  outputQueueCount := 0
  outputQueueIdxFree _ := true
  argsEvents := ∅

omit [DecidableEq ι] [DecidableEq γ] [DecidableEq α] in
theorem emptyTable_initial : Initial (emptyTable : State ι γ α) :=
  ⟨fun _ => rfl,fun _ => rfl,rfl,fun _ => rfl,rfl⟩

def machine (ι γ α : Type) [DecidableEq ι] [DecidableEq γ] [DecidableEq α] :
    System (State ι γ α) (Label ι γ α) := .ofFn Initial State.step

end EmOdp.QueueTable
