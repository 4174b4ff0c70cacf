import EmOdp.Lib.ForEach
import EmOdp.QueueTable.Elements
import EmOdp.EoStart.Machine

/-! The queues of the EOs: an EO and its queues from their creation to their delete, with the
operations whose done callbacks come later. -/
namespace EmOdp.EoQueues
open Lib QueueTable
open EoStart (EoState)

/-- The fields of `queue_elem_t` that belong to the EO of the queue. Pointers to functions and
contexts are of type `ρ`, EOs of type `ε`. -/
structure Binding (ε ρ : Type) where
  scheduled : Bool := false
  maxEvents : BitVec 16 := 0
  useMultiRcv : Bool := false
  /-- the union of `receive_func` and `receive_multi_func` -/
  receive : Option ρ := none
  eo : Option ε := none
  eoCtx : Option ρ := none
  eoElem : Option ε := none
  deriving DecidableEq

/-- `eo_elem_t` -/
structure EoElem (ι ρ : Type) where
  /-- not in the EO pool -/
  allocated : Bool := false
  state : EoState := .undef
  startLocalFunc : Option ρ := none
  useMultiRcv : Bool := false
  maxEvents : BitVec 32 := 0
  receiveFunc : Option ρ := none
  receiveMultiFunc : Option ρ := none
  eoCtx : Option ρ := none
  queueList : List ι := []
  numQueues : BitVec 32 := 0
  deriving DecidableEq

/-- A call of an operation that is not done: the start function of an EO runs, or the cores
have requests and the done callback will be called. -/
inductive Pending (ι ε : Type) where
  | startFunc (e : ε) (sync : Bool)
  | startLocal (e : ε)
  | stopLocal (e : ε)
  | removeQueue (e : ε) (q : ι)
  | removeQueueAll (e : ε) (deleteQueues : Bool)
  deriving DecidableEq

/-- The EO that is being started or stopped, and its state meanwhile -/
def Pending.phase {ι ε : Type} : Pending ι ε → Option (ε × EoState)
  | .startFunc e _ => some (e,.starting)
  | .startLocal e => some (e,.starting)
  | .stopLocal e => some (e,.stopping)
  | .removeQueue _ _ => none
  | .removeQueueAll _ _ => none

structure State (ι γ α ε ρ : Type) where
  tbl : QueueTable.State ι γ α
  binding : ι → Binding ε ρ
  eoElem : ε → EoElem ι ρ
  pending : List (Pending ι ε)

inductive Status where
  | ok | err | badArg | badId | badPointer | badState | badType | notCreated | notSupported
  | libFailed | operationFailed
  deriving DecidableEq, Repr

def Status.ofQueue : QueueTable.Status → Status
  | .ok => .ok
  | .badState => .badState
  | .notSupported => .notSupported
  | .badId => .badId
  | .libFailed => .libFailed

/-- The number of requests sent, as far as it is looked at: negative, zero or positive. -/
inductive ReqsSent where
  | failed | zero | some
  deriving DecidableEq, Repr

/-- The types of the queues that an EO can have. -/
def ofEo : QueueType → Bool
  | .atomic | .parallel | .ordered | .local_ => true
  | _ => false

/-- `em_eo_param_t`, and the parameters of `em_eo_multircv_param_t` but the maximum -/
structure EoParam (ρ : Type) where
  /-- `__internal_check` -/
  initCalled : Bool := true
  start : Option ρ
  stop : Option ρ
  receive : Option ρ
  localStart : Option ρ := none
  localStop : Option ρ := none
  /-- the modes of the local functions are in range -/
  startModeOk : Bool := true
  stopModeOk : Bool := true
  eoCtx : Option ρ := none

/-- `EM_EO_MULTIRCV_MAX_EVENTS` -/
def emEoMultircvMaxEvents : Int := 32

variable {ι γ α ε ρ : Type} [DecidableEq ι] [DecidableEq γ] [DecidableEq α] [DecidableEq ε]

namespace State
variable (s : State ι γ α ε ρ)

def setEo (e : ε) (x : EoElem ι ρ) : State ι γ α ε ρ :=
  { s with eoElem := Function.update s.eoElem e x }

def setEoState (e : ε) (state : EoState) : State ι γ α ε ρ :=
  s.setEo e { s.eoElem e with state }

def add (p : Pending ι ε) : State ι γ α ε ρ := { s with pending := s.pending ++ [p] }

/-- `eo_add_queue` -/
def eoAddQueue (e : ε) (q : ι) : State ι γ α ε ρ × Status :=
  let x := s.eoElem e
  if !queueStateChangeCheck (s.tbl.elem q).state .bind true then (s,.badState)
  else ({ s with
    tbl := s.tbl.setElem q { s.tbl.elem q with state := .bind }
    binding := Function.update s.binding q { s.binding q with
      maxEvents := x.maxEvents.setWidth 16
      useMultiRcv := x.useMultiRcv
      receive := if x.useMultiRcv then x.receiveMultiFunc else x.receiveFunc
      eo := some e
      eoCtx := x.eoCtx
      eoElem := some e }
    eoElem := Function.update s.eoElem e { x with
      queueList := x.queueList ++ [q]
      numQueues := x.numQueues + 1 } },.ok)

/-- `list_rem`: the node leaves the list that it is in. -/
def listRem (q : ι) : State ι γ α ε ρ :=
  { s with eoElem := fun e => { s.eoElem e with queueList := (s.eoElem e).queueList.erase q } }

/-- `eo_rem_queue_locked` and `eo_rem_queue` -/
def eoRemQueue (e : ε) (q : ι) : State ι γ α ε ρ × Status :=
  if !queueStateChangeCheck (s.tbl.elem q).state .init false then (s,.badState)
  else
    let s := s.listRem q
    let s := s.setEo e { s.eoElem e with numQueues := (s.eoElem e).numQueues - 1 }
    ({ s with
      tbl := s.tbl.setElem q { s.tbl.elem q with state := .init }
      binding := Function.update s.binding q { s.binding q with eo := none, eoElem := none } },.ok)

/-- `eo_rem_queue_all` -/
def eoRemQueueAll (e : ε) : State ι γ α ε ρ × Status :=
  forEach .ok (fun s q => s.eoRemQueue e q) (s.eoElem e).queueList s

/-- `queue_delete`; `destroyOk` tells for which queues `odp_queue_destroy` succeeds. -/
def queueDelete (q : ι) (destroyOk : ι → Bool) : State ι γ α ε ρ × Status :=
  let r := s.tbl.queueDelete q (destroyOk q)
  ({ s with tbl := r.1 },.ofQueue r.2)

/-- A queue of `eo_delete_queue_all` -/
def eoRemDeleteQueue (e : ε) (q : ι) (destroyOk : ι → Bool) : State ι γ α ε ρ × Status :=
  let r := s.eoRemQueue e q
  if r.2 ≠ .ok then r else r.1.queueDelete q destroyOk

/-- `eo_delete_queue_all` -/
def eoDeleteQueueAll (e : ε) (destroyOk : ι → Bool) : State ι γ α ε ρ × Status :=
  forEach .ok (fun s q => s.eoRemDeleteQueue e q destroyOk) (s.eoElem e).queueList s

/-- The queue gets the state, and its aggregator queues too. -/
def setQueueState (q : ι) (state : QueueState) : State ι γ α ε ρ :=
  { s with tbl := { s.tbl with elem := fun r =>
      if r = q ∨ r ∈ (s.tbl.elem q).aggrQueues then { s.tbl.elem r with state } else s.tbl.elem r } }

/-- `queue_state_set` -/
def queueStateSet (newState : QueueState) (q : ι) : State ι γ α ε ρ × Status :=
  let oldState := (s.tbl.elem q).state
  if newState = oldState ∧ (newState = .ready ∨ newState = .bind) then (s,.ok)
  else if !queueStateChangeCheck oldState newState (decide (newState = .ready)) then (s,.badState)
  else (s.setQueueState q newState,.ok)

/-- `queue_state_change_all` -/
def queueStateChangeAll (e : ε) (newState : QueueState) : State ι γ α ε ρ × Status :=
  forEach .ok (fun s q => s.queueStateSet newState q) (s.eoElem e).queueList s

/-- `queue_enable` -/
def queueEnable (q : ι) : State ι γ α ε ρ × Status :=
  if !(s.tbl.elem q).allocated then (s,.badId) else s.queueStateSet .ready q

/-- `queue_disable` -/
def queueDisable (q : ι) : State ι γ α ε ρ × Status :=
  if !(s.tbl.elem q).allocated then (s,.badId) else s.queueStateSet .bind q

/-- `queue_enable_all` -/
def queueEnableAll (e : ε) : State ι γ α ε ρ × Status :=
  if !(s.eoElem e).allocated then (s,.badId) else s.queueStateChangeAll e .ready

/-- `queue_disable_all` -/
def queueDisableAll (e : ε) : State ι γ α ε ρ × Status :=
  if !(s.eoElem e).allocated then (s,.badId) else s.queueStateChangeAll e .bind

/-- The element of an EO that is created. -/
def initEo (e : ε) (p : EoParam ρ) : State ι γ α ε ρ :=
  s.setEo e { s.eoElem e with
    allocated := true
    queueList := []
    state := .created
    startLocalFunc := p.localStart
    eoCtx := p.eoCtx
    numQueues := 0 }

/-- `eo_create`, with `check_eo_create_params`, for an EO taken from the pool -/
def eoCreate (e : ε) (p : EoParam ρ) : State ι γ α ε ρ × Bool :=
  if !p.initCalled || p.start.isNone || p.stop.isNone || p.receive.isNone then (s,false)
  else if p.localStart.isSome && !p.startModeOk then (s,false)
  else if p.localStop.isSome && !p.stopModeOk then (s,false)
  else
    let s := s.initEo e p
    (s.setEo e { s.eoElem e with
      useMultiRcv := false, maxEvents := 1, receiveFunc := p.receive, receiveMultiFunc := none },true)

/-- `em_eo_create_multircv` for an EO taken from the pool; 0 asks for the default maximum. -/
def emEoCreateMultircv (e : ε) (p : EoParam ρ) (maxEvents : BitVec 32) : State ι γ α ε ρ × Bool :=
  if !p.initCalled || p.start.isNone || p.stop.isNone || p.receive.isNone then (s,false)
  else if maxEvents.toInt < 0 then (s,false)
  else
    let s := s.initEo e p
    (s.setEo e { s.eoElem e with
      useMultiRcv := true
      maxEvents := if maxEvents = 0 then BitVec.ofInt 32 emEoMultircvMaxEvents else maxEvents
      receiveFunc := none
      receiveMultiFunc := p.receive },true)

/-- `eo_free` -/
def eoFree (e : ε) : State ι γ α ε ρ :=
  s.setEo e { s.eoElem e with state := .undef, allocated := false }

/-- `em_eo_delete` -/
def emEoDelete (e : ε) (destroyOk : ι → Bool) : State ι γ α ε ρ × Status :=
  let x := s.eoElem e
  if !x.allocated then (s,.notCreated)
  else if !x.state.acceptsDelete then (s,.badState)
  else
    let r := s.eoDeleteQueueAll e destroyOk
    if r.2 ≠ .ok then r else (r.1.eoFree e,.ok)

/-- `eo_add_queue_escope`: `em_eo_add_queue`, and `em_eo_add_queue_sync` without notifications -/
def eoAddQueueEscope (e : ε) (q : ι) (notifTblOk notifsOk : Bool) : State ι γ α ε ρ × Status :=
  if !(s.eoElem e).allocated || !(s.tbl.elem q).allocated then (s,.notCreated)
  else if !ofEo (s.tbl.elem q).type then (s,.badType)
  else if !notifTblOk then (s,.badArg)
  else
    let r := s.eoAddQueue e q
    if r.2 ≠ .ok then r
    else
      let r := if (r.1.eoElem e).state = .running then r.1.queueEnable q else r
      if r.2 ≠ .ok then r else if !notifsOk then (r.1,.err) else r

/-- `em_eo_remove_queue`; `em_eo_remove_queue_sync` has no notifications. -/
def emEoRemoveQueue (e : ε) (q : ι) (notifTblOk : Bool) (reqsSent : ReqsSent) :
    State ι γ α ε ρ × Status :=
  if !(s.eoElem e).allocated || !(s.tbl.elem q).allocated then (s,.notCreated)
  else if !ofEo (s.tbl.elem q).type then (s,.badType)
  else if !notifTblOk then (s,.badArg)
  else if (s.binding q).eoElem ≠ some e then (s,.badPointer)
  else
    let r := if (s.tbl.elem q).state = .ready then s.queueDisable q else (s,.ok)
    if r.2 ≠ .ok then r
    else match reqsSent with
      | .failed => (r.1,.operationFailed)
      | .zero => r.1.eoRemQueue e q
      | .some => (r.1.add (.removeQueue e q),.ok)

/-- All queues of the EO are removed, or deleted too. -/
def removeAll (e : ε) (deleteQueues : Bool) (destroyOk : ι → Bool) : State ι γ α ε ρ × Status :=
  if deleteQueues then s.eoDeleteQueueAll e destroyOk else s.eoRemQueueAll e

/-- `em_eo_remove_queue_all`; `em_eo_remove_queue_all_sync` has no notifications. -/
def emEoRemoveQueueAll (e : ε) (deleteQueues notifTblOk : Bool) (reqsSent : ReqsSent)
    (destroyOk : ι → Bool) : State ι γ α ε ρ × Status :=
  if !(s.eoElem e).allocated then (s,.notCreated)
  else if !notifTblOk then (s,.badArg)
  else
    let r := s.queueDisableAll e
    if r.2 ≠ .ok then r
    else match reqsSent with
      | .failed => (r.1,.operationFailed)
      | .zero => r.1.removeAll e deleteQueues destroyOk
      | .some => (r.1.add (.removeQueueAll e deleteQueues),.ok)

/-- `em_eo_start` and `em_eo_start_sync` up to the call of the start function -/
def emEoStart (e : ε) (sync notifTblOk stashOk : Bool) : State ι γ α ε ρ × Status :=
  if !(s.eoElem e).allocated then (s,.notCreated)
  else if !(s.eoElem e).state.acceptsStart then (s,.badState)
  else if !notifTblOk then (s,.badArg)
  else
    let s := s.setEoState e .starting
    if !stashOk then (s.setEoState e .error,.libFailed) else (s.add (.startFunc e sync),.ok)

/-- The queues are enabled and the EO runs. Notifications are sent by `em_eo_start` only. -/
def startRunning (e : ε) (sync notifsOk : Bool) : State ι γ α ε ρ × Status :=
  let r := s.queueEnableAll e
  if r.2 ≠ .ok then (r.1.setEoState e .error,r.2)
  else
    let s := r.1.setEoState e .running
    if !sync && !notifsOk then (s.setEoState e .error,.err) else (s,.ok)

/-- `em_eo_start` and `em_eo_start_sync` after the start function; `startOk` and `notifsOk` are
what the error handler has made of the results. -/
def startFuncDone (e : ε) (sync startOk : Bool) (reqsSent : ReqsSent) (notifsOk : Bool) :
    State ι γ α ε ρ × Status :=
  if !startOk then (s.setEoState e .error,.err)
  else if (s.eoElem e).startLocalFunc.isSome then match reqsSent with
    | .failed => (s.setEoState e .error,.operationFailed)
    | .some => (s.add (.startLocal e),.ok)
    -- no core runs the local start function
    | .zero => s.startRunning e sync notifsOk
  else s.startRunning e sync notifsOk

/-- `eo_start_done_callback` and `eo_start_sync_done_callback` -/
def eoStartDoneCallback (e : ε) (localOk : Bool) : State ι γ α ε ρ :=
  if localOk then
    let r := s.queueEnableAll e
    if r.2 = .ok then r.1.setEoState e .running else r.1
  else s

/-- `eo_stop_done` up to the call of the stop function -/
def eoStopDone (e : ε) : State ι γ α ε ρ := s.setEoState e .created

/-- `em_eo_stop` and `em_eo_stop_sync` -/
def emEoStop (e : ε) (sync notifTblOk : Bool) (reqsSent : ReqsSent) : State ι γ α ε ρ × Status :=
  if !(s.eoElem e).allocated then (s,.badArg)
  else if !(s.eoElem e).state.acceptsStop then (s,.badState)
  else if !notifTblOk then (s,.badArg)
  else
    let s := s.setEoState e .stopping
    let r := s.queueDisableAll e
    -- `em_eo_stop` does not look at the result
    if sync = true ∧ r.2 ≠ .ok then r
    else match reqsSent with
      | .failed => (r.1.setEoState e .error,.operationFailed)
      | .zero => (r.1.eoStopDone e,.ok)
      | .some => (r.1.add (.stopLocal e),.ok)

/-- A call that is not done goes on: the start function returns, or the done callback is called. -/
def done (p : Pending ι ε) (ok : Bool) (reqsSent : ReqsSent) (notifsOk : Bool)
    (destroyOk : ι → Bool) : State ι γ α ε ρ :=
  let s := { s with pending := s.pending.erase p }
  match p with
  | .startFunc e sync => (s.startFuncDone e sync ok reqsSent notifsOk).1
  | .startLocal e => s.eoStartDoneCallback e ok
  | .stopLocal e => s.eoStopDone e
  | .removeQueue e q => (s.eoRemQueue e q).1
  | .removeQueueAll e deleteQueues => (s.removeAll e deleteQueues destroyOk).1

/-- `queue_create`; the queue and the aggregator queues of `queue_setup_aggr` have no EO. -/
def queueCreate (q : ι) (p : Create ι γ α) : State ι γ α ε ρ :=
  if !s.tbl.queueCreateCheckArgs p then s
  else
    let tbl := (s.tbl.queueCreate q p).1
    { s with
      tbl
      binding := fun r =>
        if r = q ∨ r ∈ (tbl.elem q).aggrQueues then { scheduled := p.type.scheduled }
        else s.binding r }

/-- `pktin_event_queue2em` -/
def pktinEventQueue2em (q : ι) (type : QueueType) (g : γ) (contextSetOk : Bool) :
    State ι γ α ε ρ :=
  { s with
    tbl := s.tbl.pktinEventQueue2em q type g contextSetOk
    binding := Function.update s.binding q { scheduled := true } }

end State

inductive Label (ι γ α ε ρ : Type) where
  | createQueue (q : ι) (p : Create ι γ α)
  | deleteQueue (q : ι) (destroyOk : ι → Bool)
  | pktinQueue (q : ι) (type : QueueType) (g : γ) (contextSetOk : Bool)
  | createGroup (g : γ)
  | deleteGroup (g : γ)
  | createEo (e : ε) (p : EoParam ρ)
  | createEoMultircv (e : ε) (p : EoParam ρ) (maxEvents : BitVec 32)
  | deleteEo (e : ε) (destroyOk : ι → Bool)
  | addQueue (e : ε) (q : ι) (notifTblOk notifsOk : Bool)
  | removeQueue (e : ε) (q : ι) (notifTblOk : Bool) (reqsSent : ReqsSent)
  | removeQueueAll (e : ε) (deleteQueues notifTblOk : Bool) (reqsSent : ReqsSent)
      (destroyOk : ι → Bool)
  | start (e : ε) (sync notifTblOk stashOk : Bool)
  | stop (e : ε) (sync notifTblOk : Bool) (reqsSent : ReqsSent)
  | done (p : Pending ι ε) (ok : Bool) (reqsSent : ReqsSent) (notifsOk : Bool)
      (destroyOk : ι → Bool)
  /-- the functions that the operations above call, on their own and for queues of the types
  that their callers let through -/
  | enable (q : ι)
  | disable (q : ι)
  | enableAll (e : ε)
  | disableAll (e : ε)

namespace State

def step (s : State ι γ α ε ρ) : Label ι γ α ε ρ → Option (State ι γ α ε ρ)
  | .createQueue q p => if s.tbl.Fresh q p then some (s.queueCreate q p) else none
  | .deleteQueue q destroyOk => some (s.queueDelete q destroyOk).1
  | .pktinQueue q type g contextSetOk =>
    if (s.tbl.elem q).allocated = false ∧ type.scheduled ∧ s.tbl.groupAllocated g then
      some (s.pktinEventQueue2em q type g contextSetOk)
    else none
  | .createGroup g => (s.tbl.step (.createGroup g)).map fun tbl => { s with tbl }
  | .deleteGroup g => (s.tbl.step (.deleteGroup g)).map fun tbl => { s with tbl }
  | .createEo e p => if (s.eoElem e).allocated then none else some (s.eoCreate e p).1
  | .createEoMultircv e p maxEvents =>
    if (s.eoElem e).allocated then none else some (s.emEoCreateMultircv e p maxEvents).1
  | .deleteEo e destroyOk => some (s.emEoDelete e destroyOk).1
  | .addQueue e q notifTblOk notifsOk => some (s.eoAddQueueEscope e q notifTblOk notifsOk).1
  | .removeQueue e q notifTblOk reqsSent => some (s.emEoRemoveQueue e q notifTblOk reqsSent).1
  | .removeQueueAll e deleteQueues notifTblOk reqsSent destroyOk =>
    some (s.emEoRemoveQueueAll e deleteQueues notifTblOk reqsSent destroyOk).1
  | .start e sync notifTblOk stashOk => some (s.emEoStart e sync notifTblOk stashOk).1
  | .stop e sync notifTblOk reqsSent => some (s.emEoStop e sync notifTblOk reqsSent).1
  | .done p ok reqsSent notifsOk destroyOk =>
    if p ∈ s.pending then some (s.done p ok reqsSent notifsOk destroyOk) else none
  | .enable q => if ofEo (s.tbl.elem q).type then some (s.queueEnable q).1 else none
  | .disable q => if ofEo (s.tbl.elem q).type then some (s.queueDisable q).1 else none
  | .enableAll e => some (s.queueEnableAll e).1
  | .disableAll e => some (s.queueDisableAll e).1

/-- No queue, queue group or EO exists. -/
structure Initial (s : State ι γ α ε ρ) : Prop where
  tbl : QueueTable.Initial s.tbl
  state : ∀ q, (s.tbl.elem q).state = .invalid
  binding : ∀ q, s.binding q = {}
  eos : ∀ e, s.eoElem e = {}
  pending : s.pending = []

def machine (ι γ α ε ρ : Type) [DecidableEq ι] [DecidableEq γ] [DecidableEq α] [DecidableEq ε] :
    System (State ι γ α ε ρ) (Label ι γ α ε ρ) := .ofFn Initial step

end State
end EmOdp.EoQueues
