import EmOdp.Lib.TransitionSystem
import EmOdp.QueuePools.Init

/-! Queues are allocated from and freed to the pools of the queue table. -/
namespace EmOdp.QueuePools
open Lib

inductive Status where
  | ok
  | badId
  deriving DecidableEq, Repr

namespace State
variable (s : State)

/-- `queue_elem_get`, as an index into `queue_elem` -/
def queueElemGet (queue : EmQueue) : Option Nat :=
  let queueIdx := queueId2idx queue.queueId
  if queue.deviceId ≠ s.deviceId ∨
      ((BitVec.ofInt 16 queueIdx).toNat : Int) > (s.queueTbl.maxQueueNum.toNat : Int) - 1 then none
  else some queueIdx.toNat

/-- `id_in_queue_pool_static` -/
def idInQueuePoolStatic (qid : BitVec 16) : Bool :=
  if s.opt.numStatic = 0 then
    qid ≥ s.queueTbl.firstInternalQueueId && qid ≤ s.queueTbl.lastInternalQueueId
  else qid ≥ s.queueTbl.firstStaticQueueId && qid ≤ s.queueTbl.lastInternalQueueId

/-- `queue_alloc` on the thread `thread` -/
def queueAlloc (queue : EmQueue) (thread : Nat) : Except String (EmQueue × State) :=
  if queue = .undef then
    match s.pools.objpoolRem .dynamic thread with
    | none => .error "queue pool element alloc failed!"
    | some (x,pools) => .ok (s.queue x,{ s with pools, queueCount := s.queueCount + 1 })
  else if queue.deviceId ≠ s.deviceId ∨ s.idInQueuePoolStatic queue.queueId = false then
    .error "Invalid queue requested or handle not from static range!"
  else
    match s.queueElemGet queue with
    | none => .error "queue_elem ptr NULL!"
    | some x =>
      if (s.pools.elem x).inPool = false then .error "queue already allocated!"
      else
        let (ret,pools) := s.pools.objpoolRemElem .static x
        if ret ≠ 0 then .error "static queue pool element alloc failed!"
        else .ok (s.queue x,{ s with pools, queueCount := s.queueCount + 1 })

/-- `queue_free` -/
def queueFree (queue : EmQueue) : Status × State :=
  match s.queueElemGet queue with
  | none => (.badId,s)
  | some x =>
    let pool := if s.idInQueuePoolStatic queue.queueId then Pool.static else .dynamic
    (.ok,{ s with
      pools := s.pools.objpoolAdd pool (s.pools.elem x).subpoolIdx x
      queueCount := s.queueCount - 1 })

/-- `queue_aggr_alloc` -/
def queueAggrAlloc (thread : Nat) : Except String (EmQueue × State) :=
  match s.pools.objpoolRem .aggr thread with
  | none => .error "aggregator queue pool element alloc failed!"
  | some (x,pools) => .ok (s.queue x,{ s with pools, queueCount := s.queueCount + 1 })

/-- `queue_aggr_free` -/
def queueAggrFree (x : Nat) : State :=
  { s with
    pools := s.pools.objpoolAdd .aggr (s.pools.elem x).subpoolIdx x
    queueCount := s.queueCount - 1 }

end State

/-- The function that gave out a queue. -/
inductive Caller where
  | queueAlloc
  | queueAggrAlloc
  deriving DecidableEq, Repr

structure Run where
  state : State
  /-- ghost: the queues given out and not freed since -/
  given : Nat → Option Caller

inductive Label where
  | queueAlloc (queue : EmQueue) (thread : Nat)
  | queueFree (queue : EmQueue)
  | queueAggrAlloc (thread : Nat)
  | queueAggrFree (x : Nat)

namespace Run
variable (r : Run)

/-- The call gave out the queue of the handle, or failed. -/
def gave (caller : Caller) : Except String (EmQueue × State) → Run
  | .ok (queue,state) =>
    ⟨state,Function.update r.given (queueId2idx queue.queueId).toNat (some caller)⟩
  | .error _ => r

/-- The callers free what is allocated: `em_queue_delete` and failed creates a queue of
`queue_alloc`, `queue_free_aggr_all` one of `queue_aggr_alloc`. -/
def step : Label → Option Run
  | .queueAlloc queue thread => some (r.gave .queueAlloc (r.state.queueAlloc queue thread))
  | .queueFree queue =>
    match r.state.queueElemGet queue with
    | none => some r
    | some x =>
      if r.given x = some .queueAlloc then
        some ⟨(r.state.queueFree queue).2,Function.update r.given x none⟩
      else none
  | .queueAggrAlloc thread => some (r.gave .queueAggrAlloc (r.state.queueAggrAlloc thread))
  | .queueAggrFree x =>
    if r.given x = some .queueAggrAlloc then
      some ⟨r.state.queueAggrFree x,Function.update r.given x none⟩
    else none

end Run

/-- `queue_init` has returned `EM_OK`. -/
structure Initial (cfg : Config) (r : Run) : Prop where
  state : queueInit cfg = some r.state
  given : ∀ x, r.given x = none

def machine (cfg : Config) : System Run Label := .ofFn (Initial cfg) Run.step

end EmOdp.QueuePools
