import EmOdp.Lib.Batch
import EmOdp.Send.Event

/-! The functions that hand events over to a destination, one event at a time or many: each
has its own way to report what was not accepted. -/
namespace EmOdp.Send
open EventState Lib.Batch

/-- `em_queue_type_t` -/
inductive QueueType where
  | atomic | parallel | parallelOrdered | unscheduled | aggr | local | output | undef
  deriving DecidableEq, Repr

/-- `queue_state_t` as far as a send looks at it -/
inductive QueueState where
  | ready | unscheduled | other
  deriving DecidableEq, Repr

/-- `queue_elem_t` -/
structure QueueElem where
  type : QueueType
  state : QueueState
  /-- `queue_allocated` -/
  allocated : Bool
  scheduled : Bool
  hasAggr : Bool
  /-- `odp_queue != ODP_QUEUE_INVALID` -/
  odpQueue : Bool
  deriving DecidableEq, Repr

/-- The sending core, of `em_locm`. -/
structure Core where
  /-- `start_eo_elem` is set -/
  startEo : Bool
  /-- `sched_context_type == EM_SCHED_CONTEXT_TYPE_ORDERED` -/
  orderedContext : Bool
  deriving DecidableEq, Repr

/-- What `odp_queue_enq`, `odp_queue_enq_multi`, `odp_stash_put_u64` and the user's output
function return. -/
structure Results where
  enq : Int
  enqMulti : Int
  put : Int
  outputFn : Int
  deriving DecidableEq, Repr

inductive Status where
  | ok | badArg | badState | badType | badContext | notFound | notCreated | libFailed
  | operationFailed
  deriving DecidableEq, Repr

/-- What a function that sends one event leaves: its status, the events it handed over and
the event as the caller has it. -/
structure SentOne (γ : Type) where
  stat : Status
  handed : List (Event γ)
  event : Event γ
  deriving DecidableEq

/-- The same of a function that sends an array of events. -/
structure Sent (γ : Type) where
  numSent : Int
  handed : List (Event γ)
  tbl : List (Event γ)
  deriving DecidableEq

variable {γ : Type} (cfg : Config) (q : QueueElem) (res : Results)

section Multi
variable (tbl : List (Event γ))

/-- The vectors' tables are converted before `odp_queue_enq_multi`, and converted back from
the first event that is not enqueued on. -/
def enqVectorsMulti : Except EvstateError (Sent γ) :=
  let odpTbl := tbl.map Event.tbl2odp
  let handed := odpTbl.take res.enqMulti.toNat
  if res.enqMulti = tbl.length then .ok ⟨tbl.length,handed,odpTbl⟩
  else
    let enq := if res.enqMulti < 0 then 0 else res.enqMulti
    (mapFrom (Event.tbl2odpRevert cfg) enq.toNat odpTbl).map fun tbl => ⟨enq,handed,tbl⟩

def sendSchedMulti : Except EvstateError (Sent γ) :=
  if 1 < cfg.checkLevel ∧ !q.odpQueue then .ok ⟨0,[],tbl⟩
  else if 0 < cfg.checkLevel ∧ q.state ≠ .ready then .ok ⟨0,[],tbl⟩
  else if cfg.esvEnabled then enqVectorsMulti cfg res tbl
  else
    let handed := tbl.take res.enqMulti.toNat
    if res.enqMulti = tbl.length then .ok ⟨tbl.length,handed,tbl⟩
    else .ok ⟨if res.enqMulti < 0 then 0 else res.enqMulti,handed,tbl⟩

def queueUnschedEnqueueMulti : Except EvstateError (Sent γ) :=
  if 1 < cfg.checkLevel ∧ !q.odpQueue then .ok ⟨0,[],tbl⟩
  else if 0 < cfg.checkLevel ∧ q.state ≠ .unscheduled then .ok ⟨0,[],tbl⟩
  else if cfg.esvEnabled && q.hasAggr then enqVectorsMulti cfg res tbl
  else .ok ⟨if res.enqMulti < 0 then 0 else res.enqMulti,tbl.take res.enqMulti.toNat,tbl⟩

def sendLocalMulti : Except EvstateError (Sent γ) :=
  if 0 < cfg.checkLevel ∧ q.state ≠ .ready then .ok ⟨0,[],tbl⟩
  else .ok ⟨if 0 < res.put then res.put else 0,tbl.take res.put.toNat,tbl⟩

def sendAggrMulti : Except EvstateError (Sent γ) :=
  if 1 < cfg.checkLevel ∧ !q.odpQueue then .ok ⟨0,[],tbl⟩
  else if 0 < cfg.checkLevel ∧ q.state ≠ .ready ∧ q.state ≠ .unscheduled then .ok ⟨0,[],tbl⟩
  else if 3 ≤ cfg.checkLevel ∧ tbl.any (·.table.isSome) then .ok ⟨0,[],tbl⟩
  else
    let tbl := if cfg.esvEnabled then tbl.map (Event.setAggrSent true) else tbl
    let handed := tbl.take res.enqMulti.toNat
    if res.enqMulti = tbl.length then .ok ⟨tbl.length,handed,tbl⟩
    else
      let enq := if res.enqMulti < 0 then 0 else res.enqMulti
      if cfg.esvEnabled then
        (mapFrom (fun e => .ok (e.setAggrSent false)) enq.toNat tbl).map fun tbl => ⟨enq,handed,tbl⟩
      else .ok ⟨enq,handed,tbl⟩

def sendOutputMulti (core : Core) : Sent γ :=
  if 0 < cfg.checkLevel ∧ q.state ≠ .unscheduled then ⟨0,[],tbl⟩
  else if core.orderedContext then
    if 1 < cfg.checkLevel ∧ !q.odpQueue then ⟨0,[],tbl⟩
    else ⟨if res.enqMulti ≤ 0 then 0 else res.enqMulti,tbl.take res.enqMulti.toNat,tbl⟩
  -- `output_fn` is called directly, what it returns is returned
  else ⟨res.outputFn,tbl.take res.outputFn.toNat,tbl⟩

def eoStartBufferEvents : Sent γ :=
  ⟨if res.put < 0 then 0 else res.put,tbl.take res.put.toNat,tbl⟩

/-- The `switch` over the queue's type in `send_internal_multi` and
`send_egrp_common_multi`. -/
def sendTypeMulti : Except EvstateError (Sent γ) :=
  match q.type with
  | .atomic | .parallel | .parallelOrdered => sendSchedMulti cfg q res tbl
  | .unscheduled => queueUnschedEnqueueMulti cfg q res tbl
  | .aggr => sendAggrMulti cfg q res tbl
  | .local => sendLocalMulti cfg q res tbl
  | .output | .undef => .ok ⟨0,[],tbl⟩

end Multi

section One
variable (event : Event γ)

/-- The vector's table is converted before `odp_queue_enq`, and converted back where the
enqueue is seen to fail. -/
def enqVector (checked : Bool) : Except EvstateError (SentOne γ) :=
  let odpEvent := event.tbl2odp
  let handed := if res.enq = 0 then [odpEvent] else []
  if checked ∧ res.enq ≠ 0 then
    (odpEvent.tbl2odpRevert cfg).map fun event => ⟨.libFailed,handed,event⟩
  else .ok ⟨.ok,handed,odpEvent⟩

def sendSched : Except EvstateError (SentOne γ) :=
  if 1 < cfg.checkLevel ∧ !q.odpQueue then .ok ⟨.notFound,[],event⟩
  else if 0 < cfg.checkLevel ∧ q.state ≠ .ready then .ok ⟨.badState,[],event⟩
  -- the result of the enqueue is looked at from check level 1 on
  else if cfg.esvEnabled then enqVector cfg res event (0 < cfg.checkLevel)
  else if 0 < cfg.checkLevel ∧ res.enq ≠ 0 then .ok ⟨.libFailed,[],event⟩
  else .ok ⟨.ok,if res.enq = 0 then [event] else [],event⟩

def queueUnschedEnqueue : Except EvstateError (SentOne γ) :=
  if 1 < cfg.checkLevel ∧ !q.odpQueue then .ok ⟨.notFound,[],event⟩
  else if 0 < cfg.checkLevel ∧ q.state ≠ .unscheduled then .ok ⟨.badState,[],event⟩
  else if cfg.esvEnabled && q.hasAggr then enqVector cfg res event true
  else if res.enq ≠ 0 then .ok ⟨.libFailed,[],event⟩
  else .ok ⟨.ok,[event],event⟩

def sendLocal : Except EvstateError (SentOne γ) :=
  if 0 < cfg.checkLevel ∧ q.state ≠ .ready then .ok ⟨.badState,[],event⟩
  else if res.put = 1 then .ok ⟨.ok,[event],event⟩
  else .ok ⟨.libFailed,[],event⟩

def sendAggr : Except EvstateError (SentOne γ) :=
  if 1 < cfg.checkLevel ∧ !q.odpQueue then .ok ⟨.notFound,[],event⟩
  else if 0 < cfg.checkLevel ∧ q.state ≠ .ready ∧ q.state ≠ .unscheduled then
    .ok ⟨.badState,[],event⟩
  else if 3 ≤ cfg.checkLevel ∧ event.table.isSome then .ok ⟨.badType,[],event⟩
  else
    let event := if cfg.esvEnabled then event.setAggrSent true else event
    if res.enq ≠ 0 then
      .ok ⟨.libFailed,[],if cfg.esvEnabled then event.setAggrSent false else event⟩
    else .ok ⟨.ok,[event],event⟩

def sendOutput (core : Core) : SentOne γ :=
  if 0 < cfg.checkLevel ∧ q.state ≠ .unscheduled then ⟨.badState,[],event⟩
  else if core.orderedContext then
    if 1 < cfg.checkLevel ∧ !q.odpQueue then ⟨.notFound,[],event⟩
    else if res.enq ≠ 0 then ⟨.libFailed,[],event⟩
    else ⟨.ok,[event],event⟩
  else
    let handed := [event].take res.outputFn.toNat
    if res.outputFn ≠ 1 then ⟨.operationFailed,handed,event⟩ else ⟨.ok,handed,event⟩

/-- The `switch` over the queue's type in `send_internal` and `send_egrp_common`. -/
def sendType : Except EvstateError (SentOne γ) :=
  match q.type with
  | .atomic | .parallel | .parallelOrdered => sendSched cfg q res event
  | .unscheduled => queueUnschedEnqueue cfg q res event
  | .aggr => sendAggr cfg q res event
  | .local => sendLocal cfg q res event
  | .output | .undef => .ok ⟨.notFound,[],event⟩

end One
end EmOdp.Send
