import EmOdp.EventFree.FreeMulti
import EmOdp.EventState.ExternalUpdate
import EmOdp.Lib.TransitionSystem
import EmOdp.Send.Destinations

/-! Packets from outside of EM. `em_odp_pkt_enqueue` puts them into queues, from where they are dispatched
or dequeued as events that were sent there are. -/
namespace EmOdp.OdpExt
open Lib EventState EventFree
open Send (QueueElem QueueType QueueState)

section Header
variable (cfg : Config) (event : EvHdl) (e : OdpEvent)

/-- `evhdr_update_state` after a transition -/
def updateState : ApiOp := if cfg.storeState && !e.hdr.refsUsed then .other else e.apiOp

/-- `evstate_em2usr` -/
def evstateEm2usr : Option (EvHdl × OdpEvent) :=
  (EventState.evstateEm2usr event e.hdr).toOption.map fun r =>
    (r.1,{ e with hdr := r.2, apiOp := if e.hdr.odpType then e.apiOp else updateState cfg e })

/-- `evstate_usr2em` -/
def evstateUsr2em : Option OdpEvent :=
  if e.hdr.odpType then some e else e.esvUsr2em cfg .other .single event cntSend false

/-- The header of a packet that EM has not seen before -/
def firstSeen (hdr : EvHdr) (apiOp : ApiOp) : OdpEvent :=
  { e with
    hdr := { hdr with refsUsed := false, odpType := false }
    timerInd := false
    tmoActive := false
    apiOp
    userFlag := true }

/-- `evhdr_init_pkt` with `is_extev`, and `evhdr_init_pkt_multi` for one packet -/
def evhdrInitPkt : Option (EvHdl × OdpEvent) :=
  if e.userFlag then
    if cfg.esvEnabled then evstateEm2usr cfg e.hdr.event e else some (event,e)
  else if cfg.esvEnabled then
    (EventState.evhdrInitPkt cfg.preallocPools event e.hdr e.emPool false true).toOption.map fun r =>
      (r.1,firstSeen e r.2 (if cfg.storeState then .other else e.apiOp))
  else some (event,firstSeen e { e.hdr with event } e.apiOp)

/-- `event_init_pkt_multi` with `is_extev` -/
def eventInitPktMulti : List OdpEvt → (OdpEvt → OdpEvent) → Option (List EvHdl × (OdpEvt → OdpEvent))
  | [], m => some ([],m)
  | p :: ps, m => do
    let (event,e) ← evhdrInitPkt cfg ⟨p,0⟩ (m p)
    let (events,m) ← eventInitPktMulti ps (Function.update m p e)
    return (event :: events,m)

end Header

/-- What `odp_queue_enq_multi`, `odp_stash_put_u64`, `send_chaining_multi` and the user's output function
return -/
structure Results where
  enqMulti : Int
  put : Int
  chaining : Int
  outputFn : Int

/-- Each accepts `num` events at most. -/
structure Results.Within (res : Results) (num : Nat) : Prop where
  enqMulti : res.enqMulti ≤ num
  put : res.put ≤ num
  chaining : res.chaining ≤ num
  outputFn : res.outputFn ≤ num

/-- The end of a call: the return value, the events that were handed over, the packets that were given to
ODP to be freed, and the memory -/
structure Enqueued where
  sent : Int
  handed : List EvHdl
  freed : List OdpEvt
  memory : Memory

section Enqueue
variable (cfg : Config) (q : QueueElem)
-- `sched_context_type == EM_SCHED_CONTEXT_TYPE_ORDERED`
variable (orderedContext : Bool)
variable (res : Results) (pktTbl : List OdpEvt) (m : Memory)

/-- What `send_local_multi` returns -/
def sendLocalMulti : Int :=
  if 0 < cfg.checkLevel ∧ q.state ≠ .ready then 0 else if 0 < res.put then res.put else 0

/-- What `send_output_multi` returns -/
def sendOutputMulti : Int :=
  if 0 < cfg.checkLevel ∧ q.state ≠ .unscheduled then 0
  else if orderedContext then
    if 1 < cfg.checkLevel ∧ !q.odpQueue then 0
    else if res.enqMulti ≤ 0 then 0 else res.enqMulti
  else res.outputFn

/-- `odp_packet_free_multi` -/
def odpPacketFreeMulti (events : List EvHdl) (m : Memory) : Option (Memory × List OdpEvt) :=
  some (m,events.map EvHdl.evptr)

/-- The events that were not sent are freed. -/
def freeUnsent (free : List EvHdl → Memory → Option (Memory × List OdpEvt)) (sent : Int)
    (events : List EvHdl) (m : Memory) : Option Enqueued :=
  if sent < events.length then
    let sent := if sent < 0 then 0 else sent
    (free (events.drop sent.toNat) m).map fun r => ⟨sent,events.take sent.toNat,r.2,r.1⟩
  else some ⟨sent,events,[],m⟩

/-- `events_odp2em` -/
def eventsOdp2em : List EvHdl := pktTbl.map fun p => ⟨p,0⟩

/-- The headers are left for the dispatcher to initialize. -/
def enqueueRaw (sent : Int) : Option Enqueued := freeUnsent odpPacketFreeMulti sent (eventsOdp2em pktTbl) m

/-- The headers are initialized first. -/
def enqueueInit (sent : Int) : Option Enqueued := do
  let (events,event) ← eventInitPktMulti cfg pktTbl m.event
  freeUnsent (emFreeMulti cfg) sent events { m with event }

/-- `pkt_enqueue_scheduled` -/
def pktEnqueueScheduled : Option Enqueued := enqueueRaw pktTbl m res.enqMulti

/-- `pkt_enqueue_local` -/
def pktEnqueueLocal : Option Enqueued := enqueueRaw pktTbl m (sendLocalMulti cfg q res)

/-- `pkt_enqueue_chaining_out`, `external` is what `queue_external` returns -/
def pktEnqueueChainingOut (external : Bool) : Option Enqueued :=
  enqueueInit cfg pktTbl m (if external then res.chaining else 0)

/-- `pkt_enqueue_unscheduled` -/
def pktEnqueueUnscheduled : Option Enqueued := enqueueInit cfg pktTbl m res.enqMulti

/-- `pkt_enqueue_output` -/
def pktEnqueueOutput : Option Enqueued := enqueueInit cfg pktTbl m (sendOutputMulti cfg q orderedContext res)

/-- `em_odp_pkt_enqueue`, `qElem` is what `queue_elem_get` returns; none if `evstate_error` is called -/
def emOdpPktEnqueue (qElem : Option QueueElem) (external : Bool) : Option Enqueued :=
  if pktTbl = [] then some ⟨0,[],[],m⟩
  else match qElem with
    | none => pktEnqueueChainingOut cfg res pktTbl m external
    | some q =>
      if q.scheduled then pktEnqueueScheduled res pktTbl m
      else match q.type with
        | .local => pktEnqueueLocal cfg q res pktTbl m
        | .unscheduled => pktEnqueueUnscheduled cfg res pktTbl m
        | .output => pktEnqueueOutput cfg q orderedContext res pktTbl m
        -- no supported queue type
        | _ => some ⟨0,[],pktTbl,m⟩

end Enqueue

/-- Where a packet is -/
inductive Place (κ : Type) where
  /-- not received yet, or freed -/
  | outside
  /-- in a queue of EM's, put there by `em_odp_pkt_enqueue` if `external` is set -/
  | queued (k : κ) (external : Bool)
  /-- with the user; what has left through an output queue or by event chaining is with the function
  that was given it -/
  | user

/-- Whether it has been received and not freed -/
def Place.held {κ : Type} : Place κ → Nat
  | .outside => 0
  | .queued _ _ | .user => 1

/-- The options and the queues -/
structure Env (κ : Type) where
  cfg : Config
  elem : κ → QueueElem
  scheduled_iff : ∀ k, (elem k).scheduled = true ↔
    (elem k).type = .atomic ∨ (elem k).type = .parallel ∨ (elem k).type = .parallelOrdered

structure State (κ : Type) where
  memory : Memory
  /-- the events in an ODP queue, or of a local queue in its stash -/
  queue : κ → List OdpEvt
  /-- the handle that the user got last -/
  handle : OdpEvt → EvHdl
  place : OdpEvt → Place κ
  /-- ghost: the packets given to `em_odp_pkt_enqueue` so far -/
  given : List OdpEvt
  /-- ghost: what was given to ODP to be freed so far -/
  freed : List OdpEvt

inductive Label (κ : Type) where
  /-- `em_odp_pkt_enqueue`; none is a queue that is not of this EM instance -/
  | pktEnqueue (pktTbl : List OdpEvt) (k : Option κ) (external orderedContext : Bool) (res : Results)
  /-- the dispatcher takes the first event of a scheduled or local queue -/
  | dispatch (k : κ)
  | dequeue (k : κ)
  | send (p : OdpEvt) (k : κ)
  | free (p : OdpEvt)

variable {κ : Type} [DecidableEq κ] (env : Env κ)

namespace Env
variable (k : κ)

/-- Its events are dispatched. -/
def dispatched : Prop := (env.elem k).scheduled = true ∨ (env.elem k).type = .local

/-- Its events are dequeued. -/
def dequeued : Prop := (env.elem k).type = .unscheduled

instance dispatchedDecidable : Decidable (env.dispatched k) := inferInstanceAs (Decidable (_ ∨ _))
instance dequeuedDecidable : Decidable (env.dequeued k) := inferInstanceAs (Decidable (_ = _))

end Env

namespace State
variable (s : State κ)

/-- Where the packets are that `em_odp_pkt_enqueue` has handed over -/
def handedTo : Option κ → Place κ
  | none => .user
  | some k => if env.dispatched k ∨ env.dequeued k then .queued k true else .user

/-- ODP resets the user flag of a packet that it allocates. -/
def odpFree (freed : List OdpEvt) (m : Memory) : Memory :=
  { m with event := fun p => if p ∈ freed then { m.event p with userFlag := false } else m.event p }

/-- The handle of a packet that is among the events -/
def newHandle (events : List EvHdl) (p : OdpEvt) : EvHdl :=
  (events.find? fun event => event.evptr = p).getD (s.handle p)

def pktEnqueued (k : Option κ) (pktTbl : List OdpEvt) (r : Enqueued) : State κ where
  memory := odpFree r.freed r.memory
  queue := fun k' =>
    if k = some k' ∧ (env.dispatched k' ∨ env.dequeued k') then s.queue k' ++ r.handed.map EvHdl.evptr
    else s.queue k'
  handle := s.newHandle r.handed
  place := fun p =>
    if p ∈ r.freed then .outside
    else if p ∈ r.handed.map EvHdl.evptr then handedTo env k
    else s.place p
  given := s.given ++ pktTbl
  freed := s.freed ++ r.freed

def setEvent (p : OdpEvt) (e : OdpEvent) : Memory := { s.memory with event := Function.update s.memory.event p e }

/-- The first event of a queue is given to the user. -/
def receive (k : κ) (p : OdpEvt) (rest : List OdpEvt) (r : EvHdl × OdpEvent) : State κ :=
  { s with
    memory := s.setEvent p r.2
    queue := Function.update s.queue k rest
    handle := Function.update s.handle p r.1
    place := Function.update s.place p .user }

/-- What the callers keep to: packets are given to EM once, and the user sends and frees what it has. -/
def Legal : Label κ → Prop
  | .pktEnqueue pktTbl _ _ _ res => pktTbl.Nodup ∧ res.Within pktTbl.length ∧ ∀ p ∈ pktTbl,
      s.place p = .outside ∧ p ≠ 0 ∧ (s.memory.event p).type = .packet
  | .dispatch k => env.dispatched k ∧ s.queue k ≠ []
  | .dequeue k => env.dequeued k
  | .send p k => s.place p = .user ∧ (env.dispatched k ∨ env.dequeued k)
  | .free p => s.place p = .user

/-- none if `evstate_error` is called -/
def call : Label κ → Option (State κ)
  | .pktEnqueue pktTbl k external orderedContext res =>
    (emOdpPktEnqueue env.cfg orderedContext res pktTbl s.memory (k.map env.elem) external).map
      (s.pktEnqueued env k pktTbl)
  | .dispatch k =>
    match s.queue k with
    | [] => some s
    | p :: rest => (evhdrInitPkt env.cfg ⟨p,0⟩ (s.memory.event p)).map (s.receive k p rest)
  -- `em_queue_dequeue`
  | .dequeue k =>
    match s.queue k with
    | [] => some s
    | p :: rest =>
      if env.cfg.esvEnabled then
        (evstateEm2usr env.cfg ⟨p,0⟩ (s.memory.event p)).map (s.receive k p rest)
      else some (s.receive k p rest (⟨p,0⟩,s.memory.event p))
  -- `em_send` of an event that the queue accepts
  | .send p k =>
    let e := if env.cfg.esvEnabled then evstateUsr2em env.cfg (s.handle p) (s.memory.event p)
      else some (s.memory.event p)
    e.map fun e => { s with
      memory := s.setEvent p e
      queue := Function.update s.queue k (s.queue k ++ [p])
      place := Function.update s.place p (.queued k false) }
  -- `em_free`
  | .free p => (emFree env.cfg (s.handle p) s.memory).map fun r => { s with
      memory := odpFree r.2 r.1
      place := fun p => if p ∈ r.2 then .outside else s.place p
      freed := s.freed ++ r.2 }

end State

end EmOdp.OdpExt
