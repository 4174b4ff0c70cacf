import EmOdp.Dispatch.Multircv
import Mathlib.Data.Fintype.Basic
import Mathlib.Data.PNat.Notation

/-! The local queues of one core: the stashes with their two levels of emptiness hints, the
sends into them and the loop that dispatches them, whose receive functions send again. -/
namespace EmOdp.LocalQueues
open Lib

variable {prioNum : Nat}

/-- `stash_entry_t`, with the priority that it was stored at -/
structure Entry (prioNum : Nat) where
  qidx : BitVec 16
  evptr : BitVec 48
  /-- ghost -/
  prio : Fin prioNum
  deriving DecidableEq, Repr

structure QElem (prioNum : Nat) extends Dispatch.QElem where
  priority : Fin prioNum

/-- Ghost record of what is done with events. -/
inductive Obs (prioNum : Nat) where
  /-- the stash takes these of a send; none where the send is rejected -/
  | stashed (es : List (Entry prioNum))
  | fetched (prio : Fin prioNum) (es : List (Entry prioNum))
  | dispatched (qidx : BitVec 16) (es : List (Entry prioNum))
  | freed (qidx : BitVec 16) (es : List (Entry prioNum))
  /-- to a caller other than `check_local_queues` -/
  | returned (es : List (Entry prioNum))
  | flushed (es : List (Entry prioNum))
  deriving DecidableEq

/-- A call of `send_local` or `send_local_multi` -/
inductive Send where
  | one (event : BitVec 48) (queue : BitVec 16)
  | multi (events : List (BitVec 48)) (queue : BitVec 16)
  deriving DecidableEq, Repr

/-- The build, and what the rest of the program does next, given what was done so far. -/
structure World (prioNum : Nat) where
  emCheckLevel : Nat
  emQueueLocalMultiMaxBurst : ℕ+
  maxQueueNum : Nat
  queueElem : List (Obs prioNum) → BitVec 16 → QElem prioNum
  evHdr : List (Obs prioNum) → BitVec 48 → Dispatch.EventHdr
  /-- the room that a put finds; negative if it fails -/
  room : List (Obs prioNum) → Fin prioNum → Int
  /-- the objects beyond the first one that a get finds ready -/
  ready : List (Obs prioNum) → Nat
  /-- the sends of the receive function that was just called -/
  sends : List (Obs prioNum) → List Send
  /-- the run is cut off here -/
  cut : List (Obs prioNum) → Bool

/-- The part of `em_locm` that the local queues use -/
structure Locm (prioNum : Nat) where
  empty : Bool
  emptyPrio : Fin prioNum → Bool
  stash : Fin prioNum → List (Entry prioNum)
  localEventCnt : BitVec 64
  log : List (Obs prioNum)

/-- `queue_init_local` -/
def queueInitLocal : Locm prioNum where
  empty := true
  emptyPrio _ := true
  stash _ := []
  localEventCnt := 0
  log := []

def Locm.note (s : Locm prioNum) (obs : Obs prioNum) : Locm prioNum :=
  { s with log := s.log ++ [obs] }

inductive Status where
  | ok | badState | libFailed
  deriving DecidableEq, Repr

section Model
variable (w : World prioNum)

/-- `odp_stash_put_u64` -/
def stashPut (prio : Fin prioNum) (entryTbl : List (Entry prioNum)) (s : Locm prioNum) :
    Int × Locm prioNum :=
  let ret := min (w.room s.log prio) entryTbl.length
  let taken := entryTbl.take ret.toNat
  (ret,{ s with
    stash := Function.update s.stash prio (s.stash prio ++ taken)
    log := s.log ++ [.stashed taken] })

/-- `odp_stash_get_u64`, from a FIFO stash with a single user -/
def stashGet (prio : Fin prioNum) (num : Nat) (s : Locm prioNum) :
    List (Entry prioNum) × Locm prioNum :=
  let num := min num (w.ready s.log + 1)
  ((s.stash prio).take num,{ s with
    stash := Function.update s.stash prio ((s.stash prio).drop num) })

def Locm.notEmpty (s : Locm prioNum) (prio : Fin prioNum) : Locm prioNum :=
  { s with empty := false, emptyPrio := Function.update s.emptyPrio prio false }

/-- `send_local` -/
def sendLocal (event : BitVec 48) (queue : BitVec 16) (s : Locm prioNum) : Status × Locm prioNum :=
  let q := w.queueElem s.log queue
  if 0 < w.emCheckLevel && !q.ready then (.badState,s.note (.stashed []))
  else
    let (ret,s) := stashPut w q.priority [⟨queue,event,q.priority⟩] s
    if ret = 1 then (.ok,s.notEmpty q.priority) else (.libFailed,s)

/-- `send_local_multi` -/
def sendLocalMulti (events : List (BitVec 48)) (queue : BitVec 16) (s : Locm prioNum) :
    Int × Locm prioNum :=
  let q := w.queueElem s.log queue
  if 0 < w.emCheckLevel && !q.ready then (0,s.note (.stashed []))
  else
    let entryTbl := events.map fun event => ⟨queue,event,q.priority⟩
    let (ret,s) := stashPut w q.priority entryTbl s
    if 0 < ret then (ret,s.notEmpty q.priority) else (0,s)

def Send.run (req : Send) (s : Locm prioNum) : Locm prioNum :=
  match req with
  | .one event queue => (sendLocal w event queue s).2
  | .multi events queue => (sendLocalMulti w events queue s).2

/-- The priorities of the list, tried one after the other -/
def nextPrio (numEvents : Nat) :
    List (Fin prioNum) → Locm prioNum → List (Entry prioNum) × Locm prioNum
  | [], s => ([],{ s with empty := true })
  | prio :: lower, s =>
    if s.emptyPrio prio then nextPrio numEvents lower s
    else
      let (got,t) := stashGet w prio numEvents s
      if got ≠ [] then (got,t.note (.fetched prio got))
      else nextPrio numEvents lower { t with emptyPrio := Function.update t.emptyPrio prio true }

/-- `next_local_queue_events` -/
def nextLocalQueueEvents (numEvents : Nat) (s : Locm prioNum) :
    List (Entry prioNum) × Locm prioNum :=
  if s.empty then ([],s) else nextPrio w numEvents (List.finRange prioNum).reverse s

def pause (s : Locm prioNum) : BoundedRun (Locm prioNum) (Locm prioNum) :=
  if w.cut s.log then .error s else .ok s

/-- `call_eo_rcv_fn` and `call_eo_multircv_fn`: the receive function gets `es` and sends. -/
def receive (qidx : BitVec 16) (es : List (Entry prioNum)) (s : Locm prioNum) :
    BoundedRun (Locm prioNum) (Locm prioNum) := do
  let s ← pause w (s.note (.dispatched qidx es))
  (w.sends s.log).foldlM (fun s req => pause w (req.run w s)) s

/-- `queue_elem_get`, of a queue that is ready -/
def readyElem (log : List (Obs prioNum)) (qidx : BitVec 16) : Option (QElem prioNum) :=
  if qidx.toNat < w.maxQueueNum ∧ (w.queueElem log qidx).ready then some (w.queueElem log qidx)
  else none

variable (fuel : Nat)

/-- `dispatch_eo_multircv_burst` without a check of the local queues -/
def dispatchEoMultircvBurst (q : QElem prioNum) (qidx : BitVec 16) (evTbl : List (Entry prioNum))
    (s : Locm prioNum) : BoundedRun (Locm prioNum) (Locm prioNum) :=
  let call j num s := receive w qidx ((evTbl.drop j).take num) s
  let evHdrTbl := evTbl.map fun entry => w.evHdr s.log entry.evptr
  Dispatch.Multircv.egrpLoop call call evHdrTbl q.maxEvents.toNat fuel fuel 0 s

/-- `dispatch_eo_rcv_burst` without a check of the local queues -/
def dispatchEoRcvBurst (qidx : BitVec 16) (evTbl : List (Entry prioNum)) (s : Locm prioNum) :
    BoundedRun (Locm prioNum) (Locm prioNum) :=
  evTbl.foldlM (fun s entry => receive w qidx [entry] s) s

/-- `dispatch_local_single` -/
def dispatchLocalSingle (entry : Entry prioNum) (s : Locm prioNum) :
    BoundedRun (Locm prioNum) (Locm prioNum) :=
  match readyElem w s.log entry.qidx with
  | none => .ok (s.note (.freed entry.qidx [entry]))
  | some _ => receive w entry.qidx [entry] s

/-- The events to the same local queue -/
def dispatchLocalRun (run : List (Entry prioNum)) (s : Locm prioNum) :
    BoundedRun (Locm prioNum) (Locm prioNum) :=
  match run with
  | [] => .ok s
  | entry :: _ =>
    match readyElem w s.log entry.qidx with
    | none => .ok (s.note (.freed entry.qidx run))
    | some q =>
      if q.useMultiRcv then dispatchEoMultircvBurst w fuel q entry.qidx run s
      else dispatchEoRcvBurst w entry.qidx run s

/-- `dispatch_local_burst` -/
def dispatchLocalBurst (entryTbl : List (Entry prioNum)) (s : Locm prioNum) :
    BoundedRun (Locm prioNum) (Locm prioNum) :=
  forSegments (fun e e' => e'.qidx = e.qidx) (dispatchLocalRun w fuel) entryTbl 0 s

/-- `dispatch_local_queues` -/
def dispatchLocalQueues (entryTbl : List (Entry prioNum)) (s : Locm prioNum) :
    BoundedRun (Locm prioNum) (Locm prioNum) :=
  match entryTbl with
  | [entry] => dispatchLocalSingle w entry s
  | _ => dispatchLocalBurst w fuel entryTbl s

def checkLoop : Nat → Locm prioNum → BoundedRun (Locm prioNum) (Locm prioNum)
  | 0, s => .error s
  | k+1, s =>
    match nextLocalQueueEvents w w.emQueueLocalMultiMaxBurst s with
    | ([],s) => .ok s
    | (entry :: rest,s) => do
      let num := BitVec.ofNat 64 (rest.length+1)
      let s ← dispatchLocalQueues w fuel (entry :: rest)
        { s with localEventCnt := s.localEventCnt+num }
      checkLoop k s

/-- `check_local_queues` -/
def checkLocalQueues (s : Locm prioNum) : BoundedRun (Locm prioNum) (Locm prioNum) :=
  if s.empty then .ok s else checkLoop w fuel fuel s

/-- The flush of `queue_term_local` -/
def queueTermLocal : Nat → Locm prioNum → BoundedRun (Locm prioNum) (Locm prioNum)
  | 0, s => .error s
  | k+1, s =>
    match nextLocalQueueEvents w w.emQueueLocalMultiMaxBurst s with
    | ([],s) => .ok s
    | (es,s) => queueTermLocal k (s.note (.flushed es))

/-- What the core calls; each fetch asks for an event at least. -/
inductive Op where
  | send (req : Send)
  | next (numEvents : ℕ+)
  | check
  deriving DecidableEq

def Op.run (op : Op) (s : Locm prioNum) : BoundedRun (Locm prioNum) (Locm prioNum) :=
  match op with
  | .send req => .ok (req.run w s)
  | .next numEvents =>
    let (es,s) := nextLocalQueueEvents w numEvents s
    .ok (s.note (.returned es))
  | .check => checkLocalQueues w fuel s

def runOps (ops : List Op) (s : Locm prioNum) : BoundedRun (Locm prioNum) (Locm prioNum) :=
  ops.foldlM (fun s op => op.run w fuel s) s

end Model
end EmOdp.LocalQueues
