import EmOdp.Lib.BoundedRun

/-! Dispatching one burst of events: how the burst is cut into EO-receive calls and
what happens to `locm->event_burst_cnt`. A loop is cut off after `fuel` iterations. -/
namespace EmOdp.Dispatch
open Lib

def emEventGroupUndef : Nat := 0

structure EventHdr where
  egrp : Nat
  egrpGen : Nat
  deriving DecidableEq, Repr

/-- `stash_entry_t`: an event and the index of its queue. -/
structure StashEntry where
  qidx : Nat
  hdr : EventHdr
  deriving DecidableEq, Repr

structure QElem where
  useMultiRcv : Bool
  maxEvents : BitVec 16
  ready : Bool
  deriving DecidableEq, Repr

/-- Ghost record of one call of `call_eo_rcv_fn` or `call_eo_multircv_fn`. Events of the
burst count as passed from the call on, also those its enter-callbacks free. -/
structure Call where
  noCb : Bool
  checkLocalQs : Bool
  numEvents : Nat
  eventBurstCnt : Int
  /-- events of the burst neither passed by an earlier call nor by this one -/
  left : Nat
  deriving DecidableEq, Repr

structure Locm where
  eventBurstCnt : Int
  left : Nat
  /-- what the next calls of `check_local_queues` dequeue -/
  localQueues : List (List (List StashEntry)) := []
  calls : List Call := []
  deriving DecidableEq, Repr

structure Shm where
  queueElem : Nat → QElem
  callbacksRegistered : Bool

/-- What a dispatch function does with a full batch and with a trailing partial batch;
its `check_local_qs` argument decides. -/
structure Branch where
  full : Nat → Locm → BoundedRun Locm Locm
  trailing : Nat → Locm → BoundedRun Locm Locm

def sameEvgroup (first hdr : EventHdr) : Bool :=
  if first.egrp = emEventGroupUndef then hdr.egrp = emEventGroupUndef
  else first.egrp = hdr.egrp && first.egrpGen = hdr.egrpGen

/-- The batches of the events up to `egrp_end`, of which `rest` remain. -/
def dispatchEvgroup (b : Branch) (num : Nat) : Nat → Nat → Locm → BoundedRun Locm Locm
  | 0, _, s => .error s
  | fuel+1, rest, s =>
    if num ≤ rest then do
      let s ← b.full num s
      dispatchEvgroup b num fuel (rest-num) s
    else if 0 < rest then b.trailing rest s
    else .ok s

def dispatchEoMultircvBurst (b : Branch) (fuel : Nat) (q : QElem) (evTbl : List EventHdr)
    (s : Locm) : BoundedRun Locm Locm :=
  forSegments sameEvgroup
    (fun group => dispatchEvgroup b (min group.length q.maxEvents.toNat) fuel group.length)
    evTbl 0 s

def dispatchEoRcvBurst (b : Branch) (evTbl : List EventHdr) (s : Locm) : BoundedRun Locm Locm :=
  evTbl.foldlM (fun s _ => b.full 1 s) s

/-- `dispatch_eo_multircv_single` and `dispatch_eo_rcv_single` -/
def dispatchEoSingle (b : Branch) (s : Locm) : BoundedRun Locm Locm := b.full 1 s

section LocalQueues
variable (shm : Shm) (fuel : Nat)

def callLocal (num : Nat) (s : Locm) : BoundedRun Locm Locm :=
  .ok { s with calls := ⟨!shm.callbacksRegistered,false,num,s.eventBurstCnt,s.left⟩ :: s.calls }

def unchecked : Branch := ⟨callLocal shm,callLocal shm⟩

def dispatchLocalSingle (entry : StashEntry) (s : Locm) : BoundedRun Locm Locm :=
  if !(shm.queueElem entry.qidx).ready then .ok s else dispatchEoSingle (unchecked shm) s

def dispatchLocalBatch (batch : List StashEntry) (s : Locm) : BoundedRun Locm Locm :=
  match batch with
  | [] => .ok s
  | entry :: _ =>
    let q := shm.queueElem entry.qidx
    if !q.ready then .ok s
    else if q.useMultiRcv then
      dispatchEoMultircvBurst (unchecked shm) fuel q (batch.map (·.hdr)) s
    else dispatchEoRcvBurst (unchecked shm) (batch.map (·.hdr)) s

def dispatchLocalQueues (s : Locm) (entryTbl : List StashEntry) : BoundedRun Locm Locm :=
  match entryTbl with
  | [entry] => dispatchLocalSingle shm entry s
  | _ => forSegments (fun e e' => e'.qidx = e.qidx) (dispatchLocalBatch shm fuel) entryTbl 0 s

def checkLocalQueues (s : Locm) : BoundedRun Locm Locm :=
  match s.localQueues with
  | [] => .ok s
  | found :: later => found.foldlM (dispatchLocalQueues shm fuel) { s with localQueues := later }

end LocalQueues

section Burst
variable (shm : Shm) (fuel : Nat)

/-- A receive call for `num` events of the burst, then the local queues. -/
def callBurst (num : Nat) (s : Locm) : BoundedRun Locm Locm :=
  let left := s.left-num
  checkLocalQueues shm fuel { s with
    left := left
    calls := ⟨!shm.callbacksRegistered,true,num,s.eventBurstCnt,left⟩ :: s.calls }

def checked : Branch where
  full num s := callBurst shm fuel num { s with eventBurstCnt := s.eventBurstCnt-num }
  trailing num s := callBurst shm fuel num { s with eventBurstCnt := 0 }

def dispatchEvents (q : QElem) (evTbl : List EventHdr) (s : Locm) : BoundedRun Locm Locm :=
  if evTbl.length = 1 then dispatchEoSingle (checked shm fuel) s
  else if q.useMultiRcv then dispatchEoMultircvBurst (checked shm fuel) fuel q evTbl s
  else dispatchEoRcvBurst (checked shm fuel) evTbl s

def dispatchBatch (batch : List StashEntry) (s : Locm) : BoundedRun Locm Locm :=
  match batch with
  | [] => .ok s
  | entry :: _ =>
    dispatchEvents shm fuel (shm.queueElem entry.qidx) (batch.map (·.hdr)) s

/-- A burst as `dispatch_round` or `ag_dispatch_batches` gets it. -/
inductive Burst where
  | scheduled (q : QElem) (evTbl : List EventHdr)
  | agDequeued (entryTbl : List StashEntry)
  deriving Repr

def Burst.size : Burst → Nat
  | .scheduled _ evTbl => evTbl.length
  | .agDequeued entryTbl => entryTbl.length

/-- `event_burst_cnt` is set to the size of the burst, which is then dispatched. -/
def Burst.dispatch (burst : Burst) (localQueues : List (List (List StashEntry))) :
    BoundedRun Locm Locm :=
  let s : Locm := { eventBurstCnt := burst.size, left := burst.size, localQueues }
  match burst with
  | .scheduled q evTbl => dispatchEvents shm fuel q evTbl s
  | .agDequeued entryTbl =>
    forSegments (fun e e' => e'.qidx = e.qidx) (dispatchBatch shm fuel) entryTbl 0 s

end Burst
end EmOdp.Dispatch
