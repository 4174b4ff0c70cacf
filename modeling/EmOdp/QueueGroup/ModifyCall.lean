import Mathlib.Data.Finset.Card
import EmOdp.QueueGroup.Machine

/-! One call of `queue_group_modify` or `queue_group_modify_sync` with the locks it takes
and every failure of what it calls. -/
namespace EmOdp.QueueGroup

/-- `em_status_t` -/
inductive Status where
  | ok | badArg | badId | badState | notFree | allocFailed | operationFailed | notif
  /-- an error passed through `EM_FATAL` -/
  | fatal (err : Status)
  deriving DecidableEq, Repr

/-- Errors are fatal while `ongoing_delete` is set: nothing would clear it again. -/
def Status.ofDelete (err : Status) (isDelete : Bool) : Status := if isDelete then .fatal err else err

/-- What the call asks of pools, event groups, control queues and ODP. -/
inductive Callee where
  | allocCallbackArgs
  /-- `internal_done_w_notif_req` -/
  | allocDoneEvent | evgrpCreate | evgrpApply
  /-- the `i`-th add or rem event: the first is allocated, the others are its clones -/
  | createEvent (req : Req) (i : Nat)
  /-- `send_ctrl_queue` of the `i`-th add or rem event -/
  | sendEvent (req : Req) (i : Nat)
  | scheduleGroupJoin | scheduleGroupLeave
  | sendNotifs
  deriving DecidableEq, Repr

/-- The control events that one `poll_unsched_ctrl_queue` handles. -/
inductive Polled where
  /-- they include the `EM_INTERNAL_DONE` of this call -/
  | done
  /-- a handler makes another sync-API call, which sets and clears `in_progress` -/
  | syncApi
  | other
  deriving DecidableEq, Repr

structure Env (ι : Type) where
  cores : CoreMap ι
  /-- `em_core_id()` -/
  core : ι
  /-- whether a callee succeeds -/
  succeeds : Callee → Bool
  /-- what the error handler makes of an error -/
  internalError : Status → Status
  polls : List Polled

/-- `queue_group_elem_t` -/
structure Elem (ι : Type) where
  allocated : Bool
  ongoingDelete : Bool
  /-- length of `queue_list`, which is `num_queues` -/
  queues : Nat
  coreMask : Finset ι
  schedGroup : Finset ι

structure Locks where
  /-- `odp_rwlock_read_lock` and `odp_rwlock_read_unlock` of the core map by this call -/
  readLocks : Nat
  readUnlocks : Nat
  /-- the call holds `qgrp_elem->lock` -/
  locked : Bool
  /-- `locm->sync_api.in_progress` -/
  inProgress : Bool

structure Call (ι : Type) extends Elem ι, Locks where
  sent : List (ι × Req)

def Call.start {ι : Type} (elem : Elem ι) (inProgress : Bool) : Call ι :=
  { elem with readLocks := 0, readUnlocks := 0, locked := false, inProgress, sent := [] }

variable {ι : Type} [DecidableEq ι]

/-- `check_qgrp_state` -/
def Elem.checkQgrpState (elem : Elem ι) (isDelete : Bool) : Status :=
  if elem.allocated = false then .badId
  else if elem.ongoingDelete then .badState
  else if isDelete ∧ elem.queues ≠ 0 then .notFree
  else .ok

namespace Call
variable (s : Call ι)

def readLock : Call ι := { s with readLocks := s.readLocks+1 }
def readUnlock : Call ι := { s with readUnlocks := s.readUnlocks+1 }
def lock : Call ι := { s with locked := true }
def unlock : Call ι := { s with locked := false }
def setInProgress (b : Bool) : Call ι := { s with inProgress := b }
def setCoreMask (mask : Finset ι) : Call ι := { s with coreMask := mask }

/-- Contending operations are caught while a delete is ongoing. -/
def catchContending (isDelete : Bool) : Call ι :=
  if isDelete then { s with ongoingDelete := true } else s

def qGrpAddCore (env : Env ι) : Call ι :=
  if env.succeeds .scheduleGroupJoin then { s with schedGroup := insert env.core s.schedGroup }
  else s

def qGrpRemCore (env : Env ι) : Call ι :=
  if env.succeeds .scheduleGroupLeave then { s with schedGroup := s.schedGroup.erase env.core }
  else s

/-- The calling core sends itself no add request, it joins at once. -/
def joinSelf (env : Env ι) (add : Finset ι) : Call ι :=
  if env.core ∈ add then s.qGrpAddCore env else s

def leaveSelf (env : Env ι) (rem : Finset ι) : Call ι :=
  if env.core ∈ rem then s.qGrpRemCore env else s

/-- destroys the schedule group and frees the element -/
def qGrpDeleteDone : Call ι :=
  { s with schedGroup := ∅, ongoingDelete := false, allocated := false }

/-- `q_grp_modify_done` does nothing. -/
def operationDone (isDelete : Bool) : Call ι := if isDelete then s.qGrpDeleteDone else s

/-- `while (locm->sync_api.in_progress) poll_unsched_ctrl_queue();` -/
def pollUntilDone (isDelete : Bool) : List Polled → Option (Call ι)
  | [] => if s.inProgress then none else some s
  | polled :: polls =>
    if s.inProgress then
      match polled with
      -- the done callback takes and releases the group's lock
      | .done => some ((s.lock.operationDone isDelete).unlock.setInProgress false)
      | .syncApi => some (s.setInProgress false)
      | .other => pollUntilDone isDelete polls
    else some s

end Call

namespace Env
variable (env : Env ι)

/-- `create_addrem_events`: the number of events created -/
def createAddremEvents (req : Req) (count : Nat) : Nat :=
  ((List.range count).takeWhile fun i => env.succeeds (.createEvent req i)).length

/-- `send_addrem_events`, from index `evIdx` on -/
def sendAddremEvents (req : Req) : Nat → List ι → Call ι → Bool × Call ι
  | _, [], s => (true,s)
  | evIdx, thr :: thrs, s =>
    if env.succeeds (.sendEvent req evIdx) then
      sendAddremEvents req (evIdx+1) thrs { s with sent := s.sent ++ [(thr,req)] }
    else (false,s)

/-- `send_qgrp_addrem_reqs`; on an error what was allocated is freed again. -/
def sendQgrpAddremReqs (add rem : Finset ι) (s : Call ι) : Status × Call ι :=
  if env.succeeds .allocCallbackArgs = false then (.allocFailed,s)
  else if env.succeeds .allocDoneEvent = false ∨ env.succeeds .evgrpCreate = false ∨
      env.succeeds .evgrpApply = false then (.notFree,s)
  else if env.createAddremEvents .add add.card ≠ add.card then (.operationFailed,s)
  else if env.createAddremEvents .rem rem.card ≠ rem.card then (.operationFailed,s)
  else
    match env.sendAddremEvents .rem 0 (env.cores.toThreads rem) s with
    | (false,s) => (.operationFailed,s)
    | (true,s) =>
      match env.sendAddremEvents .add 0 (env.cores.toThreads add) s with
      | (false,s) => (.operationFailed,s)
      | (true,s) => (.ok,s)

/-- `RETURN_ERROR_IF(err != EM_OK, …)` at the end of a function -/
def returnError (err : Status) : Status := if err = .ok then .ok else env.internalError err

def queueGroupModify (newMask : Finset ι) (isDelete : Bool) (s : Call ι) : Status × Call ι :=
  let s := s.readLock
  -- `queue_group_check_mask`
  if ¬newMask ⊆ env.cores.logicMask then (env.internalError .badArg,s.readUnlock)
  else
    let s := s.lock
    let err := s.checkQgrpState isDelete
    if err ≠ .ok then (env.internalError err,s.unlock.readUnlock)
    else
      let oldMask := s.coreMask
      let s := s.setCoreMask newMask
      let add := addMask oldMask newMask
      let rem := remMask oldMask newMask
      let s := s.joinSelf env add
      let add := add.erase env.core
      if oldMask = newMask ∨ (add = ∅ ∧ rem = ∅) then
        let s := (s.operationDone isDelete).unlock.readUnlock
        (if env.succeeds .sendNotifs then .ok else env.internalError .notif,s)
      else
        let s := (s.catchContending isDelete).unlock
        let (err,s) := env.sendQgrpAddremReqs add rem s
        let s := s.readUnlock
        if err ≠ .ok then (env.internalError (err.ofDelete isDelete),s)
        else (.ok,s)

/-- The label `queue_group_modify_sync_error`, also reached without an error. -/
def queueGroupModifySyncError (err : Status) (s : Call ι) : Status × Call ι :=
  (env.returnError err,s.readUnlock.setInProgress false)

def queueGroupModifySync (newMask : Finset ι) (isDelete : Bool) (s : Call ι) :
    Option (Status × Call ι) :=
  let s := s.readLock
  if ¬newMask ⊆ env.cores.logicMask then some (env.internalError .badArg,s.readUnlock)
  else
    let s := (s.setInProgress true).lock
    let err := s.checkQgrpState isDelete
    if err ≠ .ok then some (env.queueGroupModifySyncError err s.unlock)
    else
      let oldMask := s.coreMask
      let s := s.setCoreMask newMask
      if oldMask = newMask then
        let s := (s.operationDone isDelete).unlock
        some (env.queueGroupModifySyncError .ok s)
      else
        let s := s.catchContending isDelete
        let add := addMask oldMask newMask
        let rem := remMask oldMask newMask
        let s := (s.joinSelf env add).leaveSelf env rem
        let add := add.erase env.core
        let rem := rem.erase env.core
        if add = ∅ ∧ rem = ∅ then
          let s := (s.operationDone isDelete).unlock
          some (env.queueGroupModifySyncError .ok s)
        else
          let (err,s) := env.sendQgrpAddremReqs add rem s.unlock
          let s := s.readUnlock
          if err ≠ .ok then some (env.queueGroupModifySyncError (err.ofDelete isDelete) s)
          else (s.pollUntilDone isDelete env.polls).map (.ok,·)

end Env
end EmOdp.QueueGroup
