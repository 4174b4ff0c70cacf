import Mathlib.Data.Fintype.Basic
import EmOdp.Lib.TransitionSystem
import EmOdp.EventGroup.Counter

/-! One request that every core runs a local function of an EO: the requester in
`eo_local_func_call_req`, the cores that handle the requests and the done event. -/
namespace EmOdp.LocalFunc
open Lib EventGroup

def emEventGroupMaxNotif : Nat := 6

/-- Where `eo_local_func_call_req` has returned. -/
inductive Result where
  | noEvent
  | noRetvals
  /-- the core masks do not agree with the core count -/
  | badCoreMap
  /-- `send_core_ctrl_events` has failed -/
  | failed
  | sent
  deriving DecidableEq, Repr

/-- The requester in `eo_local_func_call_req`. -/
inductive Phase where
  | start
  | haveEvent
  | haveRetvals
  /-- `loc_func_retvals` is set up, `send_core_ctrl_events` begins -/
  | ready
  /-- in `internal_done_w_notif_req` -/
  | doneSetup
  | doneAllocated
  | groupCreated
  /-- allocating, then sending the ctrl events -/
  | events
  /-- at `err_free_resources` with loop index `i` -/
  | freeing (i : Nat)
  /-- `send_core_ctrl_events` has failed -/
  | failed
  | eventFreed
  /-- the requester has brought `free_at_zero` to zero -/
  | lastUser
  | returned (result : Result)
  deriving DecidableEq, Repr

/-- One request, by the core that handles it. `egrpGen` is `locm->current.egrp_gen`, none
where `locm->current.egrp_elem` is null. -/
inductive Handler where
  | unsent
  /-- in the core's control queue, with `egrp_gen` in its header -/
  | queued (egrpGen : Gen)
  /-- the local function runs -/
  | running (egrpGen : Option Gen)
  | recorded (egrpGen : Option Gen)
  /-- this core has brought `free_at_zero` to zero -/
  | lastUser (egrpGen : Option Gen)
  | lastChecked (egrpGen : Option Gen)
  /-- `i_event__eo_local_func_call_req` has returned -/
  | handled (egrpGen : Option Gen)
  | eventFreed (egrpGen : Option Gen)
  /-- counted by the event group -/
  | ended
  deriving DecidableEq, Repr

/-- The `EM_INTERNAL_DONE` event. -/
inductive DoneEvent where
  | absent
  /-- a notification of the event group -/
  | held
  | queued
  /-- the done callback runs -/
  | callback
  | retvalsFreed
  | ended
  /-- freed without having been handled -/
  | freed
  deriving DecidableEq, Repr

inductive Party (n : Nat) where
  | requester
  | handler (i : Fin n)
  | doneCallback
  deriving DecidableEq, Repr

/-- An access to `loc_func_retvals`. -/
inductive Access (n : Nat) where
  | use (p : Party n)
  | free (p : Party n)
  deriving DecidableEq, Repr

/-- The cores are one more than the copies of the ctrl event; `events[copies]` is the
ctrl event itself. -/
structure State (copies : Nat) where
  phase : Phase := .start
  numNotif : Nat
  allocCount : Nat := 0
  sentCount : Nat := 0
  freeAtZero : Nat := 0
  counts : EgrpCounter
  doneEvent : DoneEvent := .absent
  handler : Fin (copies + 1) → Handler := fun _ => .unsent
  /-- accesses to `loc_func_retvals` from its allocation on, a ghost -/
  accesses : List (Access (copies + 1)) := []
  /-- calls of `em_free` on `events[i]`, by the requester and by its receiver -/
  freed : Nat → Nat := fun _ => 0
  received : Nat → Nat := fun _ => 0
  /-- calls of the done callback -/
  callbacks : Nat := 0

inductive Label (copies : Nat) where
  | allocEvent (ok : Bool)
  | allocRetvals (ok : Bool)
  /-- whether the core masks agree with the core count -/
  | readCoreMap (ok : Bool)
  | checkNotif
  | allocDone (ok : Bool)
  /-- `em_event_group_create`, with the generation its element had -/
  | createGroup (egrpGen : Option Gen)
  /-- `em_event_group_apply`, which may fail its checks -/
  | applyGroup (ok : Bool)
  | allocCopy (ok : Bool)
  | send (ok : Bool)
  | freeCopy
  | abortDelete
  | freeEvent
  | subUnsent
  | freeRetvals
  | receive (i : Fin (copies + 1))
  /-- the local function polls an event without an event group from a control queue -/
  | poll (i : Fin (copies + 1)) (doneOk : Bool)
  | localReturns (i : Fin (copies + 1)) (ok : Bool)
  | subHandled (i : Fin (copies + 1))
  | lastCheck (i : Fin (copies + 1))
  | lastFree (i : Fin (copies + 1))
  | freeReceived (i : Fin (copies + 1))
  /-- the event group is counted; `doneOk` if it is needed: the done event is sent -/
  | count (i : Fin (copies + 1)) (doneOk : Bool)
  | doneReceive
  | doneFreesRetvals
  | doneEnds
  deriving DecidableEq, Repr

namespace State
variable {copies : Nat} (s : State copies)

/-- `unsent_count` -/
def unsentCount : Nat := copies + 1 - s.sentCount

def access (a : Access (copies + 1)) : State copies := { s with accesses := s.accesses ++ [a] }

def setHandler (i : Fin (copies + 1)) (h : Handler) : State copies :=
  { s with handler := Function.update s.handler i h }

/-- `em_free(events[i])` by the requester -/
def freeEvents (i : Nat) : State copies :=
  { s with freed := Function.update s.freed i (s.freed i + 1) }

/-- `event_group_set_local` -/
def eventGroupSetLocal (egrpGen : Gen) : State copies × Option Gen :=
  match s.counts.preCountDecrement 1 egrpGen with
  | some w => ({ s with counts := w },some egrpGen)
  | none => (s,none)

/-- The counters after `post_count_decrement`, none where it returns early. -/
def decremented (egrpGen : Option Gen) : Option EgrpCounter :=
  egrpGen.bind fun gen => s.counts.postCountDecrement 1 gen

/-- `event_group_count_decrement`; the notification is freed where its send fails. -/
def countDecrement (egrpGen : Option Gen) (doneOk : Bool) : State copies :=
  match s.decremented egrpGen with
  | none => s
  | some w =>
    if w.postCnt = 0 then
      { s with counts := w, doneEvent := if doneOk then .queued else .freed }
    else { s with counts := w }

/-- `evgrp_abort_delete` -/
def evgrpAbortDelete : State copies :=
  match s.counts.emEventGroupAbort with
  | some w => { s with counts := w, doneEvent := .freed }
  | none => s

/-- `eo_local_func_call_req` -/
def stepRequester : Label copies → Option (State copies)
  | .allocEvent ok =>
    if s.phase = .start then
      some { s with phase := if ok then .haveEvent else .returned .noEvent }
    else none
  | .allocRetvals ok =>
    if s.phase = .haveEvent then
      some (if ok then { s with phase := .haveRetvals }
        else { s.freeEvents copies with phase := .returned .noRetvals })
    else none
  | .readCoreMap ok =>
    if s.phase = .haveRetvals then
      -- all cores and the done event
      some (if ok then { s with phase := .ready, freeAtZero := copies + 1 + 1 }
        else { (s.freeEvents copies).access (.free .requester) with phase := .returned .badCoreMap })
    else none
  | .checkNotif =>
    if s.phase = .ready then
      some { s with phase := if s.numNotif > emEventGroupMaxNotif then .failed else .doneSetup }
    else none
  | .allocDone ok =>
    if s.phase = .doneSetup then
      some (if ok then { s with phase := .doneAllocated, doneEvent := .held }
        else { s with phase := .failed })
    else none
  | .createGroup egrpGen =>
    if s.phase = .doneAllocated then
      match egrpGen with
      | some gen => some { s with
          phase := .groupCreated
          counts := { preCnt := 0, postCnt := 0, applied := false, gen } }
      | none => some { s with phase := .failed, doneEvent := .freed }
    else none
  | .applyGroup ok =>
    if s.phase = .groupCreated then
      if ok ∧ copies + 1 ≤ egrpCntMax then
        (s.counts.emEventGroupApply (copies + 1)).map fun w =>
          { s with phase := .events, counts := w }
      else some { s with phase := .failed, doneEvent := .freed }
    else none
  | .allocCopy ok =>
    if s.phase = .events ∧ s.allocCount < copies then
      some (if ok then { s with allocCount := s.allocCount + 1 }
        else { s with phase := .freeing s.sentCount })
    else none
  | .send ok =>
    if s.phase = .events ∧ s.allocCount = copies then
      if h : s.sentCount < copies + 1 then
        some (if ok then
          { s.setHandler ⟨s.sentCount,h⟩ (.queued s.counts.gen) with
            sentCount := s.sentCount + 1
            phase := if s.sentCount = copies then .returned .sent else .events }
        else { s with phase := .freeing s.sentCount })
      else none
    else none
  | .freeCopy =>
    match s.phase with
    | .freeing i =>
      if i < s.allocCount then some { s.freeEvents i with phase := .freeing (i+1) } else none
    | _ => none
  | .abortDelete =>
    match s.phase with
    | .freeing i =>
      if i < s.allocCount then none else some { s.evgrpAbortDelete with phase := .failed }
    | _ => none
  | .freeEvent =>
    if s.phase = .failed then some { s.freeEvents copies with phase := .eventFreed } else none
  | .subUnsent =>
    if s.phase = .eventFreed then
      some { s.access (.use .requester) with
        freeAtZero := s.freeAtZero - (s.unsentCount + 1)
        phase := if s.freeAtZero = s.unsentCount + 1 then .lastUser else .returned .failed }
    else none
  | .freeRetvals =>
    if s.phase = .lastUser then
      some { s.access (.free .requester) with phase := .returned .failed }
    else none
  | _ => none

/-- `handle_ctrl_events` on a core that has received its request -/
def stepHandler (i : Fin (copies + 1)) : Handler → Label copies → Option (State copies)
  | .queued gen, .receive _ =>
    some ((s.eventGroupSetLocal gen).1.setHandler i (.running (s.eventGroupSetLocal gen).2))
  -- the polled event sets no event group, and the one of the request is counted after it
  | .running egrpGen, .poll _ doneOk => some (s.countDecrement egrpGen doneOk)
  | .running egrpGen, .localReturns _ ok =>
    some ((if ok then s else s.access (.use (.handler i))).setHandler i (.recorded egrpGen))
  | .recorded egrpGen, .subHandled _ =>
    some { (s.access (.use (.handler i))).setHandler i
        (if s.freeAtZero = 1 then .lastUser egrpGen else .handled egrpGen) with
      freeAtZero := s.freeAtZero - 1 }
  | .lastUser egrpGen, .lastCheck _ =>
    some ((s.access (.use (.handler i))).setHandler i (.lastChecked egrpGen))
  | .lastChecked egrpGen, .lastFree _ =>
    some ((s.access (.free (.handler i))).setHandler i (.handled egrpGen))
  | .handled egrpGen, .freeReceived _ =>
    some { s.setHandler i (.eventFreed egrpGen) with
      received := Function.update s.received i (s.received i + 1) }
  | .eventFreed egrpGen, .count _ doneOk =>
    some ((s.countDecrement egrpGen doneOk).setHandler i .ended)
  | _, _ => none

/-- `i_event__internal_done` -/
def stepDone : Label copies → Option (State copies)
  | .doneReceive =>
    if s.doneEvent = .queued then
      some { s.access (.use .doneCallback) with
        doneEvent := .callback, callbacks := s.callbacks + 1 }
    else none
  | .doneFreesRetvals =>
    if s.doneEvent = .callback then
      some { s.access (.free .doneCallback) with doneEvent := .retvalsFreed }
    else none
  | .doneEnds =>
    if s.doneEvent = .retvalsFreed then some { s with doneEvent := .ended } else none
  | _ => none

def step (l : Label copies) : Option (State copies) :=
  match l with
  | .receive i | .poll i _ | .localReturns i _ | .subHandled i | .lastCheck i | .lastFree i
  | .freeReceived i | .count i _ => s.stepHandler i (s.handler i) l
  | .doneReceive | .doneFreesRetvals | .doneEnds => s.stepDone l
  | _ => s.stepRequester l

/-- The requester has returned with `result` and no event of the request is left to handle. -/
structure Final (result : Result) : Prop where
  phase : s.phase = .returned result
  handler : ∀ i, s.handler i = .unsent ∨ s.handler i = .ended
  doneEvent : s.doneEvent ≠ .queued ∧ s.doneEvent ≠ .callback ∧ s.doneEvent ≠ .retvalsFreed

end State

/-- Nothing is allocated. The group the request will create may have any counter word. -/
structure Initial {copies : Nat} (s : State copies) : Prop where
  begins : s = { numNotif := s.numNotif, counts := s.counts }

def machine (copies : Nat) : System (State copies) (Label copies) := .ofFn Initial State.step

end EmOdp.LocalFunc
