import Mathlib.Data.Finset.Basic
import Mathlib.Data.Fintype.Basic
import EmOdp.Lib.TransitionSystem

/-! The start of one EO: the global start function, the local start functions that cores
run on request, the done callback and the events that the start functions have sent. -/
namespace EmOdp.EoStart
open Lib

/-- `em_eo_state_t` -/
inductive EoState where
  | undef | created | starting | running | stopping | error
  deriving DecidableEq, Repr

/-- The states from which an API of the EO's life cycle is accepted. -/
def EoState.acceptsStart (eo : EoState) : Bool := eo matches .created
def EoState.acceptsStop (eo : EoState) : Bool := eo matches .running
def EoState.acceptsDelete (eo : EoState) : Bool := eo matches .created | .error

/-- An event in the EO's stash with the event group and generation in its header. -/
structure Entry where
  event : Nat
  queue : Nat
  egrp : Option Nat
  gen : Nat
  deriving DecidableEq, Repr

/-- How far `em_eo_start` or `em_eo_start_sync`, and the flush after it, have come. -/
inductive Phase where
  | idle
  /-- in the global start function -/
  | globalStart
  | globalDone
  /-- all requests for the local start functions are sent -/
  | waiting
  /-- in `eo_start_send_buffered_events`; notifications are still to be sent -/
  | flushing (notify : Bool)
  | notifying
  | ended
  deriving DecidableEq, Repr

structure State (ι : Type) where
  eo : EoState
  phase : Phase
  sync : Bool
  /-- the events of `eo_elem->stash`, none for `ODP_STASH_INVALID` -/
  stash : Option (List Entry)
  /-- events taken from the stash that are still to be sent -/
  burst : List Entry
  /-- the generation of each event group -/
  gens : Nat → Nat
  /-- cores with a request in their control queue, and those in the local start function -/
  requested : Finset ι
  localStart : Finset ι
  /-- `loc_func_retvals`: the cores whose local start function failed -/
  localFailed : Finset ι
  /-- the event group counts the requests -/
  counted : Bool
  /-- the done event is sent and not yet handled -/
  doneEvent : Bool
  /-- `locm->sync_api.in_progress` of the calling core -/
  inProgress : Bool
  /-- the global start function, the local ones and `queue_enable_all` have succeeded -/
  globalOk : Bool
  enableOk : Bool
  /-- the events accepted by `eo_start_buffer_events`, and what became of them -/
  accepted : List Entry
  sent : List Entry
  freed : List Entry
  /-- events that the flush has put into another EO's stash -/
  diverted : List Entry

inductive Label (ι : Type) where
  | create
  /-- the start is accepted; the stash is created or not -/
  | start (sync stashOk : Bool)
  /-- a start function sends events to scheduled queues -/
  | buffer (events : List Entry)
  /-- the global start function's status, after the error handler -/
  | globalReturns (ok : Bool)
  /-- requests are sent to all cores, or to some before a failure -/
  | requestAll (cores : Finset ι)
  | requestFails (cores : Finset ι)
  /-- there is no local start function or no core: `queue_enable_all` -/
  | enable (ok : Bool)
  | localBegins (c : ι)
  | localReturns (c : ι) (ok : Bool)
  /-- `eo_start_done_callback` or `eo_start_sync_done_callback` -/
  | doneCallback (enableOk : Bool)
  /-- a handler run by the calling core's poll has made another sync-API call -/
  | syncApi
  /-- the calling core's poll ends -/
  | pollEnds
  | getBurst (num : Nat)
  /-- the next batch of a burst; the core that sends may be in another EO's start function -/
  | sendBatch (numSent : Nat) (nested : Bool)
  | destroyStash
  | notify (ok : Bool)
  /-- an event group is applied again, after its completion or its abort -/
  | applyGroup (egrp : Nat)
  /-- `em_eo_stop` or `em_eo_stop_sync` from call to completion -/
  | stop

/-- The next events for one queue with one event group. -/
def batch : List Entry → List Entry
  | [] => []
  | entry :: entries =>
    entry :: entries.takeWhile fun e => e.queue = entry.queue ∧ e.egrp = entry.egrp

variable {ι : Type} [DecidableEq ι]

namespace State
variable (s : State ι)

/-- The generation that `em_send_group_multi` stores in the header. -/
def retag (entry : Entry) : Entry :=
  match entry.egrp with
  | none => entry
  | some g => { entry with gen := s.gens g }

/-- A start function is running, and the lock of the EO is not taken by the flush. -/
def buffers : Bool :=
  match s.phase with
  | .globalStart => true
  | .flushing _ => false
  | _ => decide (s.localStart ≠ ∅)

/-- All requests, and the done event that follows the last one, are handled. -/
def Handled : Prop := s.requested = ∅ ∧ s.localStart = ∅ ∧ s.doneEvent = false

instance : Decidable s.Handled := inferInstanceAs (Decidable (_ ∧ _ ∧ _))

/-- The start operation has ended on every core. -/
def Ended : Prop := s.phase = .ended ∧ s.Handled

instance : Decidable s.Ended := inferInstanceAs (Decidable (_ ∧ _))

/-- The state of a new start operation. -/
def begin (sync stashOk : Bool) : State ι :=
  { s with
    eo := if stashOk then .starting else .error
    phase := if stashOk then .globalStart else .ended
    sync
    stash := if stashOk then some [] else none
    burst := []
    localFailed := ∅
    counted := false
    inProgress := false
    globalOk := false
    enableOk := false
    accepted := []
    sent := []
    freed := []
    diverted := [] }

/-- `check_eo_local_status` and `queue_enable_all` in the done callback -/
def completeLocals (enableOk : Bool) : State ι :=
  if s.localFailed = ∅ ∧ enableOk then { s with eo := .running, enableOk := true } else s

/-- The done callback lets a sync call go on, or sends the buffered events itself. -/
def endCallback : State ι :=
  if s.sync then { s with doneEvent := false, inProgress := false }
  else { s with doneEvent := false, phase := .flushing false }

def step : Label ι → Option (State ι)
  | .create => if s.eo = .undef then some { s with eo := .created } else none
  | .start sync stashOk =>
    if s.phase = .idle ∧ s.eo.acceptsStart then some (s.begin sync stashOk) else none
  | .buffer events =>
    match s.stash with
    | none => none
    | some stash =>
      -- the headers were tagged just before
      if s.buffers ∧ ∀ entry ∈ events, s.retag entry = entry then
        some { s with stash := some (stash ++ events), accepted := s.accepted ++ events }
      else none
  | .globalReturns ok =>
    if s.phase = .globalStart then
      some (if ok then { s with phase := .globalDone, globalOk := true }
        else { s with phase := .ended, eo := .error })
    else none
  | .requestAll cores =>
    if s.phase = .globalDone ∧ cores ≠ ∅ then
      some { s with
        phase := .waiting, requested := cores, counted := true, inProgress := s.sync }
    else none
  | .requestFails cores =>
    if s.phase = .globalDone then
      some { s with phase := .ended, eo := .error, requested := cores }
    else none
  | .enable ok =>
    if s.phase = .globalDone then
      some (if ok then { s with phase := .flushing !s.sync, eo := .running, enableOk := true }
        else { s with phase := .ended, eo := .error })
    else none
  | .localBegins c =>
    if c ∈ s.requested then
      some { s with requested := s.requested.erase c, localStart := insert c s.localStart }
    else none
  | .localReturns c ok =>
    if c ∈ s.localStart then
      let localStart := s.localStart.erase c
      some { s with
        localStart
        localFailed := if ok then s.localFailed else insert c s.localFailed
        doneEvent := s.counted && decide (s.requested = ∅) && decide (localStart = ∅) }
    else none
  | .doneCallback ok => if s.doneEvent then some (s.completeLocals ok).endCallback else none
  | .syncApi => if s.phase = .waiting ∧ s.sync then some { s with inProgress := false } else none
  | .pollEnds =>
    if s.phase = .waiting ∧ s.sync ∧ s.inProgress = false then
      some { s with phase := .flushing false }
    else none
  | .getBurst num =>
    match s.phase, s.stash, s.burst with
    | .flushing _, some stash, [] =>
      if 0 < num ∧ num ≤ 32 ∧ num ≤ stash.length then
        some { s with stash := some (stash.drop num), burst := stash.take num }
      else none
    | _, _, _ => none
  | .sendBatch numSent nested =>
    match s.phase, s.burst with
    | .flushing _, entry :: entries =>
      let events := batch (entry :: entries)
      if numSent ≤ events.length then
        let out := (events.take numSent).map s.retag
        some { s with
          burst := (entry :: entries).drop events.length
          sent := if nested then s.sent else s.sent ++ out
          diverted := if nested then s.diverted ++ out else s.diverted
          freed := s.freed ++ events.drop numSent }
      else none
    | _, _ => none
  | .destroyStash =>
    match s.phase, s.stash, s.burst with
    | .flushing notify, some [], [] =>
      some { s with phase := if notify then .notifying else .ended, stash := none }
    | _, _, _ => none
  | .notify ok =>
    if s.phase = .notifying then
      some { s with phase := .ended, eo := if ok then s.eo else .error }
    else none
  | .applyGroup g => some { s with gens := Function.update s.gens g (s.gens g+1) }
  | .stop =>
    if s.eo.acceptsStop ∧ s.Ended then some { s with phase := .idle, eo := .created } else none

end State

/-- The EO has not been created. -/
structure Initial (s : State ι) : Prop where
  eo : s.eo = .undef
  phase : s.phase = .idle
  handled : s.Handled

def machine : System (State ι) (Label ι) := .ofFn Initial State.step

end EmOdp.EoStart
