import Mathlib
import EmOdp.Timer.Periodic

/-! One timeout and the calls on it, one after the other, with every answer of ODP. -/
namespace EmOdp.Timer
open Lib

/-- `em_event_type_t`: the major types that the calls on a timeout tell apart. -/
inductive EventType where
  | sw | packet | timer | timerInd | odp | other
deriving DecidableEq, Repr

/-- `em_tmo_type_t` -/
inductive TmoType where
  | none | oneshot | periodic
deriving DecidableEq, Repr

/-- Who has an event in the event's state. -/
inductive Owner where
  | user | em
deriving DecidableEq, Repr

/-- `event_hdr_t`: the fields that the calls on a timeout use. -/
structure EventHdr where
  eventType : EventType
  tmoType : TmoType
  tmo : Bool
  owner : Owner
deriving DecidableEq, Repr

/-- `EM_CHECK_LEVEL`, `PRE_1_50_ODP_TIMER_API` and `esv_enabled()`. -/
structure TmoConfig where
  checkLevel : Nat
  pre150 : Bool
  esvEnabled : Bool

/-- What an ODP timer is armed with: the event of a timeout, or the timeout event of a ring. -/
inductive Armed (ε : Type) where
  | event (e : ε)
  | ring
deriving DecidableEq

/-- `em_timer_timeout_t` with its ODP timer and the headers of the events. Handles are
only told apart from the invalid one. -/
structure Tmo (ε : Type) where
  state : TmoState
  period : BitVec 64
  lastTick : BitVec 64
  periodic : Bool
  noskip : Bool
  isRing : Bool
  ringFreq : Bool
  odpTimer : Bool
  odpBuffer : Bool
  odpTimeout : Bool
  multiplier : BitVec 64
  freqHz : FractU64
  armed : Option (Armed ε)
  hdr : ε → EventHdr

/-- What ODP answers while a ring timeout is set. -/
structure RingAnswer where
  timeoutAlloc : Bool := true
  queueAllocated : Bool := true
  timerAlloc : Bool := true
  ret : OdpRet

namespace Tmo
variable {ε : Type} [DecidableEq ε]

def setHdr (t : Tmo ε) (e : ε) (f : EventHdr → EventHdr) : Tmo ε :=
  { t with hdr := Function.update t.hdr e (f (t.hdr e)) }

/-- `evstate_usr2em` -/
def usr2em (cfg : TmoConfig) (t : Tmo ε) (e : ε) : Tmo ε :=
  if cfg.esvEnabled then t.setHdr e fun h => { h with owner := .em } else t

/-- `evstate_usr2em_revert`, and `evstate_em2usr` of an event that comes back. -/
def em2usr (cfg : TmoConfig) (t : Tmo ε) (e : ε) : Tmo ε :=
  if cfg.esvEnabled then t.setHdr e fun h => { h with owner := .user } else t

/-- The header of an event that is not a timeout event any more. -/
def resetHdr (t : Tmo ε) (e : ε) : Tmo ε :=
  t.setHdr e fun h => { h with tmoType := .none, tmo := false }

/-- The armed event is sent and received. -/
def expire (cfg : TmoConfig) (t : Tmo ε) : Tmo ε :=
  match t.armed with
  | some (.event e) => { t with armed := none }.em2usr cfg e
  | _ => t

/-- The checks of the type of the event that a timeout is set with; `is_event_type_valid` -/
def setEventCheck (cfg : TmoConfig) (t : Tmo ε) (e : ε) : Option Status :=
  let type := (t.hdr e).eventType
  if 2 < cfg.checkLevel ∧ type ≠ .packet ∧ type ≠ .sw ∧ type ≠ .timer then some .badArg
  else if 0 < cfg.checkLevel ∧ type = .timerInd then some .badArg
  else none

/-- The arming of a timeout with an event: `EM_TMO_STATE_ACTIVE` is stored first. -/
def start (cfg : TmoConfig) (t : Tmo ε) (e : ε) (type : TmoType) (ret : OdpRet) : Tmo ε × Status :=
  let t := { t.setHdr e fun h => { h with tmoType := type, tmo := true } with state := .active }
  if ret = .success then ({ t with armed := some (.event e) },.ok)
  else ({ t.resetHdr e with state := .idle }.em2usr cfg e,timerRvOdp2em cfg.pre150 ret)

/-- The argument and state checks of `em_tmo_set_abs`. -/
def setAbsCheck (cfg : TmoConfig) (t : Tmo ε) (ev : Option ε) : Option Status :=
  if 0 < cfg.checkLevel ∧ ev = none then some .badArg
  else if 1 < cfg.checkLevel ∧ t.odpBuffer = false then some .badId
  else if 0 < cfg.checkLevel ∧ t.periodic = true then some .badContext
  else if 1 < cfg.checkLevel ∧ t.state = .unknown then some .badState
  else if 2 < cfg.checkLevel ∧ t.odpTimer = false then some .badId
  else none

/-- `em_tmo_set_rel`: there the periodic flag is a bad argument, checked before the buffer. -/
def setRelCheck (cfg : TmoConfig) (t : Tmo ε) (ev : Option ε) : Option Status :=
  if 0 < cfg.checkLevel ∧ ev = none then some .badArg
  else if 0 < cfg.checkLevel ∧ t.periodic = true then some .badArg
  else if 1 < cfg.checkLevel ∧ t.odpBuffer = false then some .badId
  else if 1 < cfg.checkLevel ∧ t.state = .unknown then some .badState
  else none

def setPeriodicCheck (cfg : TmoConfig) (t : Tmo ε) (ev : Option ε) : Option Status :=
  if 0 < cfg.checkLevel ∧ ev = none then some .badArg
  else if 1 < cfg.checkLevel ∧ t.odpBuffer = false then some .badId
  else if 0 < cfg.checkLevel ∧ t.periodic = false then some .badContext
  else if 1 < cfg.checkLevel ∧ t.state = .unknown then some .badState
  else none

/-- All checks of a set, and the event that is set. -/
def setChecks (cfg : TmoConfig) (t : Tmo ε) (check : Option Status) (ev : Option ε) :
    Except Status ε :=
  match check, ev with
  | some st, _ => .error st
  -- an undefined event that is not checked faults
  | none, none => .error .badArg
  | none, some e => match t.setEventCheck cfg e with
    | some st => .error st
    | none => .ok e

/-- `em_tmo_set_abs` -/
def emTmoSetAbs (cfg : TmoConfig) (t : Tmo ε) (ev : Option ε) (ret : OdpRet) : Tmo ε × Status :=
  match t.setChecks cfg (t.setAbsCheck cfg ev) ev with
  | .error st => (t,st)
  | .ok e => (t.usr2em cfg e).start cfg e .oneshot ret

/-- `em_tmo_set_rel` -/
def emTmoSetRel (cfg : TmoConfig) (t : Tmo ε) (ev : Option ε) (ret : OdpRet) : Tmo ε × Status :=
  match t.setChecks cfg (t.setRelCheck cfg ev) ev with
  | .error st => (t,st)
  | .ok e => (t.usr2em cfg e).start cfg e .oneshot ret

/-- `em_tmo_set_periodic` -/
def emTmoSetPeriodic (cfg : TmoConfig) (t : Tmo ε) (ev : Option ε) (startAbs period now : BitVec 64)
    (ret : OdpRet) : Tmo ε × Status :=
  match t.setChecks cfg (t.setPeriodicCheck cfg ev) ev with
  | .error st => (t,st)
  | .ok e =>
    let t := t.usr2em cfg e
    let t := { t with period, lastTick := if startAbs = 0 then now + period else startAbs }
    t.start cfg e .periodic ret

/-- The start of the ODP timer of a ring timeout. -/
def startRing (cfg : TmoConfig) (t : Tmo ε) (ret : OdpRet) : Tmo ε × Status :=
  if ret = .success then ({ t with state := .active, armed := some .ring },.ok)
  else ({ t with state := .idle },timerRvOdp2em cfg.pre150 ret)

/-- The ring timeout gets a new ODP timer when its rate has changed or it has none. -/
def reallocRing (cfg : TmoConfig) (t : Tmo ε) (changed : Bool) (setRate : Tmo ε → Tmo ε)
    (x : RingAnswer) : Tmo ε × Status :=
  if t.odpTimer = true ∧ changed = true ∧ t.state = .active then (t,.badState)
  else
    let t := if t.odpTimer = true ∧ changed = true then { t with odpTimer := false, armed := none }
      else t
    if t.odpTimer = true then t.startRing cfg x.ret
    else if 1 < cfg.checkLevel ∧ x.queueAllocated = false then (t,.badArg)
    else if x.timerAlloc = false then (t,.libFailed)
    else (setRate { t with odpTimer := true }).startRing cfg x.ret

/-- The checks of the ring calls; `rateCheck` is their check of the rate. -/
def setRingCheck (cfg : TmoConfig) (t : Tmo ε) (ringFreq : Bool) (rateCheck : Option Status) :
    Option Status :=
  if 1 < cfg.checkLevel ∧ t.odpBuffer = false then some .badId
  else if 0 < cfg.checkLevel ∧ t.periodic = false then some .badContext
  else if 0 < cfg.checkLevel ∧ t.ringFreq ≠ ringFreq then some .badContext
  else if 0 < cfg.checkLevel ∧ rateCheck.isSome = true then rateCheck
  else if 1 < cfg.checkLevel ∧ (t.state = .unknown ∨ t.state = .active) then some .badState
  else none

/-- `em_tmo_set_periodic_ring` -/
def emTmoSetPeriodicRing (cfg : TmoConfig) (t : Tmo ε) (multiplier : BitVec 64) (x : RingAnswer) :
    Tmo ε × Status :=
  match t.setRingCheck cfg false none with
  | some st => (t,st)
  | none =>
    if cfg.pre150 then
      -- the timeout event that was allocated with the timeout is used first
      let t' := { t with odpTimeout := false }
      if t.odpTimeout = false ∧ x.timeoutAlloc = false then (t',.allocFailed)
      else t'.startRing cfg x.ret
    else t.reallocRing cfg (t.multiplier != multiplier) (fun t => { t with multiplier }) x

/-- The checks of the frequency in `em_tmo_set_periodic_ring_freq`. -/
def freqCheck (freqHz : FractU64) : Option Status :=
  if freqHz.numer ≠ 0 ∧ freqHz.denom = 0 then some .badArg
  else if freqHz.integer = 0 ∧ freqHz.numer = 0 then some .badArg
  else none

/-- `em_tmo_set_periodic_ring_freq` -/
def emTmoSetPeriodicRingFreq (cfg : TmoConfig) (t : Tmo ε) (freqHz : FractU64) (x : RingAnswer) :
    Tmo ε × Status :=
  if cfg.pre150 then (t,.notImplemented)
  else match t.setRingCheck cfg true (freqCheck freqHz) with
    | some st => (t,st)
    | none => t.reallocRing cfg (t.freqHz != freqHz) (fun t => { t with freqHz }) x

/-- The checks of `em_tmo_cancel`; `curEvent` is whether its output argument is not `NULL`. -/
def cancelCheck (cfg : TmoConfig) (t : Tmo ε) (curEvent : Bool) : Option Status :=
  if 0 < cfg.checkLevel ∧ curEvent = false then some .badArg
  else if 1 < cfg.checkLevel ∧ t.odpBuffer = false then some .badId
  else if 1 < cfg.checkLevel ∧ t.odpTimer = false then some .badId
  else if t.state ≠ .active then some .badState
  else none

/-- `em_tmo_cancel` with the event that it stores; `ringOk` is the result of
`odp_timer_periodic_cancel`. An event that is too near to be cancelled is sent. -/
def emTmoCancel (cfg : TmoConfig) (t : Tmo ε) (curEvent : Bool) (ret : OdpRet) (ringOk : Bool) :
    (Tmo ε × Status) × Option ε :=
  match t.cancelCheck cfg curEvent with
  | some st => ((t,st),none)
  | none =>
    let t := { t with state := .idle }
    if t.isRing then
      if ringOk = false then ((t,.libFailed),none) else (({ t with armed := none },.tooNear),none)
    else if ret = .tooNear then ((t.expire cfg,.tooNear),none)
    else if ret = .fail then ((t,.badState),none)
    else match t.armed with
      | some (.event e) => ((({ t with armed := none }.resetHdr e).em2usr cfg e,.ok),some e)
      | _ => ((t,.ok),none)

/-- The checks of `em_tmo_delete`. -/
def deleteCheck (cfg : TmoConfig) (t : Tmo ε) : Option Status :=
  if 1 < cfg.checkLevel ∧ t.odpBuffer = false then some .badId
  else if 1 < cfg.checkLevel ∧ t.state = .unknown then some .badState
  else if 1 < cfg.checkLevel ∧ (cfg.pre150 = true ∨ t.isRing = false) ∧ t.odpTimer = false then
    some .badId
  else none

/-- `em_tmo_delete`; from ODP 1.50 on a ring timeout may have no ODP timer to free. -/
def emTmoDelete (cfg : TmoConfig) (t : Tmo ε) (freeOk : Bool) : Tmo ε × Status :=
  match t.deleteCheck cfg with
  | some st => (t,st)
  | none =>
    let t := { t with state := .unknown }
    if (cfg.pre150 = true ∨ t.odpTimer = true) ∧ freeOk = false then (t,.libFailed)
    else
      ({ t with
        odpTimeout := if cfg.pre150 = true ∧ t.isRing = true then false else t.odpTimeout
        odpTimer := false, odpBuffer := false, armed := none },.ok)

/-- The exit of `tmo_ack_rearm` with an error. -/
def ackErr (cfg : TmoConfig) (t : Tmo ε) (e : ε) (st : Status) : Tmo ε × Status :=
  ((t.resetHdr e).em2usr cfg e,st)

/-- `tmo_ack_rearm` with the answers of its calls. -/
def tmoAckRearm (cfg : TmoConfig) (e : ε) : Nat → List Periodic.Answer → Tmo ε →
    Option (Tmo ε × Status)
  | tries + 1, x :: xs, t => match x.ret with
    | .success => if t.armed = none then some ({ t with armed := some (.event e) },.ok) else none
    | .busy =>
      if cfg.pre150 then some (t.ackErr cfg e .libFailed)
      else if tries < 1 then some (t.ackErr cfg e .operationFailed)
      else tmoAckRearm cfg e tries xs t
    | .tooNear =>
      -- `handle_ack_noskip`
      if t.noskip then
        some (if x.sent = .ok then (t.em2usr cfg e,.ok) else ((t.em2usr cfg e).resetHdr e,x.sent))
      else match handleAckSkip t.lastTick t.period x.now with
        | none => none
        | some lastTick =>
          if tries < 1 then some ({ t with lastTick }.ackErr cfg e .operationFailed)
          else tmoAckRearm cfg e tries xs { t with lastTick }
    | _ => some (t.ackErr cfg e .libFailed)
  | _, _, _ => none

/-- `em_tmo_ack` -/
def emTmoAck (cfg : TmoConfig) (t : Tmo ε) (e : ε) (xs : List Periodic.Answer) :
    Option (Tmo ε × Status) :=
  let type := (t.hdr e).eventType
  if 1 < cfg.checkLevel ∧ t.odpBuffer = false then some (t,.badId)
  else if 0 < cfg.checkLevel ∧ t.periodic = false then some (t,.badContext)
  else if 0 < cfg.checkLevel ∧ (type = .odp ∨ type = .timerInd) then some (t,.badContext)
  else if t.state = .idle then some (t.resetHdr e,.canceled)
  else if t.state ≠ .active then some (t.resetHdr e,.badState)
  else
    let t := t.usr2em cfg e
    let t := { t.setHdr e fun h => { h with tmoType := .periodic, tmo := true } with
      lastTick := t.lastTick + t.period }
    tmoAckRearm cfg e emTimerAckTries xs t

end Tmo

/-- The calls on a timeout with the answers of ODP, and the expiry of its ODP timer. -/
inductive TmoLabel (ε : Type) where
  | setAbs (ev : Option ε) (ret : OdpRet)
  | setRel (ev : Option ε) (ret : OdpRet)
  | setPeriodic (ev : Option ε) (startAbs period now : BitVec 64) (ret : OdpRet)
  | setPeriodicRing (multiplier : BitVec 64) (x : RingAnswer)
  | setPeriodicRingFreq (freqHz : FractU64) (x : RingAnswer)
  | cancel (curEvent : Bool) (ret : OdpRet) (ringOk : Bool)
  | delete (freeOk : Bool)
  | ack (e : ε) (xs : List Periodic.Answer)
  | expire

namespace Tmo
variable {ε : Type} [DecidableEq ε]

/-- The caller passes an event that it has; without argument checks an undefined event
faults. ODP starts no timer that is armed. -/
def SetAllowed (cfg : TmoConfig) (t : Tmo ε) (ev : Option ε) (ret : OdpRet) : Prop :=
  (cfg.checkLevel = 0 → ev ≠ none) ∧ (∀ e ∈ ev, t.armed ≠ some (.event e)) ∧
    (ret = .success → t.armed = none) ∧ t.isRing = false

instance (cfg : TmoConfig) (t : Tmo ε) (ev : Option ε) (ret : OdpRet) :
    Decidable (t.SetAllowed cfg ev ret) := inferInstanceAs (Decidable (_ ∧ _ ∧ _ ∧ _))

/-- The state after a call and what the call returns. -/
def call (cfg : TmoConfig) (t : Tmo ε) : TmoLabel ε → Option (Tmo ε × Status)
  | .setAbs ev ret => if t.SetAllowed cfg ev ret then some (t.emTmoSetAbs cfg ev ret) else none
  | .setRel ev ret => if t.SetAllowed cfg ev ret then some (t.emTmoSetRel cfg ev ret) else none
  | .setPeriodic ev startAbs period now ret =>
    if t.SetAllowed cfg ev ret then some (t.emTmoSetPeriodic cfg ev startAbs period now ret)
    else none
  | .setPeriodicRing multiplier x =>
    if (x.ret = .success → t.armed = none) ∧ t.isRing = true then
      some (t.emTmoSetPeriodicRing cfg multiplier x)
    else none
  | .setPeriodicRingFreq freqHz x =>
    if (x.ret = .success → t.armed = none) ∧ t.isRing = true then
      some (t.emTmoSetPeriodicRingFreq cfg freqHz x)
    else none
  | .cancel curEvent ret ringOk =>
    if (cfg.checkLevel = 0 → curEvent = true) ∧
        (ret = .tooNear ∨ ret = .fail ∨ ret = .success ∧ t.armed ≠ none) then
      some (t.emTmoCancel cfg curEvent ret ringOk).1
    else none
  | .delete freeOk => some (t.emTmoDelete cfg freeOk)
  | .ack e xs =>
    if t.armed ≠ some (.event e) ∧ t.isRing = false then t.emTmoAck cfg e xs else none
  | .expire => if t.armed = none then none else some (t.expire cfg,.ok)

/-- A deleted timeout is not used any more. -/
def step (cfg : TmoConfig) (t : Tmo ε) (l : TmoLabel ε) : Option (Tmo ε) :=
  if t.odpBuffer = true then (t.call cfg l).map Prod.fst else none

/-- `em_tmo_create_arg`: from ODP 1.50 on a ring timeout gets its ODP timer when it is set. -/
def Initial (cfg : TmoConfig) (t : Tmo ε) : Prop :=
  t.state = .idle ∧ t.odpBuffer = true ∧ t.armed = none ∧
    (t.odpTimer = true ↔ cfg.pre150 = true ∨ t.isRing = false) ∧
    (t.odpTimeout = true ↔ cfg.pre150 = true ∧ t.isRing = true)

def system (cfg : TmoConfig) (ε : Type) [DecidableEq ε] : System (Tmo ε) (TmoLabel ε) :=
  .ofFn (Initial cfg) (step cfg)

end Tmo
end EmOdp.Timer
