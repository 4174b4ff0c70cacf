import EmOdp.EventFree.Memory
import EmOdp.EventState.Allocate
import EmOdp.Lib.Alike

/-! Events that ODP gives to EM. `event_init_odp` sets up the header of an event that EM has not seen
before, and moves one that it has seen to the user. -/
namespace EmOdp.EventInit
open EventState
open EventFree (OdpEvt OdpType)

/-- `EVSTATE__..`, the label that is stored with a transition -/
inductive ApiOp where
  | init | initExtev | updateExtev | dispatch | dispatchMulti | dispatchAggr
  | other (op : BitVec 8)
  deriving DecidableEq

/-- `ev_hdr_state_t` -/
structure HdrState where
  payloadFirst : BitVec 32
  eoIdx : BitVec 16
  queueIdx : BitVec 16
  apiOp : ApiOp
  core : BitVec 8
  deriving DecidableEq

/-- `event_hdr_t.flags` -/
structure Flags where
  refsUsed : Bool
  tmoType : BitVec 2
  vectypeSet : Bool
  aggrSent : Bool
  unused : BitVec 3
  deriving DecidableEq

/-- `event_hdr_t`, less the fields that no function here reads or writes -/
structure EventHdr where
  stateCnt : EvstateCnt
  state : HdrState
  flags : Flags
  eventType : BitVec 32
  event : EvHdl
  egrp : BitVec 64
  /-- `user_area.all` -/
  userArea : BitVec 32
  deriving DecidableEq

def emEventTypePacket : BitVec 32 := 2 <<< 24
def emEventTypeVector : BitVec 32 := 5 <<< 24
def emEventTypeOdp : BitVec 32 := 7 <<< 24
def emEventGroupUndef : BitVec 64 := 0

/-- What stays the same during a call: the options, the core, and what ODP says of its events. -/
structure Env where
  esvEnabled : Bool
  preallocPools : Bool
  storeState : Bool
  storeFirstU32 : Bool
  /-- of `locm->current.q_elem`, -1 if there is none -/
  eoIdx : BitVec 16
  queueIdx : BitVec 16
  core : BitVec 8
  type : OdpEvt → OdpType
  /-- its pool is one of EM's: `pool_odp2em` does not return `EM_POOL_UNDEF` -/
  emPool : OdpEvt → Bool
  /-- what is at `event_pointer`, if this is not `NULL` -/
  payloadFirst : OdpEvt → Option (BitVec 32)
  /-- `odp_event_vector_tbl` -/
  table : OdpEvt → List OdpEvt
  /-- `odp_event_vector_type`, none is `ODP_EVENT_ANY` -/
  vectorType : OdpEvt → Option OdpType
  /-- `odp_event_type_multi` -/
  typeMulti : List OdpEvt → Nat
  /-- that many events from the first one on are of its type -/
  typeMulti_type : ∀ e es, ∀ e' ∈ (e :: es).take (typeMulti (e :: es)), type e' = type e

/-- The user area of an ODP event, where its header is, with the user flag -/
structure UserArea where
  hdr : EventHdr
  userFlag : Bool
  deriving DecidableEq

/-- `event_hdr_t *` -/
inductive HdrPtr where
  | userArea (odpEvent : OdpEvt)
  /-- `&em_locm.evhdr_nonem` -/
  | evhdrNonem
  deriving DecidableEq

abbrev Memory := HdrPtr → UserArea

/-- Works on one header. -/
def access {α : Type} (m : Memory) (p : HdrPtr) (f : UserArea → Except EvstateError (α × UserArea)) :
    Except EvstateError (α × Memory) :=
  (f (m p)).map fun r => (r.1,Function.update m p r.2)

variable (env : Env)

namespace EventHdr
variable (op : ApiOp) (event : EvHdl) (h : EventHdr) (isExtev : Bool)

/-- What the verification reads. -/
def esv : EvHdr := ⟨h.event,h.stateCnt,h.flags.refsUsed,h.eventType = emEventTypeOdp⟩

def setEsv (r : EvHdr) : EventHdr := { h with event := r.event, stateCnt := r.stateCnt }

/-- `evhdr_update_state` -/
def updateState : EventHdr :=
  if env.storeState then { h with state :=
    { payloadFirst := (if env.storeFirstU32 then env.payloadFirst h.event.evptr else none).getD h.state.payloadFirst
      eoIdx := env.eoIdx
      queueIdx := env.queueIdx
      apiOp := op
      core := env.core } }
  else h

/-- The end of a transition: no state is stored for references. -/
def transition (r : Except EvstateError (EvHdl × EvHdr)) : Except EvstateError (EvHdl × EventHdr) :=
  r.map fun r => (r.1,if h.flags.refsUsed then h.setEsv r.2 else (h.setEsv r.2).updateState env op)

/-- `evstate_em2usr`, and `evstate_em2usr_multi` for each event -/
def evstateEm2usr : Except EvstateError (EvHdl × EventHdr) :=
  if h.eventType = emEventTypeOdp then .ok (event,h)
  else h.transition env op (EventState.esvEm2usr event h.esv cntDispatch false)

def evstateInit : EvHdl × EventHdr :=
  let r := EventState.evstateInit .single event h.esv isExtev
  (r.1,(h.setEsv r.2).updateState env (if isExtev then .initExtev else .init))

def evstateUpdate : Except EvstateError (EvHdl × EventHdr) :=
  h.transition env .updateExtev (EventState.evstateUpdate event h.esv isExtev)

/-- `flags.all = 0` -/
def clearFlags : EventHdr := { h with flags := ⟨false,0,false,false,0⟩ }

/-- The fields that are set whatever the options are. -/
def setFields (eventType : BitVec 32) : EventHdr :=
  { h with eventType, egrp := emEventGroupUndef, userArea := 0 }

end EventHdr

section One
variable (op : ApiOp) (isExtev : Bool) (event : EvHdl) (a : UserArea)

/-- The event is already initialized by EM. -/
def evhdrInitialized : Except EvstateError (EvHdl × UserArea) :=
  if env.esvEnabled then
    if isExtev then (a.hdr.evstateEm2usr env op a.hdr.event).map fun r => (r.1,{ a with hdr := r.2 })
    else .ok (a.hdr.event,a)
  else .ok (event,a)

def evhdrInitPkt (odpPkt : OdpEvt) : Except EvstateError (EvHdl × UserArea) :=
  if a.userFlag then evhdrInitialized env .dispatch isExtev event a
  else
    let hdr := a.hdr.setFields emEventTypePacket
    if !env.esvEnabled then .ok (event,⟨{ hdr.clearFlags with event },true⟩)
    else
      let r : Except EvstateError (EvHdl × EventHdr) :=
        if !env.preallocPools || hdr.flags.refsUsed then .ok (hdr.evstateInit env event isExtev)
        else if !env.emPool odpPkt then .ok (hdr.evstateInit env event isExtev)
        else hdr.evstateUpdate env event isExtev
      -- only after the ESV has read `refs_used`
      r.map fun r => (r.1,⟨r.2.clearFlags,true⟩)

/-- `evhdr_init_pktvec`, and `evhdr_init_evvec` less the inner events -/
def evhdrInitVec (odpVec : OdpEvt) : Except EvstateError (EvHdl × UserArea) :=
  if a.userFlag then evhdrInitialized env .dispatch isExtev event a
  else
    let hdr := a.hdr.clearFlags.setFields emEventTypeVector
    if !env.esvEnabled then .ok (event,⟨{ hdr with event },true⟩)
    else
      let r : Except EvstateError (EvHdl × EventHdr) :=
        if !env.preallocPools then .ok (hdr.evstateInit env event isExtev)
        else if !env.emPool odpVec then .ok (hdr.evstateInit env event isExtev)
        else hdr.evstateUpdate env event isExtev
      r.map fun r => (r.1,⟨r.2,true⟩)

/-- `event_init_odp` for a buffer -/
def initBuf : Except EvstateError (EvHdl × UserArea) :=
  if env.esvEnabled then
    if isExtev then (a.hdr.evstateEm2usr env op event).map fun r => (r.1,{ a with hdr := r.2 })
    else .ok (a.hdr.event,a)
  else .ok (event,a)

/-- `event_init_odp` for a timeout: the handle of the event is kept, with the generation of the header. -/
def initTmo : Except EvstateError (EvHdl × UserArea) :=
  if env.esvEnabled then
    let event := { event with evgen := a.hdr.event.evgen }
    .ok (event,{ a with hdr := { a.hdr with event } })
  else .ok (event,a)

/-- `esv_aggr_inner_em2usr_one` -/
def esvAggrInnerEm2usrOne : Except EvstateError (Unit × UserArea) :=
  if !a.hdr.flags.refsUsed && !a.hdr.flags.aggrSent then .ok ((),a)
  else (a.hdr.evstateEm2usr env .dispatchAggr a.hdr.event).map fun r => ((),{ a with
    hdr := if r.2.flags.refsUsed then r.2 else { r.2 with flags := { r.2.flags with aggrSent := false } } })

end One

section Event
variable (isExtev : Bool)
-- `has_aggr` of `disp_q_elem`, none is `NULL`
variable (dispQElem : Option Bool)

/-- `event_to_hdr` -/
def eventToHdr (odpEvent : OdpEvt) : HdrPtr :=
  if env.type odpEvent = .other then .evhdrNonem else .userArea odpEvent

/-- Packets from pktio are not initialized yet; a vector of buffers has none. -/
def skipInner (vectorType : Option OdpType) (odpEvent : OdpEvt) (m : Memory) : Bool :=
  match vectorType with
  | some .packet => !(m (.userArea odpEvent)).userFlag
  | some .buffer => false
  | _ => env.type odpEvent = .packet && !(m (.userArea odpEvent)).userFlag

/-- The loop of `esv_aggr_inner_em2usr` -/
def aggrInnerLoop (vectorType : Option OdpType) : List OdpEvt → Memory → Except EvstateError Memory
  | [], m => .ok m
  | e :: es, m =>
    if skipInner env vectorType e m then aggrInnerLoop vectorType es m
    else (access m (eventToHdr env e) (esvAggrInnerEm2usrOne env)).bind fun r =>
      aggrInnerLoop vectorType es r.2

def esvAggrInnerEm2usr (odpEvvec : OdpEvt) (m : Memory) : Except EvstateError Memory :=
  if dispQElem = some false then .ok m
  else aggrInnerLoop env (env.vectorType odpEvvec) (env.table odpEvvec) m

def evhdrInitEvvec (event : EvHdl) (odpEvvec : OdpEvt) (m : Memory) : Except EvstateError (EvHdl × Memory) :=
  (access m (.userArea odpEvvec) fun a => evhdrInitVec env isExtev event a odpEvvec).bind fun r =>
    if env.esvEnabled && isExtev then
      (esvAggrInnerEm2usr env dispQElem odpEvvec r.2).map fun m => (r.1,m)
    else .ok r

def eventInitOdp (odpEvent : OdpEvt) (m : Memory) : Except EvstateError ((EvHdl × HdrPtr) × Memory) :=
  let event : EvHdl := ⟨odpEvent,0⟩
  let p := HdrPtr.userArea odpEvent
  let r : Except EvstateError (EvHdl × Memory) :=
    match env.type odpEvent with
    | .packet => access m p fun a => evhdrInitPkt env isExtev event a odpEvent
    | .buffer => access m p (initBuf env .dispatch isExtev event)
    | .vector => evhdrInitEvvec env isExtev dispQElem event odpEvent m
    | .packetVector => access m p fun a => evhdrInitVec env isExtev event a odpEvent
    | .timeout => access m p (initTmo env event)
    | .other => .ok (event,m)
  r.map fun r => ((r.1,eventToHdr env odpEvent),r.2)

/-- `event_init_odp` for each event in order -/
def eventInitOdpEach : List OdpEvt → Memory → Except EvstateError (List (EvHdl × HdrPtr) × Memory)
  | [], m => .ok ([],m)
  | e :: es, m => (eventInitOdp env isExtev dispQElem e m).bind fun r =>
    (eventInitOdpEach es r.2).map fun rest => (r.1 :: rest.1,rest.2)

end Event
end EmOdp.EventInit
