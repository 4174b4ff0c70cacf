import EmOdp.Alloc.MultiSingle
import EmOdp.EventFree.Memory

/-! Cloning a buffer or a packet, all of it or a part, into an event of an EM pool or, where the packet is of
a pool outside EM, by a copy that ODP makes. `evstate_error` never returns, so it ends a run. -/
namespace EmOdp.EventClone
open EventState Pool Alloc
open EventFree (emEventUndef)

/-- `odp_event_type_t` -/
inductive OdpEventType where
  | buffer | packet | vector
  deriving DecidableEq, Repr

def emEventTypeVector : EmEventType := 5 <<< 24

def emEventTypeMajor (type : EmEventType) : EmEventType := type &&& 0xFF000000

/-- What ODP tells about events and pools, and which of the pools belong to EM -/
structure Odp where
  odpEventType : BitVec 48 → OdpEventType
  odpPool : BitVec 48 → Nat
  bufSize : BitVec 48 → Nat
  /-- the user area of the packets of a pool, without the event header -/
  userAreaSize : Nat → Nat
  poolOdp2em : Nat → Option Nat

/-- The pools, the allocated events with their headers, and the contents of all events: a payload begins at
`event_pointer`, a user area behind the header. -/
structure State where
  /-- `pool_elem_get` -/
  mpoolTbl : Nat → Option MpoolElem
  poolAllocated : Nat → Bool
  /-- the packets that an ODP pool outside EM can still give out -/
  extFree : Nat → List OdpElem
  live : BitVec 48 → Option OdpElem
  payload : BitVec 48 → Nat → BitVec 8
  userArea : BitVec 48 → Nat → BitVec 8

inductive Status where
  | badArg | badState | badId | notFound | operationFailed | notImplemented | tooSmall | allocFailed
  deriving DecidableEq, Repr

def memcpy (dst src : Nat → BitVec 8) (n : Nat) : Nat → BitVec 8 := fun i => if i < n then src i else dst i

/-- `evstate_init` -/
def evstateInit (event : EvHdl) (hdr : EventHdr) (isExtev : Bool) : EventHdr :=
  let r := EventState.evstateInit .single event ⟨hdr.event,hdr.stateCnt,hdr.flags.refsUsed,false⟩ isExtev
  { hdr with event := r.2.event, stateCnt := r.2.stateCnt }

section Model
variable (cfg : Config) (odp : Odp)

/-- `em_event_size`, of a packet with a single segment -/
def emEventSize (odpEvent : BitVec 48) (elem : OdpElem) : Nat :=
  match odp.odpEventType odpEvent with
  | .packet => elem.pkt.len
  | .buffer => elem.hdr.eventSize
  | .vector => 0

/-- The new event, with its contents -/
def State.create (s : State) (elem : OdpElem) (payload userArea : Nat → BitVec 8) : State :=
  { s with
    live := Function.update s.live elem.odpEvent (some elem)
    payload := Function.update s.payload elem.odpEvent payload
    userArea := Function.update s.userArea elem.odpEvent userArea }

/-- `odp_packet_copy_part`: the packet and its data -/
def odpPacketCopyPart (pkt : BitVec 48) (offset len pool : Nat) (s : State) :
    Option (OdpElem × (Nat → BitVec 8) × State) :=
  match s.extFree pool with
  | [] => none
  | elem :: free => some (elem.setLen len,
      memcpy (s.payload elem.odpEvent) (fun i => s.payload pkt (offset + i)) len,
      { s with extFree := Function.update s.extFree pool free })

/-- `pkt_clone_odp`; a packet that is freed again has never been taken. -/
def pktCloneOdp (pkt : BitVec 48) (parent : OdpElem) (pktPool offset size : Nat) (cloneUarea isClonePart : Bool)
    (s : State) : Option (EvHdl × State) := do
  let srcUareaSize := odp.userAreaSize (odp.odpPool pkt)
  -- `odp_packet_copy` copies all of the data and the user area
  let (offset,size) := if isClonePart then (offset,size) else (0,parent.pkt.len)
  let (clonePkt,data,t) ← odpPacketCopyPart pkt offset size pktPool s
  if isClonePart && cloneUarea && odp.userAreaSize (odp.odpPool clonePkt.odpEvent) < srcUareaSize then none
  else
    let cpySize := if !isClonePart || cloneUarea then srcUareaSize else 0
    let uarea := memcpy (s.userArea clonePkt.odpEvent) (s.userArea pkt) cpySize
    let cloneEvent := eventOdp2em clonePkt.odpEvent
    let cloneHdr :=
      if cfg.esvEnabled then evstateInit cloneEvent parent.hdr false else { parent.hdr with event := cloneEvent }
    let cloneHdr := { cloneHdr with flags := {}, egrp := none }
    return (cloneHdr.event,t.create { clonePkt with userFlag := true, hdr := cloneHdr } data uarea)

/-- The allocation for a clone -/
def allocClone (poolElem : MpoolElem) (size : Nat) : Option (OdpElem × MpoolElem) :=
  if poolElem.eventType = .packet then eventAllocPkt cfg poolElem size else eventAllocBuf cfg poolElem size

/-- The clone from an EM pool -/
def cloneFromPool (event : BitVec 48) (parent : OdpElem) (emPool : Nat) (poolElem : MpoolElem) (offset size : Nat)
    (cloneUarea : Bool) (s : State) : Option (Except Status EvHdl × State) :=
  match allocClone cfg poolElem size with
  | none => some (.error .allocFailed,s)
  | some (clone,poolElem') => do
    let cloneHdr ←
      (if cfg.esvEnabled then (clone.hdr.evstateAlloc cfg clone.hdr.event).map Prod.snd else some clone.hdr)
    let cloneHdr := { cloneHdr with
      flags := {}
      eventType := parent.hdr.eventType
      eventSize := size
      egrp := none
      userArea := { parent.hdr.userArea with size := .ofNat 14 poolElem.userAreaSize, isinit := true } }
    let uareaSize := parent.hdr.userArea.size.toNat
    let sz := if cloneUarea && parent.hdr.userArea.isinit && 0 < uareaSize then
        min poolElem.userAreaSize uareaSize else 0
    let uarea := memcpy (s.userArea clone.odpEvent) (s.userArea event) sz
    let data := memcpy (s.payload clone.odpEvent) (fun i => s.payload event (offset + i)) size
    let t := { s with mpoolTbl := Function.update s.mpoolTbl emPool (some poolElem') }
    return (.ok cloneHdr.event,t.create { clone with hdr := cloneHdr } data uarea)

/-- The pool of the parent, if none is given -/
def targetPool (event : BitVec 48) (pool : Option Nat) : Option Nat :=
  match pool with
  | some pool => some pool
  | none => odp.poolOdp2em (odp.odpPool event)

/-- An SW pool cannot support packets. -/
def wrongType (poolElem : MpoolElem) (hdr : EventHdr) : Bool :=
  poolElem.eventType = .sw && emEventTypeMajor hdr.eventType = emEventTypePacket

def uareaTooSmall (poolElem : MpoolElem) (hdr : EventHdr) (cloneUarea : Bool) : Bool :=
  cloneUarea && hdr.userArea.isinit && poolElem.userAreaSize < hdr.userArea.size.toNat

/-- `event_clone_part` of an allocated event, `isClonePart` is what it is told by its error scope -/
def eventClonePart (event : EvHdl) (parent : OdpElem) (pool : Option Nat) (offset len : Nat)
    (cloneUarea isClonePart : Bool) (s : State) : Option (Except Status EvHdl × State) :=
  if 0 < cfg.checkLevel ∧ (event = emEventUndef ∨ ∃ p ∈ pool, s.mpoolTbl p = none) then some (.error .badArg,s)
  else if 2 ≤ cfg.checkLevel ∧ ∃ p ∈ pool, s.poolAllocated p = false then some (.error .badState,s)
  else if odp.odpEventType event.evptr = .vector then some (.error .badId,s)
  else
    let size := emEventSize odp event.evptr parent
    if isClonePart ∧ 1 ≤ cfg.checkLevel ∧ (len = 0 ∨ size < offset + len) then some (.error .badArg,s)
    else
      let size := if isClonePart ∧ len < size then len else size
      match targetPool odp event.evptr pool with
      | none =>
        if odp.odpEventType event.evptr = .buffer then some (.error .notFound,s)
        else
          match pktCloneOdp cfg odp event.evptr parent (odp.odpPool event.evptr) offset size cloneUarea
              isClonePart s with
          | none => some (.error .operationFailed,s)
          | some (cloneEvent,s) => some (.ok cloneEvent,s)
      | some emPool =>
        match s.mpoolTbl emPool with
        | none => none
        | some poolElem =>
          if 0 < cfg.checkLevel ∧ wrongType poolElem parent.hdr then some (.error .notImplemented,s)
          else if 0 < cfg.checkLevel ∧ uareaTooSmall poolElem parent.hdr cloneUarea then some (.error .tooSmall,s)
          else cloneFromPool cfg event.evptr parent emPool poolElem offset size cloneUarea s

/-- What the user asks for -/
inductive Request where
  | clone
  | part (offset len : Nat) (cloneUarea : Bool)
  deriving DecidableEq, Repr

/-- `em_event_clone` and `em_event_clone_part` -/
def Request.run (req : Request) (event : EvHdl) (parent : OdpElem) (pool : Option Nat) (s : State) :
    Option (Except Status EvHdl × State) :=
  match req with
  | .clone => eventClonePart cfg odp event parent pool 0 0 true false s
  | .part offset len cloneUarea => eventClonePart cfg odp event parent pool offset len cloneUarea true s

end Model
end EmOdp.EventClone
