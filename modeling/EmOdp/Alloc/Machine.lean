import EmOdp.EventState.Verify
import EmOdp.Pool.Payload

/-! Allocation of events from the subpools of an EM pool, one at a time and many at once. A subpool is the list of
the elements that it can still give out. `evstate_error` never returns, so it ends a run. -/
namespace EmOdp.Alloc
open EventState Pool

structure Config where
  /-- `EM_CHECK_LEVEL` -/
  checkLevel : Nat
  esvEnabled : Bool
  preallocPools : Bool
  vectorBackend : VectorBackend

/-- `em_event_type_t` -/
abbrev EmEventType := BitVec 32

def emEventTypePacket : EmEventType := 2 <<< 24
def emEventTypeAny : EmEventType := 8 <<< 24

/-- `flags` -/
structure Flags where
  refsUsed : Bool := false
  tmoType : BitVec 2 := 0
  vectypeSet : Bool := false
  aggrSent : Bool := false
  deriving DecidableEq

/-- `ev_hdr_user_area_t` -/
structure UserArea where
  issetId : Bool := false
  isinit : Bool := false
  size : BitVec 14 := 0
  id : BitVec 16 := 0
  deriving DecidableEq

/-- `event_hdr_t`, the fields that an allocation reads or writes -/
structure EventHdr where
  stateCnt : EvstateCnt
  flags : Flags
  alignOffset : BitVec 8
  eventType : EmEventType
  event : EvHdl
  eventSize : Nat
  /-- none is `EM_EVENT_GROUP_UNDEF` -/
  egrp : Option Nat
  userArea : UserArea
  vectorType : EmEventType
  deriving DecidableEq

/-- An ODP buffer, packet or vector with its user area; only packets have the data `pkt`. -/
structure OdpElem where
  odpEvent : BitVec 48
  pkt : OdpPacket
  userFlag : Bool
  hdr : EventHdr

structure Subpool where
  size : Nat
  /-- `odp_pool` is not `ODP_POOL_INVALID` -/
  valid : Bool
  /-- what is not allocated -/
  free : List OdpElem

/-- `mpool_elem_t` -/
structure MpoolElem where
  eventType : EventType
  alignOffset : Nat
  userAreaSize : Nat
  subpools : List Subpool

/-- `event_odp2em` -/
def eventOdp2em (odpEvent : BitVec 48) : EvHdl := ⟨odpEvent,0⟩

/-- `evstate_alloc`, and `evstate_alloc_multi` for one event -/
def EventHdr.evstateAlloc (cfg : Config) (event : EvHdl) (hdr : EventHdr) : Option (EvHdl × EventHdr) :=
  (EventState.evstateAlloc event ⟨hdr.event,hdr.stateCnt,hdr.flags.refsUsed,false⟩ cfg.preallocPools).toOption.map
    fun r => (r.1,{ hdr with event := r.2.event, stateCnt := r.2.stateCnt })

/-- `odp_buffer_alloc`, `odp_packet_alloc`, `odp_packet_vector_alloc` and `odp_event_vector_alloc` -/
def Subpool.alloc (subpool : Subpool) : Option (OdpElem × Subpool) :=
  match subpool.free with
  | [] => none
  | elem :: free => some (elem,{ subpool with free })

/-- `odp_buffer_alloc_multi` and `odp_packet_alloc_multi`: as many as there are -/
def Subpool.allocMulti (num : Nat) (subpool : Subpool) : List OdpElem × Subpool :=
  (subpool.free.take num,{ subpool with free := subpool.free.drop num })

/-- The check for `ODP_POOL_INVALID` -/
def Subpool.invalid (cfg : Config) (subpool : Subpool) : Bool := 3 ≤ cfg.checkLevel && !subpool.valid

/-- `odp_packet_push_head` for the offset, not done for none; a failure is looked at from level 3 on. -/
def OdpElem.pushHead (cfg : Config) (pushLen : Nat) (elem : OdpElem) : Option OdpElem :=
  if pushLen = 0 then some elem
  else match elem.pkt.pushHead pushLen with
    | some pkt => some { elem with pkt }
    | none => if 3 ≤ cfg.checkLevel then none else some elem

/-- `odp_packet_pull_tail` likewise -/
def OdpElem.pullTail (cfg : Config) (pullLen : Nat) (elem : OdpElem) : Option OdpElem :=
  if pullLen = 0 then some elem
  else match elem.pkt.pullTail pullLen with
    | some pkt => some { elem with pkt }
    | none => if 3 ≤ cfg.checkLevel then none else some elem

/-- The length a packet is allocated with -/
def OdpElem.setLen (len : Nat) (elem : OdpElem) : OdpElem := { elem with pkt := { elem.pkt with len } }

section Single
variable (cfg : Config) (poolElem : MpoolElem) (size : Nat) (type : EmEventType)

/-- The first of the subpools with an element -/
def allocLoop : List Subpool → Option (OdpElem × List Subpool)
  | [] => none
  | subpool :: subpools =>
    if subpool.invalid cfg then none
    else match subpool.alloc with
      | some (elem,subpool) => some (elem,subpool :: subpools)
      | none => (allocLoop subpools).map fun r => (r.1,subpool :: r.2)

/-- What the allocations of one event share: the subpool is searched, and where the preparation of the element
fails it is freed again. -/
def allocElem (prepare : OdpElem → Option OdpElem) : Option (OdpElem × MpoolElem) := do
  let i ← poolFindSubpool size (poolElem.subpools.map Subpool.size)
  let (elem,subpools) ← allocLoop cfg (poolElem.subpools.drop i)
  let elem ← prepare elem
  return (elem,{ poolElem with subpools := poolElem.subpools.take i ++ subpools })

def eventAllocBuf : Option (OdpElem × MpoolElem) :=
  allocElem cfg poolElem size fun elem => some { elem with
    hdr := { elem.hdr with event := eventOdp2em elem.odpEvent, alignOffset := .ofNat 8 poolElem.alignOffset } }

def eventAllocPkt : Option (OdpElem × MpoolElem) :=
  let pushLen := poolElem.alignOffset
  let (allocSize,pullLen) := pktLens pushLen size
  allocElem cfg poolElem size fun elem => do
    let elem ← (elem.setLen allocSize).pushHead cfg pushLen
    let elem ← elem.pullTail cfg pullLen
    return { elem with userFlag := true, hdr := { elem.hdr with event := eventOdp2em elem.odpEvent } }

/-- `event_alloc_vector__odp_pktvec` and `event_alloc_vector__odp_evvec` for their type of events -/
def allocVector (vectorType : EmEventType) : Option (OdpElem × MpoolElem) :=
  allocElem cfg poolElem size fun elem => some { elem with
    userFlag := true
    hdr := { elem.hdr with event := eventOdp2em elem.odpEvent, vectorType } }

def eventAllocVectorOdpPktvec : Option (OdpElem × MpoolElem) := allocVector cfg poolElem size emEventTypePacket

def eventAllocVectorOdpEvvec : Option (OdpElem × MpoolElem) := allocVector cfg poolElem size emEventTypeAny

def eventAllocVector : Option (OdpElem × MpoolElem) :=
  match cfg.vectorBackend with
  | .packet => eventAllocVectorOdpPktvec cfg poolElem size
  | .event => eventAllocVectorOdpEvvec cfg poolElem size

/-- The call of `event_alloc` for the type of the pool -/
def eventAllocHdr : Option (OdpElem × MpoolElem) :=
  match poolElem.eventType with
  | .packet => eventAllocPkt cfg poolElem size
  | .sw => eventAllocBuf cfg poolElem size
  | .vector => eventAllocVector cfg poolElem size

/-- `event_alloc`: the event and its element, none is `EM_EVENT_UNDEF` -/
def eventAlloc : Option (Option (EvHdl × OdpElem) × MpoolElem) :=
  match eventAllocHdr cfg poolElem size with
  | none => some (none,poolElem)
  | some (elem,poolElem) => do
    let evHdr ←
      (if cfg.esvEnabled then (elem.hdr.evstateAlloc cfg elem.hdr.event).map Prod.snd else some elem.hdr)
    let evHdr := { evHdr with
      flags := {}
      eventType := type
      eventSize := size
      egrp := none
      userArea := { isinit := true, size := .ofNat 14 poolElem.userAreaSize } }
    return (some (evHdr.event,{ elem with hdr := evHdr }),poolElem)

/-- `num` calls of `event_alloc` -/
def eventAllocEach : Nat → MpoolElem → Option (List (EvHdl × OdpElem) × MpoolElem)
  | 0, poolElem => some ([],poolElem)
  | num+1, poolElem => do
    let (event,poolElem) ← eventAlloc cfg poolElem size type
    let (events,poolElem) ← eventAllocEach num poolElem
    return (event.toList ++ events,poolElem)

end Single

section Multi
variable (cfg : Config) (num : Nat) (poolElem : MpoolElem) (size : Nat) (type : EmEventType)

/-- The loop over the subpools: `alloc` gives the elements of one, `init` their headers and events; `return 0`
drops what has been allocated. -/
def allocMultiLoop (alloc : Nat → Subpool → List OdpElem × Subpool) (init : OdpElem → Option (EvHdl × OdpElem)) :
    List (EvHdl × OdpElem) → Nat → List Subpool → Option (List (EvHdl × OdpElem) × List Subpool)
  | events, _, [] => some (events,[])
  | events, numReq, subpool :: subpools =>
    if subpool.invalid cfg then some ([],subpool :: subpools)
    else
      let (elems,subpool) := alloc numReq subpool
      if elems.length = 0 then
        (allocMultiLoop alloc init events numReq subpools).map fun r => (r.1,subpool :: r.2)
      else do
        let new ← elems.mapM init
        if elems.length = numReq then return (events ++ new,subpool :: subpools)
        else (allocMultiLoop alloc init (events ++ new) (numReq - elems.length) subpools).map fun r =>
          (r.1,subpool :: r.2)

/-- What the allocations of many events share -/
def allocMultiElems (alloc : Nat → Subpool → List OdpElem × Subpool) (init : OdpElem → Option (EvHdl × OdpElem)) :
    Option (List (EvHdl × OdpElem) × MpoolElem) :=
  match poolFindSubpool size (poolElem.subpools.map Subpool.size) with
  | none => some ([],poolElem)
  | some i => (allocMultiLoop cfg alloc init [] num (poolElem.subpools.drop i)).map fun r =>
    (r.1,{ poolElem with subpools := poolElem.subpools.take i ++ r.2 })

/-- `evstate_alloc_multi` and the stores to the header that the types of events have in common -/
def initHdr (elem : OdpElem) : Option (EvHdl × EventHdr) := do
  let event := eventOdp2em elem.odpEvent
  let (event,evHdr) ← (if cfg.esvEnabled then elem.hdr.evstateAlloc cfg event else some (event,elem.hdr))
  return (event,{ evHdr with
    flags := {}
    eventType := type
    event := if cfg.esvEnabled then evHdr.event else event
    eventSize := size
    egrp := none
    userArea := { isinit := true, size := .ofNat 14 poolElem.userAreaSize } })

def eventAllocBufMulti : Option (List (EvHdl × OdpElem) × MpoolElem) :=
  allocMultiElems cfg num poolElem size Subpool.allocMulti fun elem =>
    (initHdr cfg poolElem size type elem).map fun r =>
      (r.1,{ elem with hdr := { r.2 with alignOffset := .ofNat 8 poolElem.alignOffset } })

/-- `pktalloc_multi`: all heads are pushed before the first tail is pulled. -/
def pktallocMulti (allocSize pushLen pullLen : Nat) (num : Nat) (subpool : Subpool) : List OdpElem × Subpool :=
  let (odpPkts,subpool') := subpool.allocMulti num
  let odpPkts := odpPkts.map (OdpElem.setLen allocSize)
  match (odpPkts.mapM (OdpElem.pushHead cfg pushLen)).bind (List.mapM (OdpElem.pullTail cfg pullLen)) with
  | none => ([],subpool)
  | some odpPkts => (odpPkts.map fun elem => { elem with userFlag := true },subpool')

def eventAllocPktMulti : Option (List (EvHdl × OdpElem) × MpoolElem) :=
  let pushLen := poolElem.alignOffset
  let (allocSize,pullLen) := pktLens pushLen size
  allocMultiElems cfg num poolElem size (pktallocMulti cfg allocSize pushLen pullLen) fun elem =>
    (initHdr cfg poolElem size type elem).map fun r => (r.1,{ elem with hdr := r.2 })

/-- `pktvec_alloc_multi` and `evvec_alloc_multi` -/
def vecAllocMulti : Nat → Subpool → List OdpElem × Subpool
  | 0, subpool => ([],subpool)
  | num+1, subpool =>
    match subpool.alloc with
    | none => ([],subpool)
    | some (elem,subpool) =>
      let (elems,subpool) := vecAllocMulti num subpool
      ({ elem with userFlag := true } :: elems,subpool)

/-- `event_alloc_vector_multi__odp_pktvec` and `event_alloc_vector_multi__odp_evvec` for their type of events -/
def allocVectorMulti (vectorType : EmEventType) : Option (List (EvHdl × OdpElem) × MpoolElem) :=
  allocMultiElems cfg num poolElem size vecAllocMulti fun elem =>
    (initHdr cfg poolElem size type elem).map fun r => (r.1,{ elem with hdr := { r.2 with vectorType } })

def eventAllocVectorMultiOdpPktvec : Option (List (EvHdl × OdpElem) × MpoolElem) :=
  allocVectorMulti cfg num poolElem size type emEventTypePacket

def eventAllocVectorMultiOdpEvvec : Option (List (EvHdl × OdpElem) × MpoolElem) :=
  allocVectorMulti cfg num poolElem size type emEventTypeAny

def eventAllocVectorMulti : Option (List (EvHdl × OdpElem) × MpoolElem) :=
  match cfg.vectorBackend with
  | .packet => eventAllocVectorMultiOdpPktvec cfg num poolElem size type
  | .event => eventAllocVectorMultiOdpEvvec cfg num poolElem size type

/-- The call of `em_alloc_multi` for the type of the pool -/
def eventAllocMulti : Option (List (EvHdl × OdpElem) × MpoolElem) :=
  match poolElem.eventType with
  | .packet => eventAllocPktMulti cfg num poolElem size type
  | .sw => eventAllocBufMulti cfg num poolElem size type
  | .vector => eventAllocVectorMulti cfg num poolElem size type

end Multi
end EmOdp.Alloc
