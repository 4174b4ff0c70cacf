import EmOdp.EventInit.Header

/-! `event_init_odp_multi`: the packets or buffers in front are initialised in several passes over the
arrays, the other events one after the other. -/
namespace EmOdp.EventInit
open EventState Lib
open EventFree (OdpEvt OdpType)

/-- The entries of the arrays at one index -/
structure Slot where
  /-- `odp_events[i]`, or `odp_pkts[i]` -/
  odp : OdpEvt
  event : EvHdl
  evHdr : HdrPtr
  /-- The index is in `needs_init_idx`. -/
  needsInit : Bool
  deriving DecidableEq

namespace Slot
-- how a handle reads as an ODP event, where both are in one array
variable (inPlace : Option (EvHdl → OdpEvt)) (event : EvHdl) (x : Slot)

/-- `events[i] = event` -/
def setEvent : Slot := { x with event, odp := inPlace.elim x.odp fun asOdp => asOdp event }

/-- What the caller gets. -/
def result : EvHdl × HdrPtr := (x.event,x.evHdr)

end Slot

variable (env : Env) (inPlace : Option (EvHdl → OdpEvt)) (isExtev : Bool)

section Packets
variable (x : Slot) (a : UserArea)

/-- The first loop of `evhdr_init_pkt_multi` -/
def initializedPass : Except EvstateError (Slot × UserArea) :=
  if !a.userFlag then .ok ({ x with needsInit := true },{ a with userFlag := true })
  else if env.esvEnabled then
    let x := x.setEvent inPlace a.hdr.event
    if isExtev then (a.hdr.evstateEm2usr env .dispatchMulti x.event).map fun r =>
      (x.setEvent inPlace r.1,{ a with hdr := r.2 })
    else .ok (x,a)
  else .ok (x,a)

/-- A loop over `needs_init_idx` -/
def needsInitPass (f : Slot → UserArea → Except EvstateError (Slot × UserArea)) :
    Except EvstateError (Slot × UserArea) :=
  if x.needsInit then f x a else .ok (x,a)

/-- The only other loop without the ESV -/
def noEsvPass : Except EvstateError (Slot × UserArea) :=
  .ok (x,{ a with hdr := { a.hdr.clearFlags.setFields emEventTypePacket with event := x.event } })

def evstateInitPass : Except EvstateError (Slot × UserArea) :=
  let r := a.hdr.evstateInit env x.event isExtev
  .ok (x.setEvent inPlace r.1,{ a with hdr := r.2 })

/-- With `esv.prealloc_pools` -/
def evstatePreallocPass : Except EvstateError (Slot × UserArea) :=
  if !env.emPool x.odp || a.hdr.flags.refsUsed then evstateInitPass env inPlace isExtev x a
  else (a.hdr.evstateUpdate env x.event isExtev).map fun r => (x.setEvent inPlace r.1,{ a with hdr := r.2 })

/-- The last loop, only after the ESV has read `refs_used` -/
def fieldsPass : Except EvstateError (Slot × UserArea) :=
  .ok (x,{ a with hdr := a.hdr.clearFlags.setFields emEventTypePacket })

end Packets

def eachSlot (f : Slot → UserArea → Except EvstateError (Slot × UserArea)) (xs : List Slot) (m : Memory) :
    Except EvstateError (List Slot × Memory) := eachCell Slot.evHdr f xs m

def evhdrInitPktMulti (xs : List Slot) (m : Memory) : Except EvstateError (List Slot × Memory) :=
  (eachSlot (initializedPass env inPlace isExtev) xs m).bind fun r =>
    if !r.1.any Slot.needsInit then .ok r
    else if !env.esvEnabled then eachSlot (fun x a => needsInitPass x a noEsvPass) r.1 r.2
    else
      let init := if !env.preallocPools then evstateInitPass env inPlace isExtev
        else evstatePreallocPass env inPlace isExtev
      (eachSlot (fun x a => needsInitPass x a init) r.1 r.2).bind fun r =>
        eachSlot (fun x a => needsInitPass x a fieldsPass) r.1 r.2

/-- `ev_hdrs[i] = odp_.._user_area(odp_..[i])` -/
def userAreas (xs : List Slot) : List Slot :=
  xs.map fun x => { x with evHdr := .userArea x.odp, needsInit := false }

def eventInitPktMulti (xs : List Slot) (m : Memory) : Except EvstateError (List Slot × Memory) :=
  evhdrInitPktMulti env inPlace isExtev (userAreas xs) m

/-- `evstate_em2usr_multi` -/
def evstateEm2usrMulti (xs : List Slot) (m : Memory) : Except EvstateError (List Slot × Memory) :=
  eachSlot (fun x a => (a.hdr.evstateEm2usr env .dispatchMulti x.event).map fun r =>
    (x.setEvent inPlace r.1,{ a with hdr := r.2 })) xs m

def eventInitBufMulti (xs : List Slot) (m : Memory) : Except EvstateError (List Slot × Memory) :=
  if !env.esvEnabled then .ok (userAreas xs,m)
  else if isExtev then evstateEm2usrMulti env inPlace (userAreas xs) m
  else eachSlot (fun x a => .ok (x.setEvent inPlace a.hdr.event,a)) (userAreas xs) m

/-- `events_odp2em` -/
def eventsOdp2em (xs : List Slot) : List Slot := xs.map fun x => { x with event := ⟨x.odp,0⟩ }

variable (dispQElem : Option Bool)

/-- The loop for the events that have no fast path -/
def eventInitRest : List Slot → Memory → Except EvstateError (List Slot × Memory)
  | [], m => .ok ([],m)
  | x :: xs, m => (eventInitOdp env isExtev dispQElem x.odp m).bind fun r =>
    (eventInitRest xs r.2).map fun rest => ({ x.setEvent inPlace r.1.1 with evHdr := r.1.2 } :: rest.1,rest.2)

/-- The helpers get arrays of their own for the packets and the buffers. -/
def eventInitOdpMulti : List Slot → Memory → Except EvstateError (List Slot × Memory)
  | [], m => .ok ([],m)
  | x :: xs, m =>
    let same := env.typeMulti ((x :: xs).map Slot.odp)
    let fast (f : List Slot → Memory → Except EvstateError (List Slot × Memory)) :=
      (f (eventsOdp2em ((x :: xs).take same)) m).bind fun r =>
        (eventInitRest env inPlace isExtev dispQElem ((x :: xs).drop same) r.2).map fun rest =>
          (r.1 ++ rest.1,rest.2)
    match env.type x.odp with
    | .packet => fast (eventInitPktMulti env none isExtev)
    | .buffer => fast (eventInitBufMulti env none isExtev)
    | _ => eventInitRest env inPlace isExtev dispQElem (x :: xs) m

end EmOdp.EventInit
