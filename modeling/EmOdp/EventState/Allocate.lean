import EmOdp.EventState.NoFalsePositive

/-! New use of an event header: allocation by EM, and packets received from outside. A
packet that had references before it was freed starts anew. -/
namespace EmOdp.EventState
open EvstateCnt

/-- `esv_update_ext`: allocation and a send in one access. -/
def esvUpdateExt (event : EvHdl) (evHdr : EvHdr) : Except EvstateError (EvHdl × EvHdr) :=
  let newCnt : EvstateCnt :=
    ⟨evHdr.stateCnt.u64 + ((ofParts 1 0 0 0).u64 - (ofParts 0 0 1 0).u64)⟩
  let newCnt := if newCnt.evgen = evgenMax then newCnt.subFetch evgenWrap else newCnt
  let evhdl := if evHdr.refsUsed then event else { event with evgen := newCnt.evgen }
  if newCnt.em2usrError then .error ⟨newCnt,evhdl,.em2usr⟩
  else .ok (evhdl,{ evHdr with
    event := if evHdr.refsUsed then evHdr.event else evhdl
    stateCnt := newCnt })

def evstateUpdate (event : EvHdl) (evHdr : EvHdr) (isExtev : Bool) :
    Except EvstateError (EvHdl × EvHdr) :=
  if isExtev then esvUpdateExt event evHdr else esvEm2usr event evHdr cntAlloc false

/-- `ev_hdr->flags.all = 0` -/
def EvHdr.clearFlags (evHdr : EvHdr) : EvHdr := { evHdr with refsUsed := false }

section
variable (preallocPools : Bool) (event : EvHdl) (evHdr : EvHdr)

/-- What `event_alloc`, `em_event_clone` and, for each event, the `event_alloc_.._multi`
functions do to the header. -/
def eventAlloc : Except EvstateError (EvHdl × EvHdr) :=
  (evstateAlloc event evHdr preallocPools).map fun r => (r.1,r.2.clearFlags)

/-- `evhdr_init_pkt`, for a packet of an EM pool if `emPool` is set. -/
def evhdrInitPkt (emPool userFlagSet isExtev : Bool) : Except EvstateError (EvHdl × EvHdr) :=
  if userFlagSet then
    if isExtev then evstateEm2usr evHdr.event evHdr else .ok (evHdr.event,evHdr)
  else
    let evHdr := { evHdr with odpType := false }
    (if !preallocPools || evHdr.refsUsed then .ok (evstateInit .single event evHdr isExtev)
      else if !emPool then .ok (evstateInit .single event evHdr isExtev)
      else evstateUpdate event evHdr isExtev).map fun r => (r.1,r.2.clearFlags)

/-- What `evhdr_init_pkt_multi` does for each packet; the event type is set last. -/
def evhdrInitPktMulti (emPool userFlagSet isExtev : Bool) : Except EvstateError (EvHdl × EvHdr) :=
  if userFlagSet then
    if isExtev then evstateEm2usr evHdr.event evHdr else .ok (evHdr.event,evHdr)
  else
    (if !preallocPools then .ok (evstateInit .single event evHdr isExtev)
      else if !emPool || evHdr.refsUsed then .ok (evstateInit .single event evHdr isExtev)
      else evstateUpdate event evHdr isExtev).map
        fun r => (r.1,{ r.2.clearFlags with odpType := false })

end

variable {preallocPools emPool isExtev : Bool} {event : EvHdl} {evHdr : EvHdr}

/-- The state of an event that has just been allocated and initialised. -/
structure Fresh (r : EvHdl × EvHdr) : Prop where
  event : r.2.event = r.1
  evgen : r.1.evgen = evgenInit
  stateCnt : r.2.stateCnt = initCntAlloc
  refsUsed : r.2.refsUsed = false

private theorem evstateInit_fresh (event : EvHdl) (evHdr : EvHdr) (isExtev : Bool) :
    evstateInit .single event evHdr isExtev = esvEvinit event evHdr initCntAlloc := by
  cases isExtev
  · rfl
  · exact evinitExt_eq event evHdr

/-- A header whose event had references is initialised on every path. -/
theorem fresh_of_refsUsed (h : evHdr.refsUsed = true) :
    (∃ r, eventAlloc preallocPools event evHdr = .ok r ∧ Fresh r) ∧
    (∃ r, evhdrInitPkt preallocPools event evHdr emPool false isExtev = .ok r ∧ Fresh r) ∧
    ∃ r, evhdrInitPktMulti preallocPools event evHdr emPool false isExtev = .ok r ∧ Fresh r := by
  refine ⟨?_,?_,?_⟩
  · simp only [eventAlloc, evstateAlloc, h, Bool.or_true, if_true]
    exact ⟨_,rfl,rfl,rfl,rfl,rfl⟩
  · simp only [evhdrInitPkt, h, Bool.or_true, if_true, Bool.false_eq_true, if_false,
      evstateInit_fresh]
    exact ⟨_,rfl,rfl,rfl,rfl,rfl⟩
  · simp only [evhdrInitPktMulti, h, Bool.or_true, if_true, Bool.false_eq_true, if_false,
      evstateInit_fresh, ite_self]
    exact ⟨_,rfl,rfl,rfl,rfl,rfl⟩

end EmOdp.EventState
