import EmOdp.EventState.Counters

/-! Event-state verification: the functions of the event-state API over an event's
header. `evstate_error` never returns, so an error ends the run. -/
namespace EmOdp.EventState
open EvstateCnt

/-- `evhdl_t` -/
@[ext] structure EvHdl where
  evptr : BitVec 48
  evgen : BitVec 16
  deriving DecidableEq, Repr

/-- The fields of `event_hdr_t` that the verification reads. -/
structure EvHdr where
  event : EvHdl
  stateCnt : EvstateCnt
  refsUsed : Bool
  /-- `event_type == EM_EVENT_TYPE_ODP` -/
  odpType : Bool
  deriving DecidableEq, Repr

inductive HelpStr where
  | em2usr | usr2em | usr2emRef
  deriving DecidableEq, Repr

/-- What is reported to `evstate_error`. -/
structure EvstateError where
  newCnt : EvstateCnt
  evhdl : EvHdl
  helpStr : HelpStr
  deriving DecidableEq, Repr

/-- The functions on one event, or an iteration of their `_multi` siblings. -/
inductive Variant where
  | single | multi
  deriving DecidableEq, Repr

def initCntAlloc : EvstateCnt := ofParts evgenInit 0 (refCntInit - 1) (0 + sendCntInit)
def initCntExtev : EvstateCnt := ofParts evgenInit 0 (refCntInit - 1) (1 + sendCntInit)

/-- What is subtracted at `EVGEN_MAX`, so that the generation does not wrap. -/
def evgenWrap : EvstateCnt := ofParts (evgenMax - evgenInit) 0 0 0

def cntSend : EvstateCnt := ofParts 1 0 0 1
def cntFree : EvstateCnt := ofParts 1 0 1 0
def cntDispatch : EvstateCnt := ofParts 0 0 0 1
def cntAlloc : EvstateCnt := ofParts 0 0 1 0

/-- `new_cnt.evgen -= 1` -/
def EvstateCnt.prevGen (c : EvstateCnt) : EvstateCnt :=
  ofParts (c.evgen - 1) c.rsvd c.refCnt c.sendCnt

def esvEvinit (event : EvHdl) (evHdr : EvHdr) (initCnt : EvstateCnt) : EvHdl × EvHdr :=
  let evhdl := { event with evgen := evgenInit }
  (evhdl,{ evHdr with event := evhdl, stateCnt := initCnt })

def esvEvinitExt (event : EvHdl) (evHdr : EvHdr) : EvHdl × EvHdr :=
  let cnt := initCntExtev.subFetch cntDispatch
  let evhdl := { event with evgen := cnt.evgen }
  (evhdl,{ evHdr with event := evhdl, stateCnt := cnt })

/-- The state check of `esv_em2usr`. -/
def EvstateCnt.em2usrError (newCnt : EvstateCnt) : Prop :=
  newCnt.sends ≥ newCnt.refs ∨ newCnt.sends < 0

/-- The state check of `esv_usr2em`, `newCnt` has the generation before the transition. -/
def EvstateCnt.usr2emError (newCnt : EvstateCnt) (refsUsed : Bool) (evhdl : EvHdl) : Prop :=
  (newCnt.sends > newCnt.refs ∨ newCnt.sends < 0) ∨ refsUsed = false ∧ evhdl.evgen ≠ newCnt.evgen

instance (newCnt : EvstateCnt) : Decidable newCnt.em2usrError :=
  inferInstanceAs (Decidable (_ ∨ _))

instance (newCnt : EvstateCnt) (refsUsed : Bool) (evhdl : EvHdl) :
    Decidable (newCnt.usr2emError refsUsed evhdl) :=
  inferInstanceAs (Decidable (_ ∨ _))

def esvEm2usr (event : EvHdl) (evHdr : EvHdr) (cnt : EvstateCnt) (isRevert : Bool) :
    Except EvstateError (EvHdl × EvHdr) :=
  let newCnt := if isRevert then evHdr.stateCnt.addFetch cnt else evHdr.stateCnt.subFetch cnt
  let evhdl := if evHdr.refsUsed then event else { event with evgen := newCnt.evgen }
  if newCnt.em2usrError then .error ⟨newCnt,evhdl,.em2usr⟩
  else .ok (evhdl,{ evHdr with
    event := if evHdr.refsUsed then evHdr.event else evhdl
    stateCnt := newCnt })

def esvUsr2em (v : Variant) (event : EvHdl) (evHdr : EvHdr) (cnt : EvstateCnt) (isRevert : Bool) :
    Except EvstateError EvHdr :=
  let refsUsed := evHdr.refsUsed
  let (stateCnt,newCnt) :=
    if isRevert then
      let newCnt := evHdr.stateCnt.subFetch cnt
      let newCnt := if newCnt.evgen = evgenInit - 1 then newCnt.addFetch evgenWrap else newCnt
      (newCnt,newCnt)
    else
      let newCnt := evHdr.stateCnt.addFetch cnt
      -- the counter restarts, the check is against the count before
      (if newCnt.evgen = evgenMax then newCnt.subFetch evgenWrap else newCnt,newCnt.prevGen)
  if newCnt.usr2emError refsUsed event then
    .error ⟨newCnt,event,if v = .single ∧ refsUsed then .usr2emRef else .usr2em⟩
  else .ok { evHdr with stateCnt }

section Api
variable (v : Variant) (event : EvHdl) (evHdr : EvHdr)

def evstatePrealloc : EvHdl × EvHdr := esvEvinit event evHdr initCntAlloc

/-- `evstate_alloc`, and `evstate_alloc_multi` for each of its events -/
def evstateAlloc (preallocPools : Bool) : Except EvstateError (EvHdl × EvHdr) :=
  if !preallocPools || evHdr.refsUsed then .ok (esvEvinit event evHdr initCntAlloc)
  else esvEm2usr event evHdr cntAlloc false

def evstateRef : Except EvstateError (EvHdl × EvHdr) := esvEm2usr event evHdr cntAlloc false

/-- The multi variant leaves an external event with EM, the other one gives it to the user. -/
def evstateInit (isExtev : Bool) : EvHdl × EvHdr :=
  match v with
  | .single => if isExtev then esvEvinitExt event evHdr else esvEvinit event evHdr initCntAlloc
  | .multi => esvEvinit event evHdr (if isExtev then initCntExtev else initCntAlloc)

/-- Only the multi variant looks for raw ODP events. -/
def evstateFree : Except EvstateError EvHdr :=
  if v = .multi ∧ evHdr.odpType then .ok evHdr else esvUsr2em v event evHdr cntFree false

def evstateFreeRevert : Except EvstateError EvHdr :=
  if v = .multi ∧ evHdr.odpType then .ok evHdr else esvUsr2em v event evHdr cntFree true

def evstateEm2usr : Except EvstateError (EvHdl × EvHdr) :=
  if evHdr.odpType then .ok (event,evHdr) else esvEm2usr event evHdr cntDispatch false

def evstateEm2usrRevert : Except EvstateError (EvHdl × EvHdr) :=
  if evHdr.odpType then .ok (event,evHdr) else esvEm2usr event evHdr cntDispatch true

def evstateUsr2em : Except EvstateError EvHdr :=
  if evHdr.odpType then .ok evHdr else esvUsr2em v event evHdr cntSend false

def evstateUsr2emRevert : Except EvstateError EvHdr :=
  if evHdr.odpType then .ok evHdr else esvUsr2em v event evHdr cntSend true

end Api
end EmOdp.EventState
