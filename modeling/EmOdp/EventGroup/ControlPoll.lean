import EmOdp.EventGroup.Counter
import Mathlib.Logic.Function.Basic

/-! The dispatch rounds that a blocking call simulates inside an EO-receive, and
their operations on the core's event groups. Other cores may rewrite the counter
words between any two operations of this core. -/
namespace EmOdp.EventGroup.ControlPoll

def emMaxEventGroups : Nat := 1024

abbrev EmEventGroup := BitVec 64
def emEventGroupUndef : EmEventGroup := 0

/-- `egrp_hdl2idx` then the range check: `none` for the undefined and any invalid handle. -/
def eventGroupElemGet (eventGroup : EmEventGroup) : Option (Fin emMaxEventGroups) :=
  let egrpIdx : BitVec 32 := (eventGroup - 1).setWidth 32
  if h : egrpIdx.toNat < emMaxEventGroups then some ⟨egrpIdx.toNat,h⟩ else none

abbrev Counts := Fin emMaxEventGroups → EgrpCounter

/-- The header of a control event, with what the other cores and the event's own
handler do to the words before and during its handling. -/
structure CtrlEvent where
  egrp : EmEventGroup
  egrpGen : Gen
  before : Counts → Counts := id
  during : Counts → Counts := id

inductive SchedContextType where
  | none
  | parallel
  | atomic
  | ordered
  deriving DecidableEq, Repr

/-- `em_locm_current_t`; a queue element is named by its index. -/
structure LocmCurrent where
  schedContextType : SchedContextType
  rcvMultiCnt : Nat
  qElem : Option Nat
  schedQElem : Option Nat
  egrpElem : Option (Fin emMaxEventGroups)
  egrpGen : Gen
  deriving DecidableEq, Repr

inductive OpKind where
  | pre
  | post
  deriving DecidableEq, Repr

/-- A ghost record of one `pre_count_decrement` or `event_group_count_decrement`;
`event` is the header of the control event it was made for. -/
structure WordOp where
  kind : OpKind
  egrpElem : Fin emMaxEventGroups
  decr : Nat
  old : EgrpCounter
  new : EgrpCounter
  event : Option EmEventGroup
  deriving DecidableEq, Repr

structure Locm where
  counts : Counts
  current : LocmCurrent
  ops : List WordOp := []

/-- Queue elements of the core's own and of the shared control queue. -/
structure CtrlPoll where
  thrUnschedQelem : Nat
  sharedUnschedQelem : Nat

/-- What the two dequeues of a polling round return. -/
structure Round where
  thrEvTbl : List CtrlEvent
  sharedEvTbl : List CtrlEvent

def Round.events (r : Round) : List CtrlEvent := r.thrEvTbl ++ r.sharedEvTbl

namespace Locm

def interfere (s : Locm) (f : Counts → Counts) : Locm := { s with counts := f s.counts }

/-- A compare-exchange loop on one word, at the exchange that succeeds or the load that fails. -/
def update (s : Locm) (kind : OpKind) (egrpElem : Fin emMaxEventGroups) (decr : Nat)
    (event : Option EmEventGroup) (new : Option EgrpCounter) : Locm :=
  { s with
    counts := Function.update s.counts egrpElem (new.getD (s.counts egrpElem))
    ops := s.ops ++
      [⟨kind,egrpElem,decr,s.counts egrpElem,new.getD (s.counts egrpElem),event⟩] }

def eventGroupSetLocal (s : Locm) (ev : CtrlEvent) (decr : Nat) : Locm :=
  if ev.egrp = emEventGroupUndef then s
  else match eventGroupElemGet ev.egrp with
    | none => s
    | some egrpElem =>
      let new := (s.counts egrpElem).preCountDecrement decr ev.egrpGen
      let s := s.update .pre egrpElem decr (some ev.egrp) new
      if new.isNone then { s with current := { s.current with egrpElem := none } }
      else { s with current := { s.current with
        egrpElem := some egrpElem, egrpGen := ev.egrpGen } }

/-- `event_group_count_decrement` on the current group, then no group is current. -/
def countDecrementCurrent (s : Locm) (decr : Nat) (event : Option EmEventGroup) : Locm :=
  match s.current.egrpElem with
  | none => s
  | some egrpElem =>
    let new := (s.counts egrpElem).postCountDecrement decr s.current.egrpGen
    let s := s.update .post egrpElem decr event new
    { s with current := { s.current with egrpElem := none } }

/-- One iteration of `handle_ctrl_events`. -/
def handleCtrlEvent (s : Locm) (ev : CtrlEvent) : Locm :=
  (((s.interfere ev.before).eventGroupSetLocal ev 1).interfere ev.during).countDecrementCurrent 1
    (some ev.egrp)

def handleCtrlEvents (s : Locm) (evTbl : List CtrlEvent) : Locm := evTbl.foldl handleCtrlEvent s

def setQElem (s : Locm) (qElem : Nat) : Locm :=
  { s with current := { s.current with qElem := some qElem, schedQElem := some qElem } }

def pollRound (p : CtrlPoll) (s : Locm) (r : Round) : Locm :=
  let s := if r.thrEvTbl = [] then s
    else (s.setQElem p.thrUnschedQelem).handleCtrlEvents r.thrEvTbl
  if r.sharedEvTbl = [] then s
  else (s.setQElem p.sharedUnschedQelem).handleCtrlEvents r.sharedEvTbl

def pollLoop (p : CtrlPoll) (s : Locm) : List Round → Locm
  | [] => s
  | r :: rounds => if r.events.isEmpty then s else pollLoop p (s.pollRound p r) rounds

/-- `poll_unsched_ctrl_queue` saves `current` in the first round with events. -/
def pollUnschedCtrlQueue (p : CtrlPoll) (s : Locm) (rounds : List Round) : Locm :=
  match rounds with
  | [] => s
  | r :: _ =>
    if r.events.isEmpty then s
    else
      let t := { s with current := { s.current with
        rcvMultiCnt := 1, schedContextType := SchedContextType.none } }
      { t.pollLoop p rounds with current := s.current }

/-- What is left of an EO-receive that polls: each blocking call polls any number
of times, then the dispatcher counts the `num_events` it stored in `rcv_multi_cnt`. -/
def restOfReceive (p : CtrlPoll) (s : Locm) (polls : List (List Round))
    (atReturn : Counts → Counts) : Locm :=
  ((polls.foldl (pollUnschedCtrlQueue p) s).interfere atReturn).countDecrementCurrent
    s.current.rcvMultiCnt none

end Locm

end EmOdp.EventGroup.ControlPoll
