import Mathlib.Data.Fintype.BigOperators
import EmOdp.EventState.Ownership

/-! References to one event, used by any number of cores. Every atomic access of the
counters is a step; generations are not compared once `refs_used` is set. -/
namespace EmOdp.EventState
open Lib EvstateCnt

namespace Ref

/-- Where a core is in a call that concerns the event. -/
inductive Pc where
  | idle
  /-- in `esv_usr2em` of a send, the generation is still to be restarted -/
  | sendFix
  /-- counted as sent, the result of the enqueue is next -/
  | sent
  /-- in `esv_usr2em` of a revert, the generation is still to be set back -/
  | revertFix
  /-- in `esv_usr2em` of a free, the generation is still to be restarted -/
  | freeFix
  deriving DecidableEq, Repr

/-- The core's reference is counted as sent but not in a queue. -/
def Pc.sending : Pc → Nat
  | .sendFix | .sent => 1
  | .idle | .revertFix | .freeFix => 0

structure State (ι : Type) where
  stateCnt : EvstateCnt
  /-- all references have one handle -/
  event : EvHdl
  pc : ι → Pc
  /-- references in queues -/
  queued : Nat
  /-- ghost: references owned by the users on a core -/
  held : ι → Nat
  /-- ghost: calls of `em_event_ref` -/
  created : Nat
  /-- ghost: calls of `evstate_free` -/
  frees : Nat
  /-- the check of a call has failed, it ends in `evstate_error` -/
  error : Bool

inductive Label (ι : Type) where
  | ref (c : ι)
  | send (c : ι)
  | free (c : ι)
  /-- the send succeeds -/
  | enqueue (c : ι)
  /-- the send fails, `evstate_usr2em_revert` follows -/
  | revert (c : ι)
  /-- the second access of a send, free or revert -/
  | fix (c : ι)
  | dispatch (c : ι)
  deriving DecidableEq, Repr

variable {ι : Type} [DecidableEq ι]

namespace State
variable (s : State ι)

def setPc (c : ι) (pc : Pc) : State ι := { s with pc := Function.update s.pc c pc }
def acquire (c : ι) : State ι := { s with held := Function.update s.held c (s.held c + 1) }
def give (c : ι) : State ι := { s with held := Function.update s.held c (s.held c - 1) }

/-- An update with the check of `esv_em2usr`. -/
def em2usr (newCnt : EvstateCnt) : State ι :=
  { s with stateCnt := newCnt, error := decide newCnt.em2usrError }

/-- An update with the check of `esv_usr2em` on the counters `checked`. -/
def usr2em (newCnt checked : EvstateCnt) : State ι :=
  { s with stateCnt := newCnt, error := decide (checked.usr2emError true s.event) }

/-- An access or a return of a core, whoever owns the references. -/
def step : Label ι → Option (State ι)
  | .ref c =>
    if s.error = false ∧ s.pc c = .idle then
      some { (s.em2usr (s.stateCnt.subFetch cntAlloc)).acquire c with created := s.created + 1 }
    else none
  | .send c =>
    if s.error = false ∧ s.pc c = .idle then
      let newCnt := s.stateCnt.addFetch cntSend
      some (((s.usr2em newCnt newCnt.prevGen).give c).setPc c
        (if newCnt.evgen = evgenMax then .sendFix else .sent))
    else none
  | .free c =>
    if s.error = false ∧ s.pc c = .idle then
      let newCnt := s.stateCnt.addFetch cntFree
      some { ((s.usr2em newCnt newCnt.prevGen).give c).setPc c
        (if newCnt.evgen = evgenMax then .freeFix else .idle) with frees := s.frees + 1 }
    else none
  | .enqueue c =>
    if s.error = false ∧ s.pc c = .sent then
      some { s.setPc c .idle with queued := s.queued + 1 }
    else none
  | .revert c =>
    if s.error = false ∧ s.pc c = .sent then
      let newCnt := s.stateCnt.subFetch cntSend
      -- the check is made after the second access, if there is one
      if newCnt.evgen = evgenInit - 1 then
        some ({ s.acquire c with stateCnt := newCnt }.setPc c .revertFix)
      else some (((s.usr2em newCnt newCnt).acquire c).setPc c .idle)
    else none
  | .fix c =>
    if s.error = false then
      match s.pc c with
      | .sendFix => some ({ s with stateCnt := s.stateCnt.subFetch evgenWrap }.setPc c .sent)
      | .freeFix => some ({ s with stateCnt := s.stateCnt.subFetch evgenWrap }.setPc c .idle)
      | .revertFix =>
        let newCnt := s.stateCnt.addFetch evgenWrap
        some ((s.usr2em newCnt newCnt).setPc c .idle)
      | .idle | .sent => none
    else none
  | .dispatch c =>
    if s.error = false ∧ s.pc c = .idle ∧ 0 < s.queued then
      some { (s.em2usr (s.stateCnt.subFetch cntDispatch)).acquire c with queued := s.queued - 1 }
    else none

end State

/-- The sole owner of an event sets `refs_used`, in the call of `em_event_ref` that makes
the first reference; the event had a run without references before. -/
structure Initial (preallocPools : Bool) (s : State ι) : Prop where
  owner : ∃ o, (machine preallocPools).Reachable o ∧ o.owner = .user ∧
    s.stateCnt = o.hdr.stateCnt ∧ s.event = o.handle
  idle : ∀ c, s.pc c = .idle
  queued : s.queued = 0
  held : ∃ c, ∀ c', s.held c' = if c' = c then 1 else 0
  created : s.created = 0
  frees : s.frees = 0
  error : s.error = false

def refMachine (ι : Type) [DecidableEq ι] (preallocPools : Bool) : System (State ι) (Label ι) :=
  .ofFn (Initial preallocPools) State.step

end Ref
end EmOdp.EventState
