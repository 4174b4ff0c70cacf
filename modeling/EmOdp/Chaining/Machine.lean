import Mathlib.Logic.Function.Basic
import EmOdp.Lib.TransitionSystem
import EmOdp.EventGroup.Counter

/-! Event groups whose events leave EM by event chaining: any number of cores dispatch
events of the groups, send events of the groups to another device, and apply, increment and
abort the groups. -/
namespace EmOdp.Chaining
open Lib EventGroup

/-- `locm->current.egrp_elem` and `egrp_gen` -/
@[ext] structure Current (γ : Type) where
  egrpElem : Option γ := none
  egrpGen : Gen := 0
  deriving DecidableEq

/-- What `send_chaining` finds: the output queues for ordered chaining, the context, and
how many events `event_send_device` or the output queue accepts. -/
structure Outcome where
  numOutputQueues : Nat := 0
  orderedContext : Bool := false
  device : Nat
  outputQueue : Nat := 0
  deriving DecidableEq, Repr

/-- `send_chaining`, `send_chaining_multi`: the number of events reported as sent. A single
event is sent or not, by the status. -/
def Outcome.sendChaining (o : Outcome) : Nat :=
  if o.numOutputQueues = 0 ∨ !o.orderedContext then o.device else o.outputQueue

inductive CallPc where
  /-- the headers are tagged and the current event group is saved -/
  | tagged
  /-- `event_group_set_local` has returned -/
  | setLocal
  | sent (numSent : Nat)
  deriving DecidableEq, Repr

/-- A core in `send_chaining_egrp` or `send_chaining_egrp_multi`, with `num` events of the
group. -/
structure Call (γ : Type) where
  egrp : γ
  egrpGen : Gen
  num : Nat
  saved : Current γ
  pc : CallPc
  deriving DecidableEq

/-- The number of events that the call has sent. -/
def Call.numSent {γ : Type} (k : Call γ) : Nat :=
  match k.pc with
  | .sent numSent => numSent
  | _ => 0

structure Core (γ : Type) where
  current : Current γ := {}
  /-- `rcv_multi_cnt` of the dispatch round the core is in -/
  round : Option Nat := none
  call : Option (Call γ) := none
  deriving DecidableEq

/-- Where the events of a group are since it was applied; a ghost. -/
@[ext] structure Account where
  events : Nat := 0
  processed : Nat := 0
  left : Nat := 0
  deriving DecidableEq, Repr

structure State (ι γ : Type) where
  counts : γ → EgrpCounter
  core : ι → Core γ
  account : γ → Account
  /-- the account of a group each time its notifications were sent; a ghost -/
  completed : List Account

variable {ι γ : Type} [DecidableEq ι] [DecidableEq γ]

namespace State
variable (s : State ι γ)

def setCore (c : ι) (k : Core γ) : State ι γ := { s with core := Function.update s.core c k }

def setCurrent (c : ι) (current : Current γ) : State ι γ := s.setCore c { s.core c with current }

def setAccount (egrp : γ) (a : Account) : State ι γ :=
  { s with account := Function.update s.account egrp a }

/-- `event_group_set_local` -/
def eventGroupSetLocal (c : ι) (egrp : γ) (egrpGen : Gen) (decr : Nat) : State ι γ :=
  match (s.counts egrp).preCountDecrement decr egrpGen with
  | none => s.setCurrent c { (s.core c).current with egrpElem := none }
  | some w =>
    { s with counts := Function.update s.counts egrp w }.setCurrent c ⟨some egrp,egrpGen⟩

/-- `event_group_count_decrement` for the current group `egrp` of core `c`; `a` is the
account of the group where its events have been counted. -/
def eventGroupCountDecrement (c : ι) (egrp : γ) (decr : Nat) (a : Account) : State ι γ :=
  match (s.counts egrp).postCountDecrement decr (s.core c).current.egrpGen with
  | none => s
  | some w =>
    { s with
      counts := Function.update s.counts egrp w
      -- the last event sends the notifications
      completed := if w.postCnt = 0 then a :: s.completed else s.completed }

/-- The events of a dispatch round are counted: at its end, in
`em_event_group_processing_end`. -/
def countProcessed (c : ι) (rcvMultiCnt : Nat) : State ι γ :=
  match (s.core c).current.egrpElem with
  | none => s
  | some egrp =>
    let a := { s.account egrp with processed := (s.account egrp).processed + rcvMultiCnt }
    if (s.counts egrp).validPostCnt rcvMultiCnt (s.core c).current.egrpGen then
      (s.eventGroupCountDecrement c egrp rcvMultiCnt a).setAccount egrp a
    else s.eventGroupCountDecrement c egrp rcvMultiCnt a

/-- The end of `send_chaining_egrp`: the events are counted and the current event group
is restored. -/
def returnSent (c : ι) (k : Call γ) (numSent : Nat) : State ι γ :=
  let a := { s.account k.egrp with left := (s.account k.egrp).left + numSent }
  let t := match (s.core c).current.egrpElem with
    | none => s
    | some egrp => s.eventGroupCountDecrement c egrp k.num a
  (t.setAccount k.egrp a).setCore c { s.core c with current := k.saved, call := none }

end State

inductive Label (ι γ : Type) where
  /-- the dispatcher begins a round with `num` events of the tag, none without a group -/
  | receive (c : ι) (tag : Option (γ × Gen)) (num : Nat)
  | processingEnd (c : ι)
  | assign (c : ι) (egrp : γ)
  | roundEnd (c : ι)
  /-- `em_send_group` or `em_send_group_multi` to a queue of another device -/
  | send (c : ι) (egrp : γ) (num : Nat)
  | setLocal (c : ι)
  | sendDevice (c : ι) (outcome : Outcome)
  | returned (c : ι)
  | apply (egrp : γ) (count : Nat)
  | increment (c : ι) (count : Nat)
  | abort (c : ι) (egrp : γ)

namespace State

def step (s : State ι γ) : Label ι γ → Option (State ι γ)
  | .receive c tag num =>
    if (s.core c).round = none ∧ (s.core c).call = none ∧ 0 < num then
      let t := s.setCore c { s.core c with round := some num }
      match tag with
      | none => some t
      | some (egrp,egrpGen) => some (t.eventGroupSetLocal c egrp egrpGen num)
    else none
  | .processingEnd c =>
    match (s.core c).call, (s.core c).round with
    | none, some num =>
      some ((s.countProcessed c num).setCurrent c { (s.core c).current with egrpElem := none })
    | _, _ => none
  | .assign c egrp =>
    match (s.core c).call, (s.core c).round, (s.core c).current.egrpElem with
    | none, some num, none =>
      match (s.counts egrp).emEventGroupAssign num with
      | none => some s
      | some w =>
        some ({ s with counts := Function.update s.counts egrp w }.setCurrent c ⟨some egrp,w.gen⟩)
    | _, _, _ => none
  | .roundEnd c =>
    match (s.core c).call, (s.core c).round with
    | none, some num =>
      some ((s.countProcessed c num).setCore c
        { s.core c with current := { (s.core c).current with egrpElem := none }, round := none })
    | _, _ => none
  | .send c egrp num =>
    if (s.core c).call = none ∧ 0 < num then
      some (s.setCore c { s.core c with
        call := some ⟨egrp,(s.counts egrp).gen,num,(s.core c).current,.tagged⟩ })
    else none
  | .setLocal c =>
    match (s.core c).call with
    | some ⟨egrp,egrpGen,num,saved,.tagged⟩ =>
      some ((s.setCore c { s.core c with
        call := some ⟨egrp,egrpGen,num,saved,.setLocal⟩ }).eventGroupSetLocal c egrp egrpGen num)
    | _ => none
  | .sendDevice c outcome =>
    match (s.core c).call with
    | some ⟨egrp,egrpGen,num,saved,.setLocal⟩ =>
      if outcome.sendChaining ≤ num then
        some (s.setCore c { s.core c with
          call := some ⟨egrp,egrpGen,num,saved,.sent outcome.sendChaining⟩ })
      else none
    | _ => none
  | .returned c =>
    match (s.core c).call with
    | some ⟨egrp,egrpGen,num,saved,.sent numSent⟩ =>
      some (s.returnSent c ⟨egrp,egrpGen,num,saved,.sent numSent⟩ numSent)
    | _ => none
  | .apply egrp count =>
    if 0 < count ∧ count ≤ egrpCntMax then
      match (s.counts egrp).emEventGroupApply count with
      | none => some s
      | some w =>
        some ({ s with counts := Function.update s.counts egrp w }.setAccount egrp
          { events := count })
    else none
  | .increment c count =>
    match (s.core c).current.egrpElem with
    | none => some s
    | some egrp =>
      if 0 < count ∧ count ≤ egrpCntMax - 1 then
        match (s.counts egrp).emEventGroupIncrement count (s.core c).current.egrpGen with
        | none => some s
        | some w =>
          some ({ s with counts := Function.update s.counts egrp w }.setAccount egrp
            { s.account egrp with events := (s.account egrp).events + count })
      else none
  | .abort c egrp =>
    match (s.counts egrp).emEventGroupAbort with
    | none => some s
    | some w =>
      let t := { s with counts := Function.update s.counts egrp w }
      if (s.core c).current.egrpElem = some egrp then
        some (t.setCurrent c { (s.core c).current with egrpElem := none })
      else some t

end State

/-- No group is applied and no core is in a round or a call. -/
structure Initial (s : State ι γ) : Prop where
  counts : ∀ g, (s.counts g).preCnt = 0 ∧ (s.counts g).postCnt = 0 ∧ (s.counts g).applied = false
  cores : ∀ c, s.core c = {}
  completed : s.completed = []

def machine (ι γ : Type) [DecidableEq ι] [DecidableEq γ] : System (State ι γ) (Label ι γ) :=
  .ofFn Initial State.step

end EmOdp.Chaining
