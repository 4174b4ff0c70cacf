import EmOdp.Lib.TransitionSystem
import EmOdp.Lib.CycleLatch
import EmOdp.EventGroup.Counter

/-! Any number of cores acting on one event group. Every load and every
compare-exchange of `egrp_elem->counts` is a step of its own. -/
namespace EmOdp.EventGroup
open Lib

def emEventGroupMaxNotif : Nat := 6

/-- The `egrp_gen` an event is tagged with. The number of applies up to then is a
ghost: no test reads `epoch`. -/
structure Tag where
  egrpGen : Gen
  epoch : Nat
  deriving DecidableEq, Repr

/-- `locm->current.egrp_elem` and `egrp_gen`, as seen from one group. -/
inductive Current where
  | null
  | this (tag : Tag)
  | other
  deriving DecidableEq, Repr

inductive Phase where
  | dispatcher
  | receive (numEvents : Nat)
  /-- back in the dispatcher, which counts the received events -/
  | returned
  deriving DecidableEq, Repr

inductive Op (Notif : Type) where
  | setLocal (tag : Tag) (decr : Nat)
  | countDecrement (tag : Tag) (decr : Nat)
  | apply (count : Nat) (notifTbl : List Notif)
  | increment (tag : Tag) (incr : Nat)
  | assign (numEvents : Nat)
  | abort
  deriving DecidableEq, Repr

/-- An operation inside its loop; `seen` holds the loaded word and the copied
notifications until the compare-exchange. -/
structure Pending (Notif : Type) where
  op : Op Notif
  seen : Option (EgrpCounter × List Notif) := none
  deriving DecidableEq, Repr

structure Core (Notif : Type) where
  phase : Phase := .dispatcher
  current : Current := .null
  rcvMultiCnt : Nat := 0
  pending : Option (Pending Notif) := none
  deriving DecidableEq, Repr

/-- What the successful compare-exchanges did; a ghost. -/
inductive Obs (Notif : Type) where
  | applied (count : Nat)
  | incremented (incr : Nat)
  | postDecremented (decr : Nat)
  | handedOut (notifTbl : List Notif)
  | aborted
  deriving DecidableEq, Repr

structure State (ι Notif : Type) where
  counts : EgrpCounter
  notifTbl : List Notif
  core : ι → Core Notif
  /-- tags carried by events that were sent with the group -/
  tagged : List Tag
  epoch : Nat
  hist : List (Nat × Obs Notif)

/-- The group an event header names. -/
inductive Header where
  | undef
  | this (tag : Tag)
  | other (validPrecnt : Bool)
  deriving DecidableEq, Repr

inductive Call (Notif : Type) where
  | receive (egrp : Header) (numEvents : Nat)
  | rcvReturn
  | processingEnd
  | apply (count : Int) (notifTbl : List Notif)
  | increment (count : Int)
  | assign
  | assignOther (validPrecnt : Bool)
  | abort
  | abortOther
  deriving DecidableEq, Repr

inductive Label (ι Notif : Type) where
  | tag
  | call (c : ι) (f : Call Notif)
  | load (c : ι)
  | cas (c : ι)
  deriving DecidableEq, Repr

variable {ι Notif : Type}

namespace Op

def body : Op Notif → EgrpCounter → Option EgrpCounter
  | .setLocal tag decr, w => w.preCountDecrement decr tag.egrpGen
  | .countDecrement tag decr, w => w.postCountDecrement decr tag.egrpGen
  | .apply count _, w => w.emEventGroupApply count
  | .increment tag incr, w => w.emEventGroupIncrement incr tag.egrpGen
  | .assign numEvents, w => w.emEventGroupAssign numEvents
  | .abort, w => w.emEventGroupAbort

/-- `em_event_group_apply` stores the notifications before its compare-exchange. -/
def storeNotifs : Op Notif → List Notif → List Notif
  | .apply _ notifTbl, _ => notifTbl
  | _, old => old

/-- `post_count_decrement` copies the notifications before its compare-exchange. -/
def copyNotifs : Op Notif → EgrpCounter → List Notif → List Notif
  | .countDecrement .., new, notifTbl =>
    if new.postCnt = 0 then notifTbl.take emEventGroupMaxNotif else []
  | _, _, _ => []

def observe : Op Notif → EgrpCounter → List Notif → List (Obs Notif)
  | .countDecrement _ decr, new, notifTbl =>
    if new.postCnt = 0 then [.handedOut notifTbl, .postDecremented decr]
    else [.postDecremented decr]
  | .apply count _, _, _ => [.applied count]
  | .increment _ incr, _, _ => [.incremented incr]
  | .abort, _, _ => [.aborted]
  | .setLocal .., _, _ => []
  | .assign _, _, _ => []

def nextEpoch : Op Notif → Nat → Nat
  | .apply .., epoch => epoch+1
  | _, epoch => epoch

end Op

namespace Core

/-- The core after its operation returned early. -/
def fail (c : Core Notif) : Op Notif → Core Notif
  | .setLocal _ decr => { c with pending := none, current := .null, phase := .receive decr }
  | .countDecrement .. => { c with
      pending := none, current := .null
      phase := if c.phase = .returned then .dispatcher else c.phase }
  | _ => { c with pending := none }

/-- The core after the compare-exchange of its operation stored a word with tag `now`. -/
def succeed (c : Core Notif) (now : Tag) : Op Notif → Core Notif
  | .setLocal tag decr => { c with pending := none, current := .this tag, phase := .receive decr }
  | .countDecrement .. => { c with
      pending := none, current := .null
      phase := if c.phase = .returned then .dispatcher else c.phase }
  | .assign _ => { c with pending := none, current := .this now }
  | .abort => { c with
      pending := none
      current := match c.current with
        | .this _ => .null
        | current => current }
  | _ => { c with pending := none }

/-- The part of a call before its first access of the word. A call the caller must
not make there is `none`. -/
def call (c : Core Notif) : Call Notif → Option (Core Notif)
  | .receive egrp numEvents =>
    if c.phase = .dispatcher ∧ 0 < numEvents then
      match egrp with
      | .undef => some { c with rcvMultiCnt := numEvents, phase := .receive numEvents }
      | .other validPrecnt => some { c with
          rcvMultiCnt := numEvents, phase := .receive numEvents
          current := if validPrecnt then .other else .null }
      | .this tag => some { c with
          rcvMultiCnt := numEvents, pending := some ⟨.setLocal tag numEvents,none⟩ }
    else none
  | .rcvReturn =>
    match c.phase, c.current with
    | .receive numEvents, .this tag =>
      some { c with phase := .returned, pending := some ⟨.countDecrement tag numEvents,none⟩ }
    | .receive _, _ => some { c with phase := .dispatcher, current := .null }
    | _, _ => none
  | .processingEnd =>
    match c.current with
    | .null => some c
    | .this tag => some { c with pending := some ⟨.countDecrement tag c.rcvMultiCnt,none⟩ }
    | .other => some { c with current := .null }
  | .apply count notifTbl =>
    if count ≤ 0 ∨ (egrpCntMax : Int) < count then some c
    else some { c with pending := some ⟨.apply count.toNat notifTbl,none⟩ }
  | .increment count =>
    match c.current with
    | .this tag =>
      if count ≤ 0 ∨ (egrpCntMax : Int)-1 < count then some c
      else some { c with pending := some ⟨.increment tag count.toNat,none⟩ }
    | _ => some c
  | .assign =>
    match c.phase with
    | .receive _ =>
      if c.current = .null then some { c with pending := some ⟨.assign c.rcvMultiCnt,none⟩ }
      else some c
    | _ => none
  | .assignOther validPrecnt =>
    match c.phase with
    | .receive _ =>
      if c.current = .null ∧ validPrecnt then some { c with current := .other } else some c
    | _ => none
  | .abort => some { c with pending := some ⟨.abort,none⟩ }
  | .abortOther => some { c with current := if c.current = .other then .null else c.current }

/-- Tags of this group the core is handling. -/
def tags (c : Core Notif) : List Tag :=
  (match c.current with
    | .this tag => [tag]
    | _ => []) ++
  match c.pending with
    | some ⟨.setLocal tag _,_⟩ => [tag]
    | _ => []

/-- `rcv_multi_cnt` of a core whose current group is this one at generation `gen`. -/
def held (gen : Gen) (c : Core Notif) : Nat :=
  match c.current with
  | .this tag => if tag.egrpGen = gen then c.rcvMultiCnt else 0
  | _ => 0

end Core

namespace State
variable [DecidableEq ι] (s : State ι Notif)

def setCore (c : ι) (k : Core Notif) : State ι Notif :=
  { s with core := Function.update s.core c k }

/-- The tag `em_send_group` would give an event now. -/
def now : Tag := ⟨s.counts.gen,s.epoch⟩

def load (c : ι) (op : Op Notif) : State ι Notif :=
  match op.body s.counts with
  | none => s.setCore c ((s.core c).fail op)
  | some new =>
    { s with
      notifTbl := op.storeNotifs s.notifTbl
      core := Function.update s.core c { s.core c with
        pending := some ⟨op,some (s.counts,op.copyNotifs new s.notifTbl)⟩ } }

/-- The compare-exchange stored `new`. -/
def commit (c : ι) (op : Op Notif) (new : EgrpCounter) (notifTbl : List Notif) :
    State ι Notif :=
  { s with
    counts := new
    epoch := op.nextEpoch s.epoch
    hist := (op.observe new notifTbl).map (op.nextEpoch s.epoch,·) ++ s.hist
    core := Function.update s.core c
      ((s.core c).succeed ⟨new.gen,op.nextEpoch s.epoch⟩ op) }

def cas (c : ι) (op : Op Notif) (seen : EgrpCounter) (notifTbl : List Notif) :
    Option (State ι Notif) :=
  if s.counts.allU64 = seen.allU64 then (op.body seen).map (s.commit c op · notifTbl)
  else some (s.setCore c { s.core c with pending := some ⟨op,none⟩ })

/-- A receive of an event of this group takes a tag that some event carries. -/
def callOk : Call Notif → Bool
  | .receive (.this tag) _ => tag ∈ s.tagged
  | _ => true

def step : Label ι Notif → Option (State ι Notif)
  | .tag => some { s with tagged := s.now :: s.tagged }
  | .call c f =>
    if (s.core c).pending.isNone ∧ s.callOk f then ((s.core c).call f).map (s.setCore c) else none
  | .load c =>
    match (s.core c).pending with
    | some ⟨op,none⟩ => some (s.load c op)
    | _ => none
  | .cas c =>
    match (s.core c).pending with
    | some ⟨op,some (seen,notifTbl)⟩ => s.cas c op seen notifTbl
    | _ => none

end State

/-- A created group: nothing applied, no event tagged, at any generation. -/
structure Initial (s : State ι Notif) : Prop where
  counts : s.counts.preCnt = 0 ∧ s.counts.postCnt = 0 ∧ s.counts.applied = false
  epoch : s.counts.gen = BitVec.ofNat _ s.epoch
  cores : ∀ c, s.core c = {}
  untagged : s.tagged = []
  hist : s.hist = []

def machine (ι Notif : Type) [DecidableEq ι] : System (State ι Notif) (Label ι Notif) :=
  .ofFn Initial State.step

/-- Fewer than `2^15` applies since any tag that is being handled was made. -/
def HandledInTime [DecidableEq ι] (s : State ι Notif) : Prop :=
  ∀ c, ∀ tag ∈ (s.core c).tags, s.epoch < tag.epoch + 2 ^ egrpGenBits

def Obs.addTo : Obs Notif → Cycle → Cycle
  | .applied count, cy => { cy with counted := cy.counted + count }
  | .incremented incr, cy => { cy with counted := cy.counted + incr }
  | .postDecremented decr, cy => { cy with finished := cy.finished + decr }
  | .handedOut _, cy => { cy with fires := cy.fires + 1 }
  | .aborted, cy => { cy with cancelled := true }

/-- What the history says of the cycle that the `g`-th apply began. -/
def cycle (hist : List (Nat × Obs Notif)) (g : Nat) : Cycle :=
  hist.foldr (fun e cy => if e.1 = g then e.2.addTo cy else cy) {}

end EmOdp.EventGroup
