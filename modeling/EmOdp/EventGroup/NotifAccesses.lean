import EmOdp.EventGroup.Machine

/-! The notifications of one event group as the cores access them: each read and write of `num_notif` and
of an entry of `notif_tbl` is a step, as are the accesses of the word that decide whose they are. -/
namespace EmOdp.EventGroup.Notifs
open Lib
variable {ι Notif : Type}

/-- The updates of the word that leave the notifications alone, one access each. -/
inductive Update where
  | preCountDecrement (decr : Nat) (eventEgrpGen : Gen)
  | increment (incr : Nat) (egrpGen : Gen)
  | assign (numEvents : Nat)
  | abort
  deriving DecidableEq, Repr

def Update.body : Update → EgrpCounter → Option EgrpCounter
  | .preCountDecrement decr eventEgrpGen, w => w.preCountDecrement decr eventEgrpGen
  | .increment incr egrpGen, w => w.emEventGroupIncrement incr egrpGen
  | .assign numEvents, w => w.emEventGroupAssign numEvents
  | .abort, w => w.emEventGroupAbort

/-- The arguments of `em_event_group_apply` -/
structure Apply (Notif : Type) where
  count : Nat
  notifTbl : List Notif
  deriving DecidableEq, Repr

/-- `post_count_decrement` with the generation of the core's current group, or `em_event_group_notif` -/
inductive Reader where
  | countDecrement (decr : Nat) (egrpGen : Gen)
  | notif (maxNotif : Nat)
  deriving DecidableEq, Repr

/-- How many entries the caller has room for -/
def Reader.limit : Reader → Nat
  | .countDecrement .. => emEventGroupMaxNotif
  | .notif maxNotif => maxNotif

/-- `MIN` and the conditional expression read `num_notif` again if it is within the limit. -/
def Reader.again : Reader → Nat → Bool
  | .countDecrement .., numNotif => numNotif < emEventGroupMaxNotif
  | .notif maxNotif, numNotif => !decide (maxNotif < numNotif)

/-- A reader with the word that it loaded; `epoch` is a ghost, the generation it was loaded in. -/
structure Read where
  reader : Reader
  seen : EgrpCounter
  epoch : Nat
  deriving DecidableEq, Repr

/-- The next access of a core -/
inductive Pc (Notif : Type) where
  | idle
  | applyLoad (a : Apply Notif)
  | writeNum (a : Apply Notif) (seen : EgrpCounter)
  | writeEntry (a : Apply Notif) (seen : EgrpCounter) (i : Nat)
  | applyCas (a : Apply Notif) (seen : EgrpCounter)
  | readLoad (reader : Reader)
  | readNum (r : Read)
  | readNumAgain (r : Read)
  | copy (r : Read) (numNotif : Nat) (copied : List Notif)
  | decrementCas (r : Read) (copied : List Notif)
  deriving DecidableEq, Repr

structure State (ι Notif : Type) where
  counts : EgrpCounter
  numNotif : Nat
  notifTbl : Nat → Notif
  pc : ι → Pc Notif
  /-- ghost: the number of applies -/
  epoch : Nat
  /-- ghost: the notifications of the apply that began a generation -/
  begun : List (Nat × List Notif)
  /-- ghost: what `post_count_decrement` returned for the last event of a generation -/
  handedOut : List (Nat × List Notif)
  /-- ghost: what `em_event_group_notif` returned in a generation, for a given limit -/
  returned : List (Nat × Nat × List Notif)

inductive Call (Notif : Type) where
  | apply (count : Int) (notifTbl : List Notif)
  | countDecrement (decr : Nat) (egrpGen : Gen)
  | notif (maxNotif : Nat)
  deriving DecidableEq, Repr

inductive Label (ι Notif : Type) where
  | call (c : ι) (f : Call Notif)
  | access (c : ι)
  | update (u : Update)
  deriving DecidableEq, Repr

/-- The arguments are checked before the first access, the table by `check_notif_tbl`; the dispatcher
counts at least one event. -/
def Call.start : Call Notif → Option (Pc Notif)
  | .apply count notifTbl =>
    if count ≤ 0 ∨ (egrpCntMax : Int) < count ∨ emEventGroupMaxNotif < notifTbl.length then some .idle
    else some (.applyLoad ⟨count.toNat,notifTbl⟩)
  | .countDecrement decr egrpGen => if 0 < decr then some (.readLoad (.countDecrement decr egrpGen)) else none
  | .notif maxNotif => if maxNotif = 0 then some .idle else some (.readLoad (.notif maxNotif))

/-- The loop of `em_event_group_apply` over the entries -/
def Apply.next (a : Apply Notif) (seen : EgrpCounter) (i : Nat) : Pc Notif :=
  if i < a.notifTbl.length then .writeEntry a seen i else .applyCas a seen

namespace State
variable [DecidableEq ι] (s : State ι Notif)

def setPc (c : ι) (pc : Pc Notif) : State ι Notif := { s with pc := Function.update s.pc c pc }

/-- The loop of a reader over the entries, and what it does with all of them -/
def next (c : ι) (r : Read) (numNotif : Nat) (copied : List Notif) : State ι Notif :=
  if copied.length < numNotif then s.setPc c (.copy r numNotif copied)
  else
    match r.reader with
    | .countDecrement .. => s.setPc c (.decrementCas r copied)
    | .notif maxNotif => { s.setPc c .idle with returned := (r.epoch,maxNotif,copied) :: s.returned }

def readLoad (c : ι) : Reader → State ι Notif
  | .countDecrement decr egrpGen =>
    match s.counts.postCountDecrement decr egrpGen with
    | none => s.setPc c .idle
    | some new =>
      -- all events handled: the notifications are copied before the compare-exchange
      if new.postCnt = 0 then s.setPc c (.readNum ⟨.countDecrement decr egrpGen,s.counts,s.epoch⟩)
      else s.setPc c (.decrementCas ⟨.countDecrement decr egrpGen,s.counts,s.epoch⟩ [])
  | .notif maxNotif =>
    if s.counts.applied then s.setPc c (.readNum ⟨.notif maxNotif,s.counts,s.epoch⟩) else s.setPc c .idle

def applyCas (c : ι) (a : Apply Notif) (seen : EgrpCounter) : Option (State ι Notif) :=
  if s.counts.allU64 = seen.allU64 then
    (seen.emEventGroupApply a.count).map fun new => { s.setPc c .idle with
      counts := new
      epoch := s.epoch + 1
      begun := (s.epoch + 1,a.notifTbl) :: s.begun }
  else some (s.setPc c (.applyLoad a))

def decrementCas (c : ι) (r : Read) (copied : List Notif) : Option (State ι Notif) :=
  match r.reader with
  | .countDecrement decr egrpGen =>
    if s.counts.allU64 = r.seen.allU64 then
      (r.seen.postCountDecrement decr egrpGen).map fun new => { s.setPc c .idle with
        counts := new
        handedOut := if new.postCnt = 0 then (r.epoch,copied) :: s.handedOut else s.handedOut }
    else some (s.setPc c (.readLoad r.reader))
  | .notif _ => none

def access (c : ι) : Option (State ι Notif) :=
  match s.pc c with
  | .idle => none
  | .applyLoad a => some (s.setPc c (if s.counts.applied then .idle else .writeNum a s.counts))
  | .writeNum a seen => some { s.setPc c (a.next seen 0) with numNotif := a.notifTbl.length }
  | .writeEntry a seen i =>
    a.notifTbl[i]?.map fun notif =>
      { s.setPc c (a.next seen (i+1)) with notifTbl := Function.update s.notifTbl i notif }
  | .applyCas a seen => s.applyCas c a seen
  | .readLoad reader => some (s.readLoad c reader)
  | .readNum r =>
    some (if r.reader.again s.numNotif then s.setPc c (.readNumAgain r) else s.next c r r.reader.limit [])
  | .readNumAgain r => some (s.next c r s.numNotif [])
  | .copy r numNotif copied => some (s.next c r numNotif (copied ++ [s.notifTbl copied.length]))
  | .decrementCas r copied => s.decrementCas c r copied

def step : Label ι Notif → Option (State ι Notif)
  | .call c f =>
    match s.pc c with
    | .idle => (f.start).map (s.setPc c)
    | _ => none
  | .access c => s.access c
  | .update u => (u.body s.counts).map fun new => { s with counts := new }

end State

/-- A created group, as in `EventGroup.Initial`; `num_notif` and the table are as its last use left them. -/
structure Initial (s : State ι Notif) : Prop where
  counts : s.counts.preCnt = 0 ∧ s.counts.postCnt = 0 ∧ s.counts.applied = false
  epoch : s.counts.gen = BitVec.ofNat _ s.epoch
  idle : ∀ c, s.pc c = .idle
  begun : s.begun = []
  handedOut : s.handedOut = []
  returned : s.returned = []

def machine (ι Notif : Type) [DecidableEq ι] : System (State ι Notif) (Label ι Notif) :=
  .ofFn Initial State.step

end EmOdp.EventGroup.Notifs
