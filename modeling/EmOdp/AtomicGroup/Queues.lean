import EmOdp.AtomicGroup.Protocol

/-! Queues are added to and removed from an atomic group while cores dispatch its events:
`ag_internal_deq` looks into the hi_prio stash only when the group has a queue of
`EM_QUEUE_PRIO_HIGHEST`. -/
namespace EmOdp.AtomicGroup.Queues
open Lib

structure State (ι Q E : Type) where
  /-- the dispatch lock, the stashes and the cores -/
  group : AtomicGroup.State ι E
  /-- `qlist_head` -/
  qlist : List Q
  numQueues : Nat
  numHiPrioQueues : Nat
  /-- whether a core in `ag_internal_deq` has loaded `num_hi_prio_queues > 0` -/
  hiLoaded : ι → Option Bool

inductive Label (ι Q E : Type) where
  /-- `em_queue_create_ag` -/
  | addQueueList (q : Q)
  /-- `atomic_group_remove_queue` of `em_queue_delete` -/
  | removeQueue (q : Q)
  /-- the scheduler gives a core a burst of a queue of the group -/
  | schedule (c : ι) (q : Q) (evTbl : List E)
  /-- the load of `num_hi_prio_queues` in `ag_internal_deq` -/
  | loadHiPrioQueues (c : ι)
  /-- the core's next access of the lock or a stash; `n` events are stored, taken or passed on -/
  | next (c : ι) (n : Nat)
  /-- `em_atomic_processing_end` in the receive call of the last events -/
  | release (c : ι)
  deriving DecidableEq, Repr

/-- The core that performs a step of the dispatch. -/
def Label.core? {ι Q E : Type} : Label ι Q E → Option ι
  | .addQueueList _ | .removeQueue _ => none
  | .schedule c .. | .loadHiPrioQueues c | .next c _ | .release c => some c

/-- `odp_stash_get_u64` of at most `max` entries returns `n`: none only of an empty stash. -/
def GetOk {E : Type} (stash : List E) (max n : Nat) : Prop := n = 0 → max = 0 ∨ stash = []

instance {E : Type} (stash : List E) (max n : Nat) : Decidable (GetOk stash max n) :=
  inferInstanceAs (Decidable (_ → _ ∨ _))

variable {ι Q E : Type} [DecidableEq ι] [DecidableEq Q]

namespace State
variable (s : State ι Q E)

/-- `atomic_group_add_queue_list` -/
def addQueueList (hiPrio : Q → Bool) (q : Q) : State ι Q E :=
  { s with
    qlist := s.qlist ++ [q]
    numQueues := s.numQueues + 1
    numHiPrioQueues := if hiPrio q then s.numHiPrioQueues + 1 else s.numHiPrioQueues }

/-- `atomic_group_rem_queue_list` -/
def remQueueList (hiPrio : Q → Bool) (q : Q) : State ι Q E :=
  if s.qlist.isEmpty then s
  else { s with
    qlist := s.qlist.erase q
    numQueues := s.numQueues - 1
    numHiPrioQueues := if hiPrio q then s.numHiPrioQueues - 1 else s.numHiPrioQueues }

/-- The accesses of `ag_internal_deq` and all others of `atomic_group_dispatch`. -/
def next [DecidableEq E] (cfg : Config) (c : ι) (n : Nat) : Option (State ι Q E) :=
  match (s.group.core c).pc with
  | .deqHi =>
    match s.hiLoaded c with
    | none => none
    | some hi =>
      if hi = true → GetOk s.group.hiStash cfg.agMaxBurst n then
        (s.group.next { cfg with hiPrioQueues := hi } c n).map fun group =>
          { s with group, hiLoaded := Function.update s.hiLoaded c none }
      else none
  | .deqLo deq =>
    if GetOk s.group.loStash (cfg.agMaxBurst - deq.length) n then
      (s.group.next cfg c n).map fun group => { s with group }
    else none
  | _ => (s.group.next cfg c n).map fun group => { s with group }

def step [DecidableEq E] (cfg : Config) (hiPrio : Q → Bool) : Label ι Q E → Option (State ι Q E)
  | .addQueueList q => if q ∈ s.qlist then none else some (s.addQueueList hiPrio q)
  | .removeQueue q =>
    -- `flags.in_atomic_group`
    if q ∈ s.qlist then some (s.remQueueList hiPrio q) else none
  | .schedule c q evTbl =>
    if q ∈ s.qlist then
      (s.group.step { cfg with hiPrioQueues := true } (.schedule c (hiPrio q) evTbl)).map fun group =>
        { s with group }
    else none
  | .loadHiPrioQueues c =>
    if (s.group.core c).pc = .deqHi ∧ s.hiLoaded c = none then
      some { s with
        hiLoaded := Function.update s.hiLoaded c (some (decide (0 < s.numHiPrioQueues))) }
    else none
  | .next c n => s.next cfg c n
  | .release c =>
    -- once released, `atomic_group_release` returns at once
    if (s.group.core c).released then none
    else (s.group.step cfg (.release c)).map fun group => { s with group }

end State

structure Initial (s : State ι Q E) : Prop where
  group : AtomicGroup.Initial s.group
  qlist : s.qlist = []
  numQueues : s.numQueues = 0
  numHiPrioQueues : s.numHiPrioQueues = 0
  hiLoaded : ∀ c, s.hiLoaded c = none

def machine (ι Q E : Type) [DecidableEq ι] [DecidableEq Q] [DecidableEq E] (cfg : Config)
    (hiPrio : Q → Bool) : System (State ι Q E) (Label ι Q E) :=
  .ofFn Initial (State.step · cfg hiPrio)

/-- The last queue of high priority is removed only while the hi_prio stash is empty, and
events of high priority are stashed only while the group has such a queue. -/
def Keeps (hiPrio : Q → Bool) (s : State ι Q E) (l : Label ι Q E) (_ : State ι Q E) : Prop :=
  match l with
  | .removeQueue q => hiPrio q = true → s.numHiPrioQueues = 1 → s.group.hiStash = []
  | .next c n => ∀ evTbl, (s.group.core c).pc = .enqPut true evTbl → 0 < n → 0 < s.numHiPrioQueues
  | _ => True

/-- Events of high priority are stashed only while `ag_internal_deq` would look for them. -/
def HiServed (s : State ι Q E) : Prop := s.group.hiStash ≠ [] → 0 < s.numHiPrioQueues

end EmOdp.AtomicGroup.Queues
