import EmOdp.Lib.TransitionSystem
import EmOdp.AtomicGroup.DispatchLock

/-! Any number of cores running `atomic_group_dispatch` on one atomic group. Every
atomic access of the dispatch lock and every stash put or get is a step. -/
namespace EmOdp.AtomicGroup
open Lib

structure Config where
  /-- `EM_SCHED_MULTI_MAX_BURST` -/
  maxBurst : Nat
  /-- `EM_SCHED_AG_MULTI_MAX_BURST` -/
  agMaxBurst : Nat
  /-- entries that a stash can store -/
  stashSize : Nat
  /-- `num_hi_prio_queues > 0` -/
  hiPrioQueues : Bool
  deriving DecidableEq, Repr

/-- `evcnt` can count all that the stashes store and a burst in and out for every core. -/
def Config.Fits (cfg : Config) (cores : Nat) : Prop :=
  2*cfg.stashSize + cores * (cfg.maxBurst + cfg.agMaxBurst) < 2 ^ 32

/-- Where a core is in `atomic_group_dispatch`. -/
inductive Pc (E : Type) where
  | idle
  | acquireIfIdle (hiPrio : Bool) (evTbl : List E)
  | enqAdd (hiPrio : Bool) (evTbl : List E)
  | enqPut (hiPrio : Bool) (evTbl : List E)
  | enqSub (rejected : Nat)
  | trylockLoad
  | trylockCas (expected : DispatchLock)
  | deqHi
  | deqLo (deq : List E)
  | deqSub (deq : List E)
  /-- events of the burst that are still to be passed to a receive function -/
  | dispatch (todo : List E)
  /-- inside or after the receive call of the burst's last events -/
  | lastReceive
  | releaseLoad
  | releaseCas (expected : DispatchLock)
  | unlock
  | relockLoad
  | relockCas (expected : DispatchLock)
  deriving DecidableEq, Repr

structure Core (E : Type) where
  pc : Pc E := .idle
  /-- `locm->atomic_group_released` -/
  released : Bool := false
  deriving DecidableEq, Repr

structure State (ι E : Type) where
  lock : DispatchLock
  hiStash : List E
  loStash : List E
  core : ι → Core E
  /-- ghost: events stored by a stash or dispatched directly -/
  accepted : List E
  /-- ghost: events passed to a receive function -/
  dispatched : List E

inductive Label (ι E : Type) where
  /-- the scheduler gives a core a burst of a queue of the group -/
  | schedule (c : ι) (hiPrio : Bool) (evTbl : List E)
  /-- the core's next access; `n` events are stored, taken or passed on by it -/
  | next (c : ι) (n : Nat)
  /-- `em_atomic_processing_end` in the receive call of the last events -/
  | release (c : ι)
  deriving DecidableEq, Repr

variable {ι E : Type} [DecidableEq ι]

namespace State
variable (s : State ι E)

def setPc (c : ι) (pc : Pc E) : State ι E :=
  { s with core := Function.update s.core c { s.core c with pc } }

/-- A compare-exchange of the dispatch lock. -/
def cas (c : ι) (expected desired : DispatchLock) (success failure : Pc E) : State ι E :=
  if s.lock.lockAndEvcnt = expected.lockAndEvcnt then { s.setPc c success with lock := desired }
  else s.setPc c failure

/-- The stash stores the first `n` entries, as many as it has room for. -/
def enqPut (cfg : Config) (c : ι) (hiPrio : Bool) (evTbl : List E) (n : Nat) :
    Option (State ι E) :=
  let stash := if hiPrio then s.hiStash else s.loStash
  if n ≤ evTbl.length ∧ stash.length + n ≤ cfg.stashSize then
    let s := { s with accepted := s.accepted ++ evTbl.take n }
    let s := if hiPrio then { s with hiStash := s.hiStash ++ evTbl.take n }
      else { s with loStash := s.loStash ++ evTbl.take n }
    some (s.setPc c (if n = evTbl.length then .trylockLoad else .enqSub (evTbl.length-n)))
  else none

/-- `ag_internal_deq` takes up to `max_deq` entries, those of high priority first. -/
def deqHi (cfg : Config) (c : ι) (n : Nat) : Option (State ι E) :=
  if cfg.hiPrioQueues then
    if n ≤ cfg.agMaxBurst ∧ n ≤ s.hiStash.length then
      some ({ s with hiStash := s.hiStash.drop n }.setPc c (.deqLo (s.hiStash.take n)))
    else none
  else some (s.setPc c (.deqLo []))

def deqLo (cfg : Config) (c : ι) (deq : List E) (n : Nat) : Option (State ι E) :=
  if deq.length + n ≤ cfg.agMaxBurst ∧ n ≤ s.loStash.length then
    let deq := deq ++ s.loStash.take n
    some ({ s with loStash := s.loStash.drop n }.setPc c
      (if deq = [] then .unlock else .deqSub deq))
  else none

/-- The next receive call gets `n` events. -/
def receive (c : ι) (todo : List E) (n : Nat) : Option (State ι E) :=
  if 0 < n ∧ n ≤ todo.length then
    some ({ s with dispatched := s.dispatched ++ todo.take n }.setPc c
      (if n = todo.length then .lastReceive else .dispatch (todo.drop n)))
  else none

def next [DecidableEq E] (cfg : Config) (c : ι) (n : Nat) : Option (State ι E) :=
  match (s.core c).pc with
  | .idle => none
  | .acquireIfIdle hiPrio evTbl =>
    if s.lock.lockAndEvcnt = DispatchLock.free.lockAndEvcnt then
      some { s.setPc c (.dispatch evTbl) with
        lock := .held, accepted := s.accepted ++ evTbl }
    else some (s.setPc c (.enqAdd hiPrio evTbl))
  | .enqAdd hiPrio evTbl =>
    some { s.setPc c (.enqPut hiPrio evTbl) with lock := s.lock.fetchAdd evTbl.length }
  | .enqPut hiPrio evTbl => s.enqPut cfg c hiPrio evTbl n
  | .enqSub rejected => some { s.setPc c .trylockLoad with lock := s.lock.fetchSub rejected }
  | .trylockLoad => some (s.setPc c (.trylockCas s.lock))
  | .trylockCas expected =>
    some (s.cas c expected { expected with lock := 1 }
      (if expected.lock = 0 then .deqHi else .idle) .trylockLoad)
  | .deqHi => s.deqHi cfg c n
  | .deqLo deq => s.deqLo cfg c deq n
  | .deqSub deq => some { s.setPc c (.dispatch deq) with lock := s.lock.fetchSub deq.length }
  | .dispatch todo => s.receive c todo n
  | .lastReceive => some (s.setPc c .unlock)
  | .releaseLoad => some (s.setPc c (.releaseCas s.lock))
  | .releaseCas expected =>
    if s.lock.lockAndEvcnt = expected.lockAndEvcnt then
      some { s with
        lock := { expected with lock := 0 }
        core := Function.update s.core c ⟨.lastReceive,true⟩ }
    else some (s.setPc c .releaseLoad)
  | .unlock =>
    -- the lock was given up during the dispatch: reset the flag, see if events remain
    if (s.core c).released then some { s with core := Function.update s.core c ⟨.relockLoad,false⟩ }
    else some (s.cas c .held .free .idle .deqHi)
  | .relockLoad =>
    if s.lock.lock = 1 ∨ (s.lock.evcnt = 0 ∧ s.lock.wrap = wrapProtect) then some (s.setPc c .idle)
    else some (s.setPc c (.relockCas s.lock))
  | .relockCas expected => some (s.cas c expected { expected with lock := 1 } .deqHi .relockLoad)

def step [DecidableEq E] (cfg : Config) : Label ι E → Option (State ι E)
  | .schedule c hiPrio evTbl =>
    if (s.core c).pc = .idle ∧ evTbl ≠ [] ∧ evTbl.length ≤ cfg.maxBurst ∧
        (hiPrio = true → cfg.hiPrioQueues = true) then
      some (s.setPc c (.acquireIfIdle hiPrio evTbl))
    else none
  | .next c n => s.next cfg c n
  | .release c =>
    if (s.core c).pc = .lastReceive then
      some (if (s.core c).released then s else s.setPc c .releaseLoad)
    else none

end State

structure Initial (s : State ι E) : Prop where
  lock : s.lock = .free
  hiStash : s.hiStash = []
  loStash : s.loStash = []
  cores : ∀ c, s.core c = {}
  accepted : s.accepted = []
  dispatched : s.dispatched = []

def machine (ι E : Type) [DecidableEq ι] [DecidableEq E] (cfg : Config) :
    System (State ι E) (Label ι E) :=
  .ofFn Initial (State.step · cfg)

end EmOdp.AtomicGroup
