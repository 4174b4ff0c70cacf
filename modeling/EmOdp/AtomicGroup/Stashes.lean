import Mathlib.Logic.Function.Basic
import EmOdp.Lib.TransitionSystem
import EmOdp.Lib.Resources

/-! The lives of atomic groups: `em_atomic_group_create` and `em_atomic_group_delete` with the two
stashes of a group. -/
namespace EmOdp.AtomicGroup.Stashes
open Lib

/-- `EM_ATOMIC_GROUP_NAME_LEN` -/
def emAtomicGroupNameLen : Nat := 32

inductive Status where
  | ok | badArg | badState | badId | allocFailed | libFailed
  deriving DecidableEq, Repr

/-- What `INTERNAL_ERROR` is called with. -/
structure Error where
  status : Status
  text : String
  deriving DecidableEq, Repr

/-- `atomic_group_elem_t`, for queue groups `γ` and stashes `H`, of which none is
`ODP_STASH_INVALID` -/
structure AtomicGroupElem (γ H : Type) where
  /-- not in the atomic group pool -/
  allocated : Bool := false
  queueGroup : Option γ := none
  /-- `stashes.hi_prio` -/
  hiPrio : Option H := none
  /-- `stashes.lo_prio` -/
  loPrio : Option H := none
  /-- the length of the list at `qlist_head` -/
  qlist : Nat := 0
  name : List UInt8 := []

/-- A stash with its size, the life of the atomic group that it was made in, none for the stash
of another component, and the events that it holds -/
structure Stash (α ε : Type) where
  numObj : Nat
  owner : Option (α × Nat)
  events : List ε := []
  deriving DecidableEq

/-- `life` counts how often an atomic group has been allocated, `freed` are the events that
deletes have freed. A stash is destroyed in the life of a group or by another component. -/
structure State (α γ H ε : Type) where
  elem : α → AtomicGroupElem γ H
  life : α → Nat
  stashes : Resources H (Stash α ε) (Option (α × Nat))
  freed : List ε

/-- The config option `queue.min_events_default`, and the size set by `odp_stash_param_init` -/
structure Config where
  minEventsDefault : Nat
  odpNumObj : Nat

/-- What ODP answers while `ag_stash_destroy` runs: the results of `odp_stash_get_u64`, and
whether `odp_stash_destroy` succeeds -/
structure Flush where
  gets : List Int := []
  destroyed : Bool := true

/-- What happens while `em_atomic_group_create` runs: the element that `atomic_group_alloc` finds,
`max_num` if `odp_stash_capability` succeeds, the results of the calls to `odp_stash_create`, and
the answers to the two calls of `ag_stash_destroy` if the group is deleted again -/
structure Answers (α H : Type) where
  alloc : Option α
  maxNum : Option Nat
  hiPrio : Option H
  loPrio : Option H
  hiFlush : Flush := {}
  loFlush : Flush := {}

/-- The loop of `ag_stash_destroy`: the events that it frees, and those left in the stash -/
def flushLoop {ε : Type} : List Int → List ε → List ε × List ε
  | [], events => ([],events)
  | cnt :: gets, events =>
    if cnt ≤ 0 then ([],events)
    else
      let rest := flushLoop gets (events.drop cnt.toNat)
      (events.take cnt.toNat ++ rest.1,rest.2)

/-- `stash_param.num_obj` -/
def Config.numObj (cfg : Config) (maxNum : Nat) : Nat :=
  let numObj := if cfg.minEventsDefault ≠ 0 then cfg.minEventsDefault else cfg.odpNumObj
  if maxNum < numObj then maxNum else numObj

variable {α γ H ε : Type} [DecidableEq α] [DecidableEq H]

namespace State
variable (s : State α γ H ε)

def setElem (a : α) (e : AtomicGroupElem γ H) : State α γ H ε :=
  { s with elem := Function.update s.elem a e }

/-- The life that the group is in. -/
def owner (a : α) : α × Nat := (a,s.life a)

/-- The events in a stash. -/
def eventsIn (stash : H) : List ε := ((s.stashes.behind stash).map fun r => r.payload.events).getD []

/-- `odp_stash_create` -/
def odpStashCreate (stash : Option H) (numObj : Nat) (owner : Option (α × Nat)) : State α γ H ε :=
  { s with stashes := match stash with
    | none => s.stashes
    | some h => s.stashes.create h { numObj, owner } }

/-- Puts events in a stash or takes them out. -/
def setEvents (stash : H) (events : List ε) : State α γ H ε :=
  { s with stashes := s.stashes.change (fun r => { r with payload.events := events }) stash }

/-- `odp_stash_destroy` -/
def odpStashDestroy (stash : H) (by_ : Option (α × Nat)) : State α γ H ε :=
  { s with stashes := s.stashes.destroy stash by_ }

/-- `ag_stash_destroy`, called for the group `a`: whether it returns 0 -/
def agStashDestroy (a : α) (stash : Option H) (o : Flush) : State α γ H ε × Bool :=
  match stash with
  | none => (s,false)
  | some h =>
    let flushed := flushLoop o.gets (s.eventsIn h)
    let left := { s.setEvents h flushed.2 with freed := s.freed ++ flushed.1 }
    if o.destroyed then (left.odpStashDestroy h (some (s.owner a)),true) else (left,false)

/-- `atomic_group_alloc` -/
def atomicGroupAlloc (a : α) : State α γ H ε :=
  { s.setElem a { s.elem a with allocated := true } with
    life := Function.update s.life a (s.life a + 1) }

/-- `atomic_group_free` -/
def atomicGroupFree (a : α) : State α γ H ε × Status :=
  (s.setElem a { s.elem a with allocated := false },.ok)

/-- `em_atomic_group_delete`, none is a handle outside of the table -/
def emAtomicGroupDelete (atomicGroup : Option α) (hi lo : Flush) : State α γ H ε × Status :=
  match atomicGroup with
  | none => (s,.badArg)
  | some a =>
    if (s.elem a).qlist ≠ 0 ∨ (s.elem a).allocated = false then (s,.badState)
    else
      let (s₁,hiOk) := s.agStashDestroy a (s.elem a).hiPrio hi
      let (s₂,loOk) := s₁.agStashDestroy a (s.elem a).loPrio lo
      let s₃ := s₂.setElem a { s₂.elem a with queueGroup := none, name := [] }
      let (s₄,error) := s₃.atomicGroupFree a
      -- the error returned is the result of the free, also when a stash is not destroyed
      if error ≠ .ok ∨ ¬(hiOk && loOk) then (s₄,error) else (s₄,.ok)

/-- The body of `em_atomic_group_create` until the group is ready or a check fails, with the group
that has been allocated -/
def createBody (cfg : Config) (name : Option (List UInt8)) (queueGroup : Option γ) (o : Answers α H) :
    State α γ H ε × Option α × Option Error :=
  match queueGroup with
  | none => (s,none,some ⟨.badArg,"Invalid queue group!"⟩)
  | some group =>
    match o.alloc with
    | none => (s,none,some ⟨.allocFailed,"Atomic group allocation failed!"⟩)
    | some a =>
      let s₁ := s.atomicGroupAlloc a
      let s₂ := s₁.setElem a { s₁.elem a with
        queueGroup := some group
        name := (name.getD []).take (emAtomicGroupNameLen - 1) }
      match o.maxNum with
      | none => (s₂,some a,some ⟨.libFailed,"odp_stash_capability() failed!"⟩)
      | some maxNum =>
        let s₃ := s₂.odpStashCreate o.hiPrio (cfg.numObj maxNum) (some (s₂.owner a))
        let s₄ := s₃.odpStashCreate o.loPrio (cfg.numObj maxNum) (some (s₂.owner a))
        let s₅ := s₄.setElem a { s₄.elem a with hiPrio := o.hiPrio, loPrio := o.loPrio }
        if o.hiPrio = none ∨ o.loPrio = none then
          (s₅,some a,some ⟨.libFailed,"odp_stash_create() failed!"⟩)
        else (s₅,some a,none)

/-- `em_atomic_group_create` -/
def emAtomicGroupCreate (cfg : Config) (name : Option (List UInt8)) (queueGroup : Option γ)
    (o : Answers α H) : State α γ H ε × Option α :=
  match s.createBody cfg name queueGroup o with
  | (t,atomicGroup,none) => (t,atomicGroup)
  | (t,none,some _) => (t,none)
  | (t,some a,some _) => ((t.emAtomicGroupDelete (some a) o.hiFlush o.loFlush).1,none)

/-- The stash of a group that holds its events of high or of lower priority. -/
def stashOf (a : α) (hi : Bool) : Option H := if hi then (s.elem a).hiPrio else (s.elem a).loPrio

end State

inductive Label (α γ H ε : Type) where
  | create (name : Option (List UInt8)) (queueGroup : Option γ) (o : Answers α H)
  | delete (atomicGroup : Option α) (hi lo : Flush)
  /-- a queue is added to an atomic group or removed from it -/
  | setQueues (a : α) (n : Nat)
  /-- a scheduled event that the group cannot process yet -/
  | put (a : α) (hi : Bool) (event : ε)
  /-- the group takes `n` events for processing -/
  | take (a : α) (hi : Bool) (n : Nat)
  /-- another component creates or destroys a stash -/
  | otherCreate (stash : H) (numObj : Nat)
  | otherDestroy (stash : H)

namespace State
variable (s : State α γ H ε)

/-- The pool gives out elements that are free, and ODP handles that are free. -/
def Possible (o : Answers α H) : Prop :=
  (∀ a ∈ o.alloc, (s.elem a).allocated = false) ∧ (∀ h ∈ o.hiPrio, s.stashes.Free h) ∧
    ∀ h ∈ o.loPrio, s.stashes.Free h ∧ o.hiPrio ≠ some h

instance (o : Answers α H) : Decidable (s.Possible o) :=
  inferInstanceAs (Decidable ((∀ a ∈ o.alloc, (s.elem a).allocated = false) ∧
    (∀ h ∈ o.hiPrio, s.stashes.Free h) ∧ ∀ h ∈ o.loPrio, s.stashes.Free h ∧ o.hiPrio ≠ some h))

def step (cfg : Config) : Label α γ H ε → Option (State α γ H ε)
  | .create name queueGroup o =>
    if s.Possible o then some (s.emAtomicGroupCreate cfg name queueGroup o).1 else none
  | .delete atomicGroup hi lo => some (s.emAtomicGroupDelete atomicGroup hi lo).1
  | .setQueues a n =>
    if (s.elem a).allocated then some (s.setElem a { s.elem a with qlist := n }) else none
  | .put a hi event =>
    if (s.elem a).allocated then
      (s.stashOf a hi).map fun h => s.setEvents h (s.eventsIn h ++ [event])
    else none
  | .take a hi n =>
    if (s.elem a).allocated then (s.stashOf a hi).map fun h => s.setEvents h ((s.eventsIn h).drop n)
    else none
  | .otherCreate h numObj =>
    if s.stashes.Free h then some (s.odpStashCreate (some h) numObj none) else none
  | .otherDestroy h =>
    (s.stashes.behind h).bind fun r =>
      if r.payload.owner = none ∧ r.destroyedBy = [] then some (s.odpStashDestroy h none) else none

/-- After `atomic_group_init`, which clears the table: `ODP_STASH_INVALID` is zero. -/
def Initial : Prop :=
  (∀ a, s.elem a = {}) ∧ (∀ a, s.life a = 0) ∧ s.stashes = [] ∧ s.freed = []

end State

/-- Runs of creates and deletes, one call after the other. -/
def system (cfg : Config) : System (State α γ H ε) (Label α γ H ε) :=
  System.ofFn State.Initial fun s l => s.step cfg l

end EmOdp.AtomicGroup.Stashes
