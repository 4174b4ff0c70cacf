import Mathlib.Logic.Function.Basic
import Mathlib.Data.List.Basic
import EmOdp.Lib.TransitionSystem

/-! Events sent to output queues from ordered contexts: any number of cores enqueue into
the ODP queues of the output queues and drain them, at once or at the end of a dispatch
round. -/
namespace EmOdp.OutputQueue
open Lib

/-- `deq_max` in `output_queue_drain` -/
def deqMax : Nat := 32

/-- `output_queue_track_t`; `idx_cnt` is the length of `idx`. -/
structure Track (κ : Type) where
  usedQueues : κ → Bool := fun _ => false
  idx : List κ := []

/-- Where a core drains from: `send_output`, or the loop of `output_queue_buffering_drain`
at an index. -/
inductive Caller where
  | send
  | bufferingDrain (i : Nat)
  deriving DecidableEq, Repr

inductive Phase (κ E : Type) where
  | idle
  /-- at the head of the loop of `output_queue_buffering_drain` -/
  | loop (i : Nat)
  | trylock (q : κ) (caller : Caller)
  /-- in `output_queue_drain`, before the dequeue -/
  | dequeue (q : κ) (caller : Caller)
  | output (q : κ) (caller : Caller) (outputEvTbl : List E)
  /-- `output_queue_drain` has returned after an empty dequeue -/
  | unlock (q : κ) (caller : Caller)

def Phase.isIdle {κ E : Type} : Phase κ E → Bool
  | .idle => true
  | _ => false

structure Core (κ E : Type) where
  track : Track κ := {}
  phase : Phase κ E := .idle

structure Queue (E : Type) where
  /-- the ODP queue -/
  odpQueue : List E := []
  /-- events that were enqueued, given to `output_fn`, taken by it and freed; ghosts apart
  from what they say happened -/
  accepted : List E := []
  given : List E := []
  passed : List E := []
  freed : List E := []

structure State (ι κ E : Type) where
  queue : κ → Queue E
  /-- the core that holds `output.lock` -/
  lock : κ → Option ι
  core : ι → Core κ E
  /-- `em_free_multi` was called with events from outside of the table -/
  outOfBounds : Bool

/-- `output_queue_track` -/
def Track.track {κ : Type} [DecidableEq κ] (t : Track κ) (q : κ) : Track κ :=
  if t.usedQueues q then t
  else { usedQueues := Function.update t.usedQueues q true, idx := t.idx ++ [q] }

namespace Queue
variable {E : Type}

/-- `odp_queue_enq_multi` takes the first `numEnq` of the events. -/
def enqueue (q : Queue E) (events : List E) (numEnq : Nat) : Queue E :=
  { q with
    odpQueue := q.odpQueue ++ events.take numEnq
    accepted := q.accepted ++ events.take numEnq }

/-- `output_fn` returns `ret`, and the events it has not taken are freed. -/
def output (q : Queue E) (outputEvTbl : List E) (ret : Int) : Queue E :=
  { q with
    given := q.given ++ outputEvTbl
    passed := q.passed ++ outputEvTbl.take ret.toNat
    freed := q.freed ++ outputEvTbl.drop ret.toNat }

end Queue

/-- The core after its attempt to drain `q`. -/
def Core.attempted {κ E : Type} [DecidableEq κ] (k : Core κ E) (q : κ) : Caller → Core κ E
  | .send => { k with phase := .idle }
  | .bufferingDrain i =>
    { track := { k.track with usedQueues := Function.update k.track.usedQueues q false }
      phase := .loop (i + 1) }

inductive Label (ι κ E : Type) where
  /-- `send_output`, `send_output_multi` up to the enqueue of `numEnq` events -/
  | send (c : ι) (q : κ) (events : List E) (numEnq : Nat)
  | roundEnd (c : ι)
  | loop (c : ι)
  | trylock (c : ι)
  | dequeue (c : ι) (deq : Nat)
  | output (c : ι) (ret : Int)
  | unlock (c : ι)

variable {ι κ E : Type} [DecidableEq ι] [DecidableEq κ]

namespace State

def setCore (s : State ι κ E) (c : ι) (k : Core κ E) : State ι κ E :=
  { s with core := Function.update s.core c k }

/-- A step where `EM_OUTPUT_QUEUE_IMMEDIATE` is `immediate`. -/
def step (immediate : Bool) (s : State ι κ E) : Label ι κ E → Option (State ι κ E)
  | .send c q events numEnq =>
    if (s.core c).phase.isIdle ∧ numEnq ≤ events.length then
      let t := { s with queue := Function.update s.queue q ((s.queue q).enqueue events numEnq) }
      if immediate then
        -- nothing enqueued: the send returns without an attempt to drain
        if numEnq = 0 then some t
        else some (t.setCore c { s.core c with phase := .trylock q .send })
      else some (t.setCore c { s.core c with track := (s.core c).track.track q })
    else none
  | .roundEnd c =>
    if !immediate && (s.core c).phase.isIdle then
      some (s.setCore c { s.core c with phase := .loop 0 })
    else none
  | .loop c =>
    match (s.core c).phase with
    | .loop i =>
      match (s.core c).track.idx[i]? with
      | some q => some (s.setCore c { s.core c with phase := .trylock q (.bufferingDrain i) })
      | none => some (s.setCore c
          { track := { (s.core c).track with idx := [] }, phase := .idle })
    | _ => none
  | .trylock c =>
    match (s.core c).phase with
    | .trylock q caller =>
      match s.lock q with
      | none => some ({ s with lock := Function.update s.lock q (some c) }.setCore c
          { s.core c with phase := .dequeue q caller })
      | some _ => some (s.setCore c ((s.core c).attempted q caller))
    | _ => none
  | .dequeue c deq =>
    match (s.core c).phase with
    | .dequeue q caller =>
      let odpQueue := (s.queue q).odpQueue
      if odpQueue.isEmpty then some (s.setCore c { s.core c with phase := .unlock q caller })
      else if 0 < deq ∧ deq ≤ deqMax ∧ deq ≤ odpQueue.length then
        some ({ s with
          queue := Function.update s.queue q
            { s.queue q with odpQueue := odpQueue.drop deq } }.setCore c
          { s.core c with phase := .output q caller (odpQueue.take deq) })
      else none
    | _ => none
  | .output c ret =>
    match (s.core c).phase with
    | .output q caller outputEvTbl =>
      some ({ s with
        queue := Function.update s.queue q ((s.queue q).output outputEvTbl ret)
        outOfBounds := s.outOfBounds || decide (ret < 0) }.setCore c
        { s.core c with phase := .dequeue q caller })
    | _ => none
  | .unlock c =>
    match (s.core c).phase with
    | .unlock q caller =>
      some ({ s with lock := Function.update s.lock q none }.setCore c
        ((s.core c).attempted q caller))
    | _ => none

end State

/-- No event is sent and no queue is tracked. -/
structure Initial (s : State ι κ E) : Prop where
  queues : ∀ q, s.queue q = {}
  locks : ∀ q, s.lock q = none
  cores : ∀ c, (s.core c).phase = .idle ∧ ∀ q, (s.core c).track.usedQueues q = false
  inBounds : s.outOfBounds = false

def machine (ι κ E : Type) [DecidableEq ι] [DecidableEq κ] (immediate : Bool) :
    System (State ι κ E) (Label ι κ E) := .ofFn Initial (State.step immediate)

end EmOdp.OutputQueue
