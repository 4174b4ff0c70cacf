import EmOdp.Threads.Consistent

/-! The termination of a thread: the requests that it sends to the control queues of the EM cores, the
counters of these requests, and the loop in which it waits for them to be handled. -/
namespace EmOdp.Threads
open Lib

/-- A control event of a termination: `TERM_THREAD_REQ` of a thread, counted by an event group, or
the `EM_INTERNAL_DONE` that this event group sends -/
inductive CtrlEvent where
  | termThreadReq (thr group : Nat)
  | internalDone
  deriving DecidableEq, Repr

/-- The event group of a request -/
def CtrlEvent.group : CtrlEvent → Option Nat
  | .termThreadReq _ group => some group
  | .internalDone => none

/-- An event group of `internal_done_w_notif_req`, whose notification goes to `owner` -/
structure EventGroup where
  count : Nat
  owner : Nat

/-- The loop that a thread waits in -/
inductive Waiting where
  | no | core | extthr
  deriving DecidableEq, Repr

/-- What `send_core_ctrl_events` comes to: all requests are sent, or an allocation or a send fails
after `sent` of them -/
inductive Sends where
  | all
  | fails (sent : Nat)
  deriving DecidableEq

/-- The core map, and what terminations use besides -/
structure TermState where
  base : State
  /-- `ongoing_term_reqs`, by ODP thread -/
  ongoing : Nat → Nat
  /-- the control queue of a thread -/
  queue : Nat → List CtrlEvent
  /-- what `poll_unsched_ctrl_queue` has dequeued, but not handled yet -/
  burst : Nat → List CtrlEvent
  waiting : Nat → Waiting
  isTermThreadDone : Nat → Bool
  groups : Nat → Option EventGroup
  nextGroup : Nat

namespace TermState
variable (s : TermState)

/-- `term_thread_req` to the threads of the mask -/
def termThreadReq (thr : Nat) (mask : List Nat) : Sends → TermState
  | .all => { s with
    queue := fun t => if t ∈ mask then s.queue t ++ [.termThreadReq thr s.nextGroup] else s.queue t
    groups := Function.update s.groups s.nextGroup (some ⟨mask.length,thr⟩)
    nextGroup := s.nextGroup + 1 }
  | .fails sent => { s with
    queue := fun t =>
      if t ∈ mask.take sent then s.queue t ++ [.termThreadReq thr s.nextGroup] else s.queue t
    nextGroup := s.nextGroup + 1 }

/-- Counts a request for each thread of the mask. -/
def countReqs (mask : List Nat) : TermState :=
  { s with ongoing := fun t => if t ∈ mask then incU32 (s.ongoing t) else s.ongoing t }

/-- The part that `core_map_term_local` and `core_map_term_extthr` have in common, once the map has
been written: `current` is the number of EM cores left. -/
def requestTerm (cfg : Config) (thr : Nat) (current : Int) (sends : Sends) : TermState :=
  let mask := (List.range cfg.thrMax).filter (· ∈ s.base.map.thrmaskEmcores)
  let s := if 0 < current then s.countReqs mask else s
  let s := if 1 ≤ current then s.termThreadReq thr mask sends else s
  if current < 1 then { s with isTermThreadDone := Function.update s.isTermThreadDone thr true } else s

/-- A thread goes into the loop, unless the count of cores has turned out to be negative. -/
def beginWait (thr : Nat) (current : Int) (waiting : Waiting) : TermState :=
  if current < 0 then { s with isTermThreadDone := Function.update s.isTermThreadDone thr false }
  else { s with waiting := Function.update s.waiting thr waiting }

/-- `core_map_term_local` in `term_core` -/
def termCore (cfg : Config) (thr : Nat) (sends : Sends) : TermState :=
  let current : Int := s.base.map.currentCoreCount - 1
  let s := { s with base := (s.base.emTermLocal thr true).1 }
  (s.requestTerm cfg thr current sends).beginWait thr current .core

/-- `core_map_term_extthr` in `term_extthr`: a request is also counted for the thread itself. -/
def termExtthr (cfg : Config) (thr : Nat) (sends : Sends) : TermState :=
  let current : Int := s.base.map.currentCoreCount
  let s := { s with
    base := (s.base.emTermLocal thr true).1
    ongoing := Function.update s.ongoing thr (incU32 (s.ongoing thr)) }
  (s.requestTerm cfg thr current sends).beginWait thr current .extthr

/-- The end of the handling of an event that the group counts, `sent`: the notification is sent. -/
def countDown (group : Nat) (sent : Bool) : TermState :=
  match s.groups group with
  | none => s
  | some g =>
    if g.count = 1 then
      let s := { s with groups := Function.update s.groups group none }
      if sent then
        { s with queue := Function.update s.queue g.owner (s.queue g.owner ++ [.internalDone]) }
      else s
    else { s with groups := Function.update s.groups group (some { g with count := g.count - 1 }) }

/-- `i_event__term_thread_req` with the end of `handle_ctrl_events`, or
`term_thread_req_done_callback` -/
def handle (thr : Nat) (sent : Bool) : CtrlEvent → TermState
  | .termThreadReq _ group =>
    { s with ongoing := Function.update s.ongoing thr (decU32 (s.ongoing thr)) }.countDown group sent
  | .internalDone => { s with isTermThreadDone := Function.update s.isTermThreadDone thr true }

/-- The thread runs, or waits for its termination: it polls its control queue. -/
def Polls (thr : Nat) : Prop := (s.base.locm thr).isCoreLocalInited = true ∨ s.waiting thr ≠ .no

/-- The condition of the loop in `term_core` or `term_extthr`, with the error that it returns when
the count is negative as an `int32_t` -/
def Leaves (thr : Nat) : Prop :=
  s.waiting thr = .core ∧
    (s.isTermThreadDone thr = true ∧ s.ongoing thr = 0 ∨ 2147483648 ≤ s.ongoing thr) ∨
  s.waiting thr = .extthr ∧ s.isTermThreadDone thr = true

instance (thr : Nat) : Decidable (s.Polls thr) := inferInstanceAs (Decidable (_ ∨ _))

instance (thr : Nat) : Decidable (s.Leaves thr) :=
  inferInstanceAs (Decidable (_ ∧ (_ ∧ _ ∨ _) ∨ _ ∧ _))

end TermState

inductive TermLabel where
  /-- `em_init_local` -/
  | init (thr : Nat) (odpType : OdpThreadType) (conf : ConfLocal) (a : Answers)
  /-- `em_term_local`, up to the loop -/
  | term (thr : Nat) (sends : Sends)
  /-- A thread dequeues control events. -/
  | poll (thr num : Nat)
  /-- A thread handles the `i`-th of its dequeued events. -/
  | handle (thr i : Nat) (sent : Bool)
  /-- `em_term_local`, from the end of the loop -/
  | leave (thr : Nat)

namespace TermState
variable (s : TermState)

def step (cfg : Config) : TermLabel → Option TermState
  | .init thr odpType conf a =>
    if s.waiting thr = .no then some { s with
      base := (s.base.emInitLocal cfg thr odpType conf a).1
      isTermThreadDone :=
        if (s.base.locm thr).isCoreLocalInited then s.isTermThreadDone
        else Function.update s.isTermThreadDone thr false }
    else none
  | .term thr sends =>
    if s.waiting thr = .no ∧ (s.base.locm thr).isCoreLocalInited then
      match (s.base.locm thr).coreType with
      | some .external => some (s.termExtthr cfg thr sends)
      | some .worker | some .control => some (s.termCore cfg thr sends)
      | none => none
    else none
  | .poll thr num =>
    if s.Polls thr then some { s with
      queue := Function.update s.queue thr ((s.queue thr).drop num)
      burst := Function.update s.burst thr (s.burst thr ++ (s.queue thr).take num) }
    else none
  | .handle thr i sent =>
    (s.burst thr)[i]?.map fun ev =>
      { s with burst := Function.update s.burst thr ((s.burst thr).eraseIdx i) }.handle thr sent ev
  | .leave thr =>
    if s.Leaves thr ∧ s.burst thr = [] then some { s with
      waiting := Function.update s.waiting thr .no
      isTermThreadDone := Function.update s.isTermThreadDone thr false }
    else none

/-- The events that have been sent to a thread and that it has not handled yet -/
def pending (thr : Nat) : List CtrlEvent := s.burst thr ++ s.queue thr

/-- The event groups of the pending requests -/
def reqs (thr : Nat) : List Nat := (s.pending thr).filterMap CtrlEvent.group

/-- The counters and flags are those of the pending requests. -/
structure Balanced : Prop where
  ongoing : ∀ t, s.ongoing t = (s.reqs t).length
  /-- No request of a waiting thread is in flight, and neither is their done event. -/
  done : ∀ t, s.waiting t ≠ .no → (∀ u group, .termThreadReq t group ∉ s.pending u) →
    .internalDone ∉ s.pending t → s.isTermThreadDone t = true
  /-- A thread leaves its loop, or an event is left for it, or a request of it for one that polls. -/
  notStuck : ∀ t, s.waiting t ≠ .no → s.Leaves t ∨ s.pending t ≠ [] ∨
    ∃ u group, s.Polls u ∧ .termThreadReq t group ∈ s.pending u
  noneLeft : ∀ t, s.reqs t ≠ [] → s.Polls t

/-- No external thread terminates, no allocation or send of a request or of its notification fails,
and no local initialisation fails after it has entered the map. -/
def Clean (cfg : Config) : TermLabel → Prop
  | .init thr odpType conf a => s.base.Clean cfg (.init thr odpType conf a)
  | .term thr sends => (s.base.locm thr).coreType ≠ some .external ∧
    (1 < s.base.map.currentCoreCount → sends = .all)
  | .handle _ _ sent => sent = true
  | .poll _ _ | .leave _ => True

/-- `core_map_init`, with empty control queues -/
structure Initial : Prop where
  base : s.base.Initial
  ongoing : ∀ t, s.ongoing t = 0
  queue : ∀ t, s.queue t = []
  burst : ∀ t, s.burst t = []
  waiting : ∀ t, s.waiting t = .no
  isTermThreadDone : ∀ t, s.isTermThreadDone t = false
  groups : ∀ g, s.groups g = none

end TermState

/-- Runs of initialisations and terminations, interleaved with the handling of the requests -/
def termSystem (cfg : Config) : System TermState TermLabel :=
  System.ofFn TermState.Initial fun s l => s.step cfg l

end EmOdp.Threads
