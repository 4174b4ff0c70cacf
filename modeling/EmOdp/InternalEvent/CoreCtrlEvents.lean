import EmOdp.EventGroup.Machine
import Mathlib.Data.Finset.Max
import Mathlib.Logic.Function.Basic

/-! `send_core_ctrl_events`: a control event is copied to the control queue of each thread of a mask.
While the caller sends, the threads of the mask handle what they have been sent. -/
namespace EmOdp.InternalEvent
open Lib
open EventGroup (EgrpCounter Gen egrpCntMax emEventGroupMaxNotif)

/-- `odp_thrmask_t`; `ODP_THREAD_COUNT_MAX - 1` is asserted to fit into 16 bits. -/
structure Thrmask where
  threads : Finset Nat
  thread_lt : ∀ t ∈ threads, t < 2 ^ 16

namespace Thrmask
variable (m : Thrmask)

/-- `odp_thrmask_count` -/
def count : Nat := m.threads.card

private def least (s : Finset Nat) : Option Nat := if h : s.Nonempty then some (s.min' h) else none

/-- `odp_thrmask_first` -/
def first : Option Nat := least m.threads

/-- `odp_thrmask_next` -/
def next (thr : Nat) : Option Nat := least (m.threads.filter (thr < ·))

variable {m} {thr : Nat}

private theorem least_none {s : Finset Nat} (h : least s = none) : s = ∅ := by
  rw [least] at h
  split at h
  · cases h
  · exact Finset.not_nonempty_iff_eq_empty.1 ‹_›

private theorem least_some {s : Finset Nat} (h : least s = some thr) : thr ∈ s ∧ ∀ u ∈ s, thr ≤ u := by
  rw [least] at h
  split at h
  · cases h
    exact ⟨s.min'_mem _,fun u hu => s.min'_le u hu⟩
  · cases h

theorem first_none (h : m.first = none) : m.threads = ∅ := least_none h

theorem first_some (h : m.first = some thr) : thr ∈ m.threads ∧ ∀ u ∈ m.threads, thr ≤ u := least_some h

theorem next_none {u : Nat} (h : m.next thr = none) (hu : u ∈ m.threads) : u ≤ thr := by
  by_contra hlt
  have hmem : u ∈ m.threads.filter (thr < ·) := Finset.mem_filter.2 ⟨hu,Nat.not_le.1 hlt⟩
  rw [least_none h] at hmem
  exact Finset.notMem_empty u hmem

theorem next_some {u : Nat} (h : m.next thr = some u) :
    u ∈ m.threads ∧ thr < u ∧ ∀ v ∈ m.threads, thr < v → u ≤ v := by
  obtain ⟨hmem,hle⟩ := least_some h
  obtain ⟨hu,hlt⟩ := Finset.mem_filter.1 hmem
  exact ⟨hu,hlt,fun v hv hlt => hle v (Finset.mem_filter.2 ⟨hv,hlt⟩)⟩

theorem count_le (m : Thrmask) : m.count ≤ egrpCntMax := by
  have hsub : m.threads ⊆ Finset.range (2 ^ 16) := fun t ht => Finset.mem_range.2 (m.thread_lt t ht)
  have hle := Finset.card_le_card hsub
  rw [Finset.card_range] at hle
  exact hle.trans (by decide)

end Thrmask

abbrev EmEvent := Nat

/-- The arguments of the call; `msg` is what `ctrl_event` holds. -/
structure Call (α : Type) where
  thrMask : Thrmask
  ctrlEvent : EmEvent
  msg : α
  numNotif : Int

/-- Where the caller is in `send_core_ctrl_events`, `internal_done_w_notif_req` or
`evgrp_abort_delete`. -/
inductive Pc where
  | start
  | doneAlloc | doneCreate | doneApply | doneUndo
  | alloc (i : Nat)
  | send (thr : Option Nat)
  | errFree (i : Nat)
  | errNotif | errAbort (num : Nat) | errFreeDone (num : Nat) (ok : Bool) | errDelete
  | returned (ret : Nat)
deriving DecidableEq

/-- An event in the control queue of a thread. -/
structure Sent (α : Type) where
  thr : Nat
  event : EmEvent
  msg : α
deriving DecidableEq

/-- The locals of the caller, its event group, and a record of what it has done. -/
structure State (α : Type) where
  pc : Pc
  events : Nat → Option EmEvent
  contents : EmEvent → Option α
  allocCount : Nat
  sentCount : Nat
  unsentCount : Nat
  /-- the done event of the event group -/
  doneEvent : Option EmEvent
  /-- the counters of the event group, as long as it is created -/
  group : Option EgrpCounter
  /-- the notifications of the event group -/
  notifTbl : List EmEvent
  /-- the indices of `events` that have been written -/
  writes : List Nat
  copies : List EmEvent
  sends : List (Sent α)
  frees : List EmEvent
  /-- events that have been taken from the control queues and counted by the group -/
  started : Nat
  /-- those that have been handled -/
  handled : Nat
  /-- how often the done event has been sent -/
  notified : Nat

/-- What the calls of one step come to. -/
structure Answer where
  /-- `em_alloc` -/
  event : Option EmEvent := none
  /-- `em_event_group_create`, `check_notif_tbl` or `send_ctrl_queue` -/
  ok : Bool := true
  gen : Gen := 0

inductive Label where
  | run (answer : Answer)
  /-- A thread takes an event from its control queue. -/
  | dequeue
  /-- The event has been handled. -/
  | finish

namespace State
variable {α : Type}

/-- The event belongs to no one: `em_alloc` may return it. -/
def Fresh (call : Call α) (s : State α) (e : EmEvent) : Prop :=
  e ≠ call.ctrlEvent ∧ e ∉ s.copies ∧ e ∉ s.doneEvent

instance (call : Call α) (s : State α) (e : EmEvent) : Decidable (s.Fresh call e) :=
  inferInstanceAs (Decidable (_ ∧ _ ∧ _))

def goto (s : State α) (pc : Pc) : State α := { s with pc }

/-- The arguments of `em_event_group_apply` pass its checks. -/
def applyChecks (checkLevel count : Nat) (notifOk : Bool) : Bool :=
  (checkLevel = 0 || (0 < count && count ≤ egrpCntMax)) && (checkLevel < 3 || notifOk)

/-- `em_event_group_apply` with the done event as its notification -/
def apply (checkLevel : Nat) (call : Call α) (s : State α) (notifOk : Bool) : Option (State α) :=
  if applyChecks checkLevel call.thrMask.count notifOk then
    (s.group.bind (·.emEventGroupApply call.thrMask.count)).map fun w =>
      { s with group := some w, notifTbl := s.doneEvent.toList }
  else none

/-- `em_event_group_delete` -/
def deleteGroup (s : State α) : State α :=
  { s with group := s.group.filter (·.applied) }

/-- `em_alloc` of a copy of the control event, in the loop at index `i` -/
def allocCopy (call : Call α) (s : State α) (i : Nat) (e : EmEvent) : State α :=
  { s with
    events := Function.update s.events i (some e)
    writes := i :: s.writes
    contents := Function.update s.contents e (some call.msg)
    allocCount := s.allocCount + 1
    copies := s.copies ++ [e] }

/-- A successful `send_ctrl_queue` to the thread -/
def sendTo (s : State α) (thr : Nat) (e : EmEvent) (msg : α) : State α :=
  { s with
    sends := s.sends ++ [⟨thr,e,msg⟩]
    sentCount := s.sentCount + 1
    unsentCount := s.unsentCount - 1 }

/-- The next step of the caller -/
def runStep (checkLevel : Nat) (call : Call α) (s : State α) (x : Answer) : Option (State α) :=
  match s.pc with
  | .start =>
    some (s.goto (if call.numNotif > emEventGroupMaxNotif then .returned s.unsentCount else .doneAlloc))
  | .doneAlloc => match x.event with
    | none => some (s.goto (.returned s.unsentCount))
    | some e => if s.Fresh call e then some ({ s with doneEvent := some e }.goto .doneCreate) else none
  | .doneCreate =>
    if x.ok then some ({ s with group := some ⟨0,0,false,x.gen⟩ }.goto .doneApply)
    else some ({ s with frees := s.frees ++ s.doneEvent.toList }.goto (.returned s.unsentCount))
  | .doneApply => match s.apply checkLevel call x.ok with
    | some s => some (s.goto (.alloc 0))
    | none => some ({ s with frees := s.frees ++ s.doneEvent.toList }.goto .doneUndo)
  | .doneUndo => some (s.deleteGroup.goto (.returned s.unsentCount))
  | .alloc i =>
    if i + 1 < call.thrMask.count then match x.event with
      | none => some ({ s with
          events := Function.update s.events i none, writes := i :: s.writes }.goto (.errFree s.sentCount))
      | some e => if s.Fresh call e then some ((s.allocCopy call i e).goto (.alloc (i+1))) else none
    -- `ctrl_event` is the last copy
    else some ({ s with
      events := Function.update s.events i (some call.ctrlEvent)
      writes := i :: s.writes }.goto (.send call.thrMask.first))
  | .send none => some (s.goto (.returned 0))
  | .send (some thr) => match s.events s.sentCount with
    | none => none
    | some e => (s.contents e).map fun msg =>
      if x.ok then (s.sendTo thr e msg).goto (.send (call.thrMask.next thr))
      else s.goto (.errFree s.sentCount)
  | .errFree i =>
    if i < s.allocCount then
      some ({ s with frees := s.frees ++ (s.events i).toList }.goto (.errFree (i+1)))
    else some (s.goto .errNotif)
  -- `evgrp_abort_delete`
  | .errNotif =>
    some (s.goto (.errAbort (if s.group.any (·.applied) then min emEventGroupMaxNotif s.notifTbl.length else 0)))
  | .errAbort num => match s.group.bind (·.emEventGroupAbort) with
    | some w => some ({ s with group := some w }.goto (.errFreeDone num true))
    | none => some (s.goto (.errFreeDone num false))
  | .errFreeDone num ok =>
    some ((if ok then { s with frees := s.frees ++ s.notifTbl.take num } else s).goto .errDelete)
  | .errDelete => some (s.deleteGroup.goto (.returned s.unsentCount))
  | .returned _ => none

/-- `event_group_set_local` in the dispatcher of a thread: an event that is not valid for its group is
handled without it. -/
def dequeue (gen : Gen) (s : State α) : Option (State α) :=
  if s.started < s.sends.length then
    (s.group.bind (·.preCountDecrement 1 gen)).map fun w =>
      { s with group := some w, started := s.started + 1 }
  else none

/-- `event_group_count_decrement`: the last event that is handled sends the notifications, and one that
is not valid for its group changes nothing. -/
def finish (gen : Gen) (s : State α) : Option (State α) :=
  if s.handled < s.started then
    (s.group.bind (·.postCountDecrement 1 gen)).map fun w =>
      { s with
        group := some w
        handled := s.handled + 1
        notified := s.notified + if w.postCnt = 0 then s.notifTbl.length else 0 }
  else none

/-- The events carry the generation of the group from when they were sent. -/
def step (checkLevel : Nat) (call : Call α) (s : State α) : Label → Option (State α)
  | .run x => s.runStep checkLevel call x
  | .dequeue => s.group.bind fun w => s.dequeue w.gen
  | .finish => s.group.bind fun w => s.finish w.gen

/-- The caller enters `send_core_ctrl_events`. -/
def entered (call : Call α) : State α where
  pc := .start
  events _ := none
  contents := Function.update (fun _ => none) call.ctrlEvent (some call.msg)
  allocCount := 0
  sentCount := 0
  unsentCount := call.thrMask.count
  doneEvent := none
  group := none
  notifTbl := []
  writes := []
  copies := []
  sends := []
  frees := []
  started := 0
  handled := 0
  notified := 0

def system (checkLevel : Nat) (call : Call α) : System (State α) Label :=
  .ofFn (· = entered call) (step checkLevel call)

end State
end EmOdp.InternalEvent
