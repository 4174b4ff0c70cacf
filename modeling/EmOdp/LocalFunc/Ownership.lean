import Mathlib.Tactic.Common
import EmOdp.Lib.CoreSum
import EmOdp.LocalFunc.Request

/-! What the parties of a local function request still owe: accesses to the return values
against `free_at_zero`, and handled requests against the event group. -/
namespace EmOdp.LocalFunc
open Lib EventGroup

namespace Phase

/-- The event group is applied by this request and not aborted. -/
def live : Phase → Bool
  | .events | .freeing _ | .returned .sent => true
  | _ => false

/-- `send_core_ctrl_events` has failed. -/
def hasFailed : Phase → Bool
  | .failed | .eventFreed | .lastUser | .returned .failed => true
  | _ => false

/-- No ctrl event is allocated yet, or ever. -/
def early : Phase → Bool
  | .start | .haveEvent | .haveRetvals | .ready | .doneSetup | .doneAllocated | .groupCreated
  | .returned .noEvent | .returned .noRetvals | .returned .badCoreMap => true
  | _ => false

/-- The requester has given up its share of `free_at_zero`. -/
def subbed : Phase → Bool
  | .lastUser | .returned .failed => true
  | _ => false

def lastUsers : Phase → Nat
  | .lastUser => 1
  | _ => 0

/-- The bound up to which the allocated events are freed. -/
def freedTo (allocCount : Nat) : Phase → Nat
  | .freeing i => i
  | .failed | .eventFreed | .lastUser | .returned .failed => allocCount
  | _ => 0

/-- The ctrl event is freed by the requester. -/
def inputFreed : Phase → Nat
  | .eventFreed | .lastUser | .returned .failed | .returned .noRetvals
  | .returned .badCoreMap => 1
  | _ => 0

end Phase

namespace Handler

/-- The core has given up its share of `free_at_zero`. -/
def subbed : Handler → Nat
  | .lastUser _ | .lastChecked _ | .handled _ | .eventFreed _ | .ended => 1
  | .unsent | .queued _ | .running _ | .recorded _ => 0

def lastUsers : Handler → Nat
  | .lastUser _ | .lastChecked _ => 1
  | _ => 0

def received : Handler → Nat
  | .eventFreed _ | .ended => 1
  | .unsent | .queued _ | .running _ | .recorded _ | .lastUser _ | .lastChecked _ | .handled _ => 0

/-- counted by `event_group_set_local` and by `event_group_count_decrement` -/
def begun : Handler → Nat
  | .unsent | .queued _ => 0
  | _ => 1

def counted : Handler → Nat
  | .ended => 1
  | _ => 0

def sent : Handler → Nat
  | .unsent => 0
  | _ => 1

/-- The request counts for generation `gen`. -/
def Tagged (gen : Gen) : Handler → Prop
  | .unsent | .ended => True
  | .queued g => g = gen
  | .running g | .recorded g | .lastUser g | .lastChecked g | .handled g | .eventFreed g =>
    g = some gen

end Handler

namespace DoneEvent

/-- Sent, as the event group has counted all requests. -/
def sent : DoneEvent → Bool
  | .queued | .callback | .retvalsFreed | .ended => true
  | _ => false

def callbacks : DoneEvent → Nat
  | .callback | .retvalsFreed | .ended => 1
  | _ => 0

def retvalFrees : DoneEvent → Nat
  | .retvalsFreed | .ended => 1
  | _ => 0

end DoneEvent

namespace Access
variable {n : Nat}

def isFree : Access n → Bool
  | .use _ => false
  | .free _ => true

def frees (accesses : List (Access n)) : Nat := accesses.countP isFree

/-- Nothing follows the access that frees. -/
def UsedThenFreed (accesses : List (Access n)) : Prop := ∀ a ∈ accesses.dropLast, a.isFree = false

theorem frees_concat (accesses : List (Access n)) (a : Access n) :
    frees (accesses ++ [a]) = frees accesses + (if a.isFree then 1 else 0) := by
  simp [frees, List.countP_append, List.countP_singleton]

theorem UsedThenFreed.concat {accesses : List (Access n)} (h : frees accesses = 0) (a : Access n) :
    UsedThenFreed (accesses ++ [a]) := by
  intro b hb
  rw [List.dropLast_concat] at hb
  simpa using List.countP_eq_zero.1 h b hb

end Access

variable {copies : Nat}

/-- How often `i` is visited by a loop from `lo` up to `hi`. -/
def within (lo hi i : Nat) : Nat := if lo ≤ i ∧ i < hi then 1 else 0

theorem within_of_le {lo hi : Nat} (h : hi ≤ lo) (i : Nat) : within lo hi i = 0 :=
  if_neg (by omega)

@[simp] theorem within_self (lo i : Nat) : within lo lo i = 0 := within_of_le (Nat.le_refl lo) i

theorem within_end {lo hi i : Nat} (h : hi ≤ i) : within lo hi i = 0 := if_neg (by omega)

theorem within_mid {lo hi i : Nat} (hlo : lo ≤ i) (hhi : i < hi) : within lo hi i = 1 :=
  if_pos ⟨hlo,hhi⟩

theorem within_succ {lo hi : Nat} (h : lo ≤ hi) (i : Nat) :
    within lo (hi + 1) i = within lo hi i + (if i = hi then 1 else 0) := by
  simp only [within]
  split <;> split <;> split <;> omega

/-- No ctrl event is allocated yet, or ever. -/
structure Setup (s : State copies) : Prop where
  early : s.phase.early = true
  allocCount : s.allocCount = 0
  sentCount : s.sentCount = 0
  handler : ∀ i, s.handler i = .unsent
  received : ∀ i, s.received i = 0
  freed : ∀ i, s.freed i = if i = copies then s.phase.inputFreed else 0
  doneEvent : s.doneEvent =
    if s.phase = .doneAllocated ∨ s.phase = .groupCreated then .held else .absent
  unapplied : s.phase = .groupCreated → s.counts.applied = false
  callbacks : s.callbacks = 0
  freeAtZero : s.phase = .ready ∨ s.phase = .doneSetup ∨ s.phase = .doneAllocated ∨
    s.phase = .groupCreated → s.freeAtZero = copies + 2
  accesses : s.accesses = if s.phase = .returned .badCoreMap then [.free .requester] else []

/-- The shares of `free_at_zero` and of the event group once ctrl events are allocated,
or `send_core_ctrl_events` has failed. -/
structure Inv (s : State copies) : Prop where
  late : s.phase.early = false
  alloc_le : s.allocCount ≤ copies
  sent_le : s.sentCount ≤ copies + 1
  allocated : 0 < s.sentCount → s.allocCount = copies
  complete : s.sentCount = copies + 1 ↔ s.phase = .returned .sent
  freeing : ∀ i, s.phase = .freeing i → s.sentCount ≤ i ∧ i ≤ s.allocCount
  unsent : ∀ i : Fin (copies + 1), s.handler i = .unsent ↔ s.sentCount ≤ i
  received : ∀ i : Fin (copies + 1), s.received i = (s.handler i).received
  freed : ∀ i, s.freed i =
    within s.sentCount (s.phase.freedTo s.allocCount) i + (if i = copies then s.phase.inputFreed else 0)
  tagged : s.phase.live → ∀ i, (s.handler i).Tagged s.counts.gen
  preCnt : s.phase.live → s.counts.preCnt.toNat + ∑ i, (s.handler i).begun = copies + 1
  postCnt : s.phase.live → s.counts.postCnt.toNat + ∑ i, (s.handler i).counted = copies + 1
  applied : s.phase.live → (s.counts.applied = true ↔ s.counts.postCnt ≠ 0)
  doneHeld : s.phase.live → s.counts.postCnt ≠ 0 → s.doneEvent = .held
  doneSent : s.doneEvent.sent ↔ s.phase.live ∧ s.counts.postCnt = 0
  aborted : s.phase.hasFailed → s.counts.postCnt = 0 ∨ s.sentCount = 0
  doneFreed : s.phase.hasFailed → s.doneEvent = .absent ∨ s.doneEvent = .freed
  callbacks : s.callbacks = s.doneEvent.callbacks
  freeAtZero : s.freeAtZero + ∑ i, (s.handler i).subbed +
    (if s.phase.subbed then copies + 2 - s.sentCount else 0) = copies + 2
  lastUser : Access.frees s.accesses + ∑ i, (s.handler i).lastUsers + s.phase.lastUsers =
    (if s.freeAtZero = 0 then 1 else 0) + s.doneEvent.retvalFrees
  accesses : Access.UsedThenFreed s.accesses
  freedBy : ∀ p, .free p ∈ s.accesses → (p = .doneCallback ↔ s.doneEvent.retvalFrees = 1)

attribute [local simp] Phase.live Phase.hasFailed Phase.early Phase.subbed Phase.lastUsers
  Phase.freedTo Phase.inputFreed Handler.subbed Handler.lastUsers Handler.received Handler.begun
  Handler.counted Handler.sent Handler.Tagged DoneEvent.sent DoneEvent.callbacks
  DoneEvent.retvalFrees Access.frees Access.UsedThenFreed

theorem setup_initial {s : State copies} (hi : Initial s) : Setup s := by
  rw [hi.begins]
  constructor <;> simp

/-- `send_core_ctrl_events` fails before it allocates a ctrl event. -/
theorem Setup.failed {s : State copies} (h : Setup s) (doneEvent : DoneEvent)
    (hfree : s.freeAtZero = copies + 2) (hinput : s.phase.inputFreed = 0)
    (hdone : doneEvent = .absent ∨ doneEvent = .freed) (hlog : s.phase ≠ .returned .badCoreMap) :
    Inv { s with phase := .failed, doneEvent } := by
  have haccesses := h.accesses
  have hfreed := h.freed
  rw [if_neg hlog] at haccesses
  simp only [hinput, ite_self] at hfreed
  refine { late := rfl, alloc_le := ?_, sent_le := ?_, allocated := ?_, complete := ?_,
           freeing := ?_, unsent := ?_, received := ?_, freed := ?_, tagged := ?_, preCnt := ?_,
           postCnt := ?_, applied := ?_, doneHeld := ?_, doneSent := ?_, aborted := ?_,
           doneFreed := fun _ => hdone, callbacks := ?_, freeAtZero := ?_, lastUser := ?_,
           accesses := ?_, freedBy := ?_ }
  all_goals rcases hdone with rfl | rfl <;> simp [h.allocCount, h.sentCount, h.handler, h.received,
    hfreed, h.callbacks, haccesses, hfree]

/-- The event group is applied and the ctrl events are allocated next. -/
theorem Setup.events {s : State copies} {w : EgrpCounter} (h : Setup s)
    (hp : s.phase = .groupCreated) (hmax : copies + 1 ≤ egrpCntMax)
    (hw : s.counts.emEventGroupApply (copies + 1) = some w) :
    Inv { s with phase := .events, counts := w } := by
  obtain ⟨-,hpre,hpost,happlied,-⟩ := EgrpCounter.emEventGroupApply_some hmax hw
  have hne : ¬w.postCnt = BitVec.ofNat egrpCntBits 0 := fun h0 => by rw [h0] at hpost; simp at hpost
  have haccesses := h.accesses
  have hfreed := h.freed
  have hdone := h.doneEvent
  have hfree := h.freeAtZero (by simp [hp])
  simp only [hp, reduceCtorEq, if_false, or_true, if_true] at haccesses hdone
  simp only [hp, Phase.inputFreed, ite_self] at hfreed
  constructor <;> simp [h.allocCount, h.sentCount, h.handler, h.received, hfreed, h.callbacks,
    haccesses, hfree, hdone, hpre, hpost, hne, happlied]

theorem Setup.doneUnsent {s : State copies} (h : Setup s) : s.doneEvent.sent = false := by
  rw [h.doneEvent]
  split <;> rfl

theorem setup_step {s t : State copies} {l : Label copies} (h : Setup s)
    (ht : s.step l = some t) : Setup t ∨ Inv t := by
  have hearly := h.early
  have hdone := h.doneEvent
  cases l with
  | receive i | poll i _ | localReturns i _ | subHandled i | lastCheck i | lastFree i
  | freeReceived i | count i _ => simp [State.step, State.stepHandler, h.handler] at ht
  | doneReceive | doneFreesRetvals | doneEnds =>
    simp only [State.step, State.stepDone] at ht
    split at ht <;> cases ht
    rename_i hd
    have hunsent := h.doneUnsent
    rw [hd] at hunsent
    cases hunsent
  | allocCopy _ | send _ | freeEvent | subUnsent | freeRetvals =>
    simp only [State.step, State.stepRequester] at ht
    split at ht
    · simp_all
    · cases ht
  | freeCopy | abortDelete =>
    simp only [State.step, State.stepRequester] at ht
    split at ht
    · simp_all
    · cases ht
  | allocEvent ok =>
    simp only [State.step, State.stepRequester] at ht
    split at ht <;> cases ht
    left
    have ⟨_,_,_,_,_,_,_,_,_,_,_⟩ := h
    cases ok <;> constructor <;> simp_all
  | allocRetvals ok =>
    simp only [State.step, State.stepRequester] at ht
    split at ht <;> cases ht
    left
    have ⟨_,_,_,_,_,_,_,_,_,_,_⟩ := h
    cases ok <;> constructor <;> simp_all [State.freeEvents, Function.update_apply]
  | readCoreMap ok =>
    simp only [State.step, State.stepRequester] at ht
    split at ht <;> cases ht
    left
    have ⟨_,_,_,_,_,_,_,_,_,_,_⟩ := h
    cases ok <;> constructor <;> simp_all [State.freeEvents, State.access, Function.update_apply]
  | checkNotif =>
    simp only [State.step, State.stepRequester] at ht
    split at ht <;> cases ht
    rename_i hp
    split
    · right
      have hfree := h.freeAtZero (by simp [hp])
      exact h.failed s.doneEvent hfree (by simp [hp]) (by simp [hdone, hp]) (by simp [hp])
    · left
      have ⟨_,_,_,_,_,_,_,_,_,_,_⟩ := h
      constructor <;> simp_all
  | allocDone ok =>
    simp only [State.step, State.stepRequester] at ht
    split at ht <;> cases ht
    rename_i hp
    cases ok with
    | false =>
      right
      have hfree := h.freeAtZero (by simp [hp])
      exact h.failed s.doneEvent hfree (by simp [hp]) (by simp [hdone, hp]) (by simp [hp])
    | true =>
      left
      have ⟨_,_,_,_,_,_,_,_,_,_,_⟩ := h
      constructor <;> simp_all
  | createGroup egrpGen =>
    simp only [State.step, State.stepRequester] at ht
    split at ht
    swap
    · cases ht
    rename_i hp
    split at ht <;> cases ht
    · left
      have ⟨_,_,_,_,_,_,_,_,_,_,_⟩ := h
      constructor <;> simp_all
    · right
      have hfree := h.freeAtZero (by simp [hp])
      exact h.failed .freed hfree (by simp [hp]) (.inr rfl) (by simp [hp])
  | applyGroup ok =>
    simp only [State.step, State.stepRequester] at ht
    split at ht
    swap
    · cases ht
    rename_i hp
    split at ht
    · rename_i hok
      obtain ⟨w,hw,rfl⟩ := Option.map_eq_some_iff.1 ht
      exact .inr (h.events hp hok.2 hw)
    · cases ht
      have hfree := h.freeAtZero (by simp [hp])
      exact .inr (h.failed .freed hfree (by simp [hp]) (.inr rfl) (by simp [hp]))

theorem sum_handler (f : Handler → Nat) (handler : Fin (copies + 1) → Handler)
    (i : Fin (copies + 1)) (a : Handler) :
    ∑ j, f (Function.update handler i a j) + f (handler i) = ∑ j, f (handler j) + f a := by
  have hupdate : ∀ j, f (Function.update handler i a j) =
      Function.update (fun j => f (handler j)) i (f a) j := fun j =>
    Function.apply_update (fun _ => f) handler i a j
  simp only [hupdate]
  exact sum_update (fun j => f (handler j)) i (f a)

theorem sum_handler_same {f : Handler → Nat} {handler : Fin (copies + 1) → Handler}
    {i : Fin (copies + 1)} {a : Handler} (h : f a = f (handler i)) :
    ∑ j, f (Function.update handler i a j) = ∑ j, f (handler j) := by
  have := sum_handler f handler i a
  omega

private theorem retvalFrees_of_unsent {d : DoneEvent} (hd : d.sent = false) : d.retvalFrees = 0 := by
  cases d <;> simp_all

section Shares
variable {s : State copies} (h : Inv s)
include h

theorem Inv.sum_sent : ∑ i, (s.handler i).sent = s.sentCount := by
  have hsent : ∀ i : Fin (copies + 1),
      (s.handler i).sent = if (i : Nat) < s.sentCount then 1 else 0 := by
    intro i
    have hi := h.unsent i
    split
    · cases hc : s.handler i <;> simp_all
      omega
    · rw [hi.2 (by omega), Handler.sent]
  simp only [hsent]
  rw [Fin.sum_univ_eq_sum_range (fun i => if i < s.sentCount then 1 else 0), Finset.sum_boole]
  have hfilter : (Finset.range (copies + 1)).filter (· < s.sentCount) = Finset.range s.sentCount := by
    have := h.sent_le
    ext i
    simp only [Finset.mem_filter, Finset.mem_range]
    omega
  simp [hfilter]

theorem Inv.sum_subbed_le : ∑ i, (s.handler i).subbed ≤ s.sentCount := by
  rw [← h.sum_sent]
  exact Finset.sum_le_sum fun i _ => by cases s.handler i <;> simp

theorem Inv.sum_subbed_lt {i : Fin (copies + 1)} (hsent : (s.handler i).sent = 1)
    (hsub : (s.handler i).subbed = 0) : ∑ i, (s.handler i).subbed < s.sentCount := by
  rw [← h.sum_sent]
  refine Finset.sum_lt_sum (fun j _ => ?_) ⟨i,Finset.mem_univ i,by omega⟩
  cases s.handler j <;> simp

/-- No request is unaccounted for, so the group is not complete yet. -/
theorem Inv.postCnt_ne {i : Fin (copies + 1)} (hlive : s.phase.live = true)
    (hi : s.handler i ≠ .ended) : s.counts.postCnt ≠ 0 := by
  intro h0
  have hpost := h.postCnt hlive
  have hall : ∑ j, (s.handler j).counted = ∑ _j : Fin (copies + 1), 1 := by
    simp only [h0] at hpost
    simpa using hpost
  have hle : ∀ j ∈ Finset.univ, (s.handler j).counted ≤ 1 := fun j _ => by
    cases s.handler j <;> simp
  have := (Finset.sum_eq_sum_iff_of_le hle).1 hall i (Finset.mem_univ i)
  cases hc : s.handler i <;> simp_all

/-- The done event is not sent before all requests are handled. -/
theorem Inv.doneUnsent {i : Fin (copies + 1)} (hi : s.handler i ≠ .ended) :
    s.doneEvent.sent = false := by
  by_contra hsent
  rw [Bool.not_eq_false, h.doneSent] at hsent
  exact h.postCnt_ne hsent.1 hi hsent.2

/-- A core with a share of `free_at_zero`, or that has brought it to zero, may still access
the return values. -/
theorem Inv.unfreed {i : Fin (copies + 1)} (hsent : (s.handler i).sent = 1)
    (hshare : (s.handler i).subbed = 0 ∨ (s.handler i).lastUsers = 1) :
    Access.frees s.accesses = 0 ∧ s.doneEvent.retvalFrees = 0 := by
  have hended : s.handler i ≠ .ended := by
    intro hc
    simp [hc] at hshare
  have hdone := retvalFrees_of_unsent (h.doneUnsent hended)
  have hlast := h.lastUser
  have hfree := h.freeAtZero
  refine ⟨?_,hdone⟩
  rcases hshare with hsub | hlastUser
  · have hlt := h.sum_subbed_lt hsent hsub
    have hpos : s.freeAtZero ≠ 0 := by
      split at hfree <;> have := h.sent_le <;> omega
    rw [if_neg hpos] at hlast
    omega
  · have hle := le_sum (fun j => (s.handler j).lastUsers) i
    simp only [hlastUser] at hle
    split at hlast <;> omega

end Shares

end EmOdp.LocalFunc
