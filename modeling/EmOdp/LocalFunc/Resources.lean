import EmOdp.LocalFunc.RequesterSteps
import EmOdp.LocalFunc.HandlerSteps

/-! Every resource of a local function request is freed once, after its last use. -/
namespace EmOdp.LocalFunc
open Lib EventGroup
variable {copies : Nat}

namespace State

/-- A poll by a local function leaves the request's event group alone, and the done event
is sent when the group is complete. -/
def Undisturbed (s : State copies) : Label copies → Prop
  | .poll i _ =>
    match s.handler i with
    | .running egrpGen => s.decremented egrpGen = none
    | _ => True
  | .count _ doneOk => doneOk = true ∨ s.counts.postCnt ≠ 1
  | _ => True

instance (s : State copies) (l : Label copies) : Decidable (s.Undisturbed l) := by
  cases l <;> simp only [Undisturbed] <;> try infer_instance
  split <;> infer_instance

/-- `events[i]` is allocated when the requester has returned. -/
def Allocated (s : State copies) (result : Result) (i : Nat) : Prop :=
  i < s.allocCount ∨ (i = copies ∧ result ≠ .noEvent)

/-- In every state: the return values are not accessed after they are freed, by the done
callback or with `free_at_zero` at zero, an event is sent or freed at most once, and the
callback runs at most once, with all requests handled. -/
structure Accounted (s : State copies) : Prop where
  retvals : Access.UsedThenFreed s.accesses
  freedBy : ∀ p, .free p ∈ s.accesses → s.phase ≠ .returned .badCoreMap → p ≠ .doneCallback →
    s.freeAtZero = 0
  events : ∀ i : Fin (copies + 1), s.handler i ≠ .unsent → s.freed i = 0 ∧ s.received i ≤ 1
  unsent : ∀ i : Fin (copies + 1), s.handler i = .unsent → s.freed i ≤ 1 ∧ s.received i = 0
  callback : s.callbacks ≤ 1 ∧ (s.callbacks = 1 → ∀ i, s.handler i = .ended)

/-- At the end: what was allocated is freed once, and the callback has run if and only if
all requests were sent and handled. -/
structure Settled (s : State copies) (result : Result) : Prop where
  retvals : result ≠ .noEvent → result ≠ .noRetvals → ∃ uses p,
    s.accesses = uses ++ [.free p] ∧ (∀ a ∈ uses, a.isFree = false) ∧
      (p = .doneCallback ↔ result = .sent)
  events : ∀ i : Fin (copies + 1), s.Allocated result i →
    (s.handler i ≠ .unsent ∧ s.freed i = 0 ∧ s.received i = 1) ∨
      (s.handler i = .unsent ∧ s.freed i = 1 ∧ s.received i = 0)
  callback : s.callbacks = 1 ↔ ∀ i, s.handler i = .ended
  doneEvent : s.doneEvent = .absent ∨ s.doneEvent = .freed ∨ s.doneEvent = .ended

end State

private theorem inv_requester {s t : State copies} {l : Label copies} (h : Inv s)
    (ht : s.stepRequester l = some t) : Inv t := by
  have hlate := h.late
  cases l with
  | allocEvent _ | allocRetvals _ | readCoreMap _ | checkNotif | allocDone _ | createGroup _
  | applyGroup _ =>
    simp only [State.stepRequester] at ht
    split at ht
    · rename_i hp
      rw [hp] at hlate
      cases hlate
    · cases ht
  | allocCopy ok =>
    simp only [State.stepRequester] at ht
    split at ht <;> cases ht
    rename_i hc
    cases ok with
    | true => exact h.allocCopy hc.1 hc.2
    | false => exact h.goto hc.1
  | send ok =>
    simp only [State.stepRequester] at ht
    split at ht
    · rename_i hc
      split at ht <;> cases ht
      rename_i hlt
      cases ok with
      | true => exact h.send hc.1 hc.2 hlt
      | false => exact h.goto hc.1
    · cases ht
  | freeCopy =>
    simp only [State.stepRequester] at ht
    split at ht
    · rename_i i hp
      split at ht <;> cases ht
      exact h.freeCopy hp ‹_›
    · cases ht
  | abortDelete =>
    simp only [State.stepRequester] at ht
    split at ht
    · rename_i i hp
      split at ht <;> cases ht
      exact h.abortDelete hp ‹_›
    · cases ht
  | freeEvent =>
    simp only [State.stepRequester] at ht
    split at ht <;> cases ht
    exact h.freeEvent ‹_›
  | subUnsent =>
    simp only [State.stepRequester] at ht
    split at ht <;> cases ht
    exact h.subUnsent ‹_›
  | freeRetvals =>
    simp only [State.stepRequester] at ht
    split at ht <;> cases ht
    exact h.freeRetvals ‹_›
  | _ => cases ht

private theorem inv_done {s t : State copies} {l : Label copies} (h : Inv s)
    (ht : s.stepDone l = some t) : Inv t := by
  cases l with
  | doneReceive | doneFreesRetvals | doneEnds =>
    simp only [State.stepDone] at ht
    split at ht <;> cases ht
    first
    | exact h.doneReceive ‹_›
    | exact h.doneFreesRetvals ‹_›
    | exact h.doneEnds ‹_›
  | _ => cases ht

private theorem inv_step {s t : State copies} {l : Label copies} (h : Inv s)
    (ht : s.step l = some t) (hcond : s.Undisturbed l) : Inv t := by
  cases l with
  | receive i =>
    simp only [State.step] at ht
    cases hi : s.handler i <;> simp only [hi, State.stepHandler] at ht <;> cases ht
    exact h.receive hi
  | subHandled i =>
    simp only [State.step] at ht
    cases hi : s.handler i <;> simp only [hi, State.stepHandler] at ht <;> cases ht
    exact h.subHandled hi
  | lastFree i =>
    simp only [State.step] at ht
    cases hi : s.handler i <;> simp only [hi, State.stepHandler] at ht <;> cases ht
    exact h.lastFree hi
  | freeReceived i =>
    simp only [State.step] at ht
    cases hi : s.handler i <;> simp only [hi, State.stepHandler] at ht <;> cases ht
    exact h.freeReceived hi
  | lastCheck i =>
    simp only [State.step] at ht
    cases hi : s.handler i <;> simp only [hi, State.stepHandler] at ht <;> cases ht
    exact h.advanceUse (by rw [hi]; rfl) (fun h => by cases h) (by rw [hi]; exact .inr rfl) (by rw [hi]; rfl)
      (by rw [hi]; rfl) (by rw [hi]; rfl) (by rw [hi]; rfl) (by rw [hi]; rfl) (by rw [hi]; exact id)
  | localReturns i ok =>
    simp only [State.step] at ht
    cases hi : s.handler i <;> simp only [hi, State.stepHandler] at ht <;> cases ht
    cases ok with
    | false =>
      exact h.advanceUse (by rw [hi]; rfl) (fun h => by cases h) (by rw [hi]; exact .inl rfl) (by rw [hi]; rfl)
        (by rw [hi]; rfl) (by rw [hi]; rfl) (by rw [hi]; rfl) (by rw [hi]; rfl)
        (by rw [hi]; exact id)
    | true =>
      exact h.advance (by rw [hi]; exact (fun h => by cases h)) (fun h => by cases h) (by rw [hi]; rfl) (by rw [hi]; rfl)
        (by rw [hi]; rfl) (by rw [hi]; rfl) (by rw [hi]; rfl) (by rw [hi]; exact id) rfl
        h.accesses fun _ => id
  | poll i doneOk =>
    simp only [State.step] at ht
    cases hi : s.handler i <;> simp only [hi, State.stepHandler] at ht <;> cases ht
    simp only [State.Undisturbed, hi] at hcond
    simp only [State.countDecrement, hcond]
    exact h
  | count i doneOk =>
    simp only [State.step] at ht
    cases hi : s.handler i <;> simp only [hi, State.stepHandler] at ht <;> cases ht
    exact h.count hi hcond
  | doneReceive | doneFreesRetvals | doneEnds =>
    simp only [State.step] at ht
    exact inv_done h ht
  | _ =>
    simp only [State.step] at ht
    exact inv_requester h ht

private theorem reachable_inv {s : State copies}
    (h : (machine copies).ReachableVia (fun s l _ => s.Undisturbed l) s) : Setup s ∨ Inv s := by
  refine h.invariant (I := fun s => Setup s ∨ Inv s) (fun s hi => .inl (setup_initial hi)) fun s l t hs ht hcond => ?_
  rcases hs with hs | hs
  · exact setup_step hs ht
  · exact .inr (inv_step hs ht hcond)

private theorem Setup.accounted {s : State copies} (h : Setup s) : s.Accounted where
  retvals := by
    rw [h.accesses]
    split <;> simp [Access.UsedThenFreed]
  freedBy p hp hcore := by
    rw [h.accesses, if_neg hcore] at hp
    cases hp
  events i hi := absurd (h.handler i) hi
  unsent i _ := by
    refine ⟨?_,h.received i⟩
    rw [h.freed]
    split
    · cases hp : s.phase with
      | returned result => cases result <;> decide
      | _ => simp [Phase.inputFreed]
    · omega
  callback := by simp [h.callbacks]

private theorem Setup.settled {s : State copies} {result : Result} (h : Setup s)
    (hf : s.Final result) : s.Settled result where
  retvals hevent hretvals := by
    have hearly := h.early
    have haccesses := h.accesses
    rw [hf.phase] at hearly haccesses
    cases result <;> simp_all [Phase.early]
    exact ⟨[],by simp⟩
  events i hi := by
    have hearly := h.early
    have hfreed := h.freed i
    rw [hf.phase] at hearly hfreed
    refine .inr ⟨h.handler i,?_,h.received i⟩
    rcases hi with halloc | ⟨hinput,hevent⟩
    · rw [h.allocCount] at halloc
      omega
    · rw [hfreed, if_pos hinput]
      cases result <;> simp_all [Phase.early, Phase.inputFreed]
  callback := by simp [h.callbacks, h.handler]
  doneEvent := by
    left
    rw [h.doneEvent, hf.phase]
    simp

private theorem Inv.freed_le {s : State copies} (h : Inv s) (i : Nat) : s.freed i ≤ 1 := by
  have hle := h.alloc_le
  have hto : s.phase.freedTo s.allocCount ≤ copies := by
    cases hp : s.phase with
    | freeing k =>
      have := (h.freeing k hp).2
      simp [Phase.freedTo]
      omega
    | returned result => cases result <;> simp [Phase.freedTo, hle]
    | _ => simp [Phase.freedTo, hle]
  have hinput : s.phase.inputFreed ≤ 1 := by
    cases hp : s.phase with
    | returned result => cases result <;> decide
    | _ => simp [Phase.inputFreed]
  rw [h.freed i]
  split
  · rw [within_end (by omega)]
    omega
  · simp only [within]
    split <;> omega

private theorem Inv.freed_sent {s : State copies} (h : Inv s) {i : Nat} (hi : i < s.sentCount) :
    s.freed i = 0 := by
  have hle := h.sent_le
  rw [h.freed i, within, if_neg (by omega)]
  split
  · have hphase := h.complete.1 (by omega)
    rw [hphase]
    rfl
  · rfl

private theorem Inv.accounted {s : State copies} (h : Inv s) : s.Accounted where
  retvals := h.accesses
  freedBy p hp hcore hne := by
    have hdone : s.doneEvent.retvalFrees ≠ 1 := fun hd => hne ((h.freedBy p hp).2 hd)
    have hzero : s.doneEvent.retvalFrees = 0 := by
      cases hd : s.doneEvent <;> simp_all [DoneEvent.retvalFrees]
    have hpos : 0 < Access.frees s.accesses := List.countP_pos_iff.2 ⟨_,hp,rfl⟩
    have hlast := h.lastUser
    by_contra hfree
    rw [if_neg hfree] at hlast
    omega
  events i hi := by
    refine ⟨h.freed_sent (Nat.lt_of_not_le fun hle => hi ((h.unsent i).2 hle)),?_⟩
    rw [h.received i]
    cases s.handler i <;> simp [Handler.received]
  unsent i hi := by
    refine ⟨h.freed_le i,?_⟩
    rw [h.received i, hi]
    rfl
  callback := by
    rw [h.callbacks]
    refine ⟨by cases s.doneEvent <;> simp [DoneEvent.callbacks],fun hd => (h.all_ended ?_).2⟩
    cases hs : s.doneEvent <;> simp_all [DoneEvent.callbacks, DoneEvent.sent]

private theorem Inv.final_result {s : State copies} {result : Result} (h : Inv s)
    (hf : s.Final result) : result = .failed ∨ result = .sent := by
  have hlate := h.late
  rw [hf.phase] at hlate
  cases result <;> simp_all [Phase.early]

/-- All requests are handled, so the event group is complete and the callback has run. -/
private theorem Inv.final_sent {s : State copies} (h : Inv s) (hf : s.Final .sent) :
    s.doneEvent = .ended ∧ ∀ i, s.handler i = .ended := by
  have hended : ∀ i, s.handler i = .ended := fun i => by
    refine (hf.handler i).resolve_left fun hi => ?_
    have := (h.unsent i).1 hi
    have := h.complete.2 hf.phase
    omega
  have hlive : s.phase.live = true := by rw [hf.phase]; rfl
  have hpost := h.postCnt hlive
  simp only [hended, Handler.counted, Finset.sum_const, Finset.card_univ, Fintype.card_fin,
    smul_eq_mul, mul_one] at hpost
  have hzero : s.counts.postCnt = 0 := BitVec.eq_of_toNat_eq (by simpa using hpost)
  have hsent := h.doneSent.2 ⟨hlive,hzero⟩
  refine ⟨?_,hended⟩
  obtain ⟨hqueued,hcallback,hfreed⟩ := hf.doneEvent
  cases hd : s.doneEvent <;> simp_all [DoneEvent.sent]

/-- All shares of `free_at_zero` are given up. -/
private theorem Inv.final_failed {s : State copies} (h : Inv s) (hf : s.Final .failed) :
    Access.frees s.accesses = 1 ∧ s.doneEvent.retvalFrees = 0 ∧ s.callbacks = 0 := by
  have hdone : s.doneEvent = .absent ∨ s.doneEvent = .freed :=
    h.doneFreed (by rw [hf.phase]; rfl)
  have hretvals : s.doneEvent.retvalFrees = 0 := by
    rcases hdone with hd | hd <;> rw [hd] <;> rfl
  have hcallbacks : s.callbacks = 0 := by
    rw [h.callbacks]
    rcases hdone with hd | hd <;> rw [hd] <;> rfl
  have hsubbed : ∑ i, (s.handler i).subbed = s.sentCount := by
    rw [← h.sum_sent]
    refine Finset.sum_congr rfl fun i _ => ?_
    rcases hf.handler i with hi | hi <;> rw [hi] <;> rfl
  have hlastUsers : ∑ i, (s.handler i).lastUsers = 0 := by
    refine Finset.sum_eq_zero fun i _ => ?_
    rcases hf.handler i with hi | hi <;> rw [hi] <;> rfl
  have hfree := h.freeAtZero
  have hlast := h.lastUser
  have hle := h.sent_le
  simp only [hf.phase, Phase.subbed, Phase.lastUsers, if_true] at hfree hlast
  rw [if_pos (by omega)] at hlast
  exact ⟨by omega,hretvals,hcallbacks⟩

private theorem freed_last {n : Nat} {accesses : List (Access n)}
    (hused : Access.UsedThenFreed accesses) (hfrees : Access.frees accesses = 1) :
    ∃ uses p, accesses = uses ++ [.free p] ∧ ∀ a ∈ uses, a.isFree = false := by
  rcases List.eq_nil_or_concat' accesses with rfl | ⟨uses,a,rfl⟩
  · cases hfrees
  have huses : ∀ b ∈ uses, b.isFree = false := by
    rw [Access.UsedThenFreed, List.dropLast_concat] at hused
    exact hused
  have hnone : Access.frees uses = 0 :=
    List.countP_eq_zero.2 fun b hb => by simp [huses b hb]
  rw [Access.frees_concat, hnone] at hfrees
  cases a with
  | use p => simp [Access.isFree] at hfrees
  | free p => exact ⟨uses,p,rfl,huses⟩

private theorem Inv.settled {s : State copies} {result : Result} (h : Inv s)
    (hf : s.Final result) : s.Settled result := by
  rcases h.final_result hf with rfl | rfl
  · obtain ⟨hfrees,hretvals,hcallbacks⟩ := h.final_failed hf
    have hsent : s.sentCount ≠ copies + 1 := fun he => by
      have := h.complete.1 he
      simp [hf.phase] at this
    have hle := h.sent_le
    refine ⟨fun _ _ => ?_,fun i halloc => ?_,?_,?_⟩
    · obtain ⟨uses,p,heq,huses⟩ := freed_last h.accesses hfrees
      refine ⟨uses,p,heq,huses,?_⟩
      rw [h.freedBy p (by simp [heq]), hretvals]
      simp
    · have hreceived := h.received i
      rcases hf.handler i with hi | hi
      · refine .inr ⟨hi,?_,by rw [hreceived, hi]; rfl⟩
        have hunsent := (h.unsent i).1 hi
        have hallocLe := h.alloc_le
        rw [h.freed i, hf.phase]
        show within s.sentCount s.allocCount i + (if (i : Nat) = copies then 1 else 0) = 1
        rcases halloc with hlt | ⟨heq,-⟩
        · rw [within_mid hunsent hlt, if_neg (by omega)]
        · rw [within_end (by omega), if_pos heq]
      · have hi' : s.handler i ≠ .unsent := by simp [hi]
        refine .inl ⟨hi',?_,by rw [hreceived, hi]; rfl⟩
        exact h.freed_sent (Nat.lt_of_not_le fun hle => hi' ((h.unsent i).2 hle))
    · have hunsent := (h.unsent ⟨s.sentCount,by omega⟩).2 (Nat.le_refl _)
      refine iff_of_false (by omega) fun hall => ?_
      rw [hall] at hunsent
      cases hunsent
    · rcases h.doneFreed (by rw [hf.phase]; rfl) with hd | hd <;> simp [hd]
  · obtain ⟨hdone,hended⟩ := h.final_sent hf
    have hfrees := (h.callback_shares (by rw [hdone]; rfl)).1
    rw [hdone] at hfrees
    refine ⟨fun _ _ => ?_,fun i _ => .inl ⟨by simp [hended],?_,?_⟩,?_,by simp [hdone]⟩
    · obtain ⟨uses,p,heq,huses⟩ := freed_last h.accesses hfrees
      refine ⟨uses,p,heq,huses,?_⟩
      rw [h.freedBy p (by simp [heq]), hdone]
      simp [DoneEvent.retvalFrees]
    · refine h.freed_sent ?_
      have := h.complete.2 hf.phase
      omega
    · rw [h.received i, hended]
      rfl
    · rw [h.callbacks, hdone]
      exact iff_of_true rfl hended

/-- The resources of a request are accounted for in every state that is reached while no
poll of a local function counts the request's event group and the done event is sent. -/
theorem request_resources {s : State copies}
    (h : (machine copies).ReachableVia (fun s l _ => s.Undisturbed l) s) :
    s.Accounted ∧ ∀ result, s.Final result → s.Settled result := by
  rcases reachable_inv h with hs | hs
  · exact ⟨hs.accounted,fun _ hf => hs.settled hf⟩
  · exact ⟨hs.accounted,fun _ hf => hs.settled hf⟩

/-- Two cores and counters of an unused event group. -/
private def twoCoreRequest : State 1 :=
  { numNotif := 0, counts := { preCnt := 0, postCnt := 0, applied := false, gen := 0 } }

private def setupLabels : List (Label 1) :=
  [.allocEvent true, .allocRetvals true, .readCoreMap true, .checkNotif, .allocDone true,
    .createGroup (some 0), .applyGroup true, .allocCopy true]

/-- The second send fails while the first request is handled; its core frees last. -/
private def secondFails : Option (State 1) :=
  System.exec State.step (fun s l _ => decide (s.Undisturbed l)) twoCoreRequest
    (setupLabels ++ [.send true, .receive 0, .send false, .localReturns 0 false, .abortDelete,
      .freeEvent, .subUnsent, .subHandled 0, .lastCheck 0, .lastFree 0, .freeReceived 0,
      .count 0 true])

private theorem secondFails_isSome : secondFails.isSome = true := by decide

theorem request_resources_secondFails : ∃ s : State 1,
    (machine 1).ReachableVia (fun s l _ => s.Undisturbed l) s ∧ s.Settled .failed := by
  have h : (machine 1).ReachableVia (fun s l _ => s.Undisturbed l)
      (secondFails.get secondFails_isSome) :=
    System.ReachableVia.exec (fun _ _ _ => of_decide_eq_true) (.start ⟨rfl⟩)
      (Option.some_get secondFails_isSome).symm
  refine ⟨_,h,(request_resources h).2 .failed ⟨?_,?_,?_⟩⟩
  · decide
  · decide
  · decide

/-- The local function on the first core polls an event without an event group. -/
private def polled : Option (State 1) :=
  System.exec State.step (fun _ _ _ => true) twoCoreRequest
    (setupLabels ++ [.send true, .send true, .receive 0, .poll 0 true, .localReturns 0 true,
      .subHandled 0, .freeReceived 0, .count 0 true, .doneReceive, .doneFreesRetvals, .receive 1,
      .localReturns 1 true, .subHandled 1])

private theorem polled_isSome : polled.isSome = true := by decide

/-- The return values are used after the done callback has freed them. -/
theorem polled_retvals_freed_early : ∃ s : State 1, (machine 1).Reachable s ∧ ¬s.Accounted := by
  refine ⟨polled.get polled_isSome,?_,fun h => ?_⟩
  · exact System.ReachableVia.exec (fun _ _ _ _ => trivial) (.start ⟨rfl⟩)
      (Option.some_get polled_isSome).symm
  · have hused := h.retvals
    simp only [Access.UsedThenFreed] at hused
    revert hused
    decide

end EmOdp.LocalFunc
