import EmOdp.LocalFunc.Ownership

/-! The requester's steps keep the shares. -/
namespace EmOdp.LocalFunc
open Lib EventGroup
variable {copies : Nat}

attribute [local simp] Phase.live Phase.hasFailed Phase.early Phase.subbed Phase.lastUsers
  Phase.freedTo Phase.inputFreed Handler.subbed Handler.lastUsers Handler.received Handler.begun
  Handler.counted Handler.sent Handler.Tagged DoneEvent.sent DoneEvent.callbacks
  DoneEvent.retvalFrees Access.frees Access.UsedThenFreed

section Requester
variable {s : State copies} (h : Inv s)
include h

theorem Inv.allocCopy (hp : s.phase = .events) (hlt : s.allocCount < copies) :
    Inv { s with allocCount := s.allocCount + 1 } :=
  { h with
    alloc_le := hlt
    allocated := fun h0 => absurd (h.allocated h0) (Nat.ne_of_lt hlt)
    freeing := by simp [hp]
    freed := by simpa [hp] using h.freed }

/-- The requester goes on and no share changes hands. -/
theorem Inv.rephase {phase : Phase} {freed : Nat → Nat} (hlate : phase.early = false)
    (hlive : phase.live = s.phase.live) (hfailed : phase.hasFailed = s.phase.hasFailed)
    (hsubbed : phase.subbed = s.phase.subbed) (hlast : phase.lastUsers = s.phase.lastUsers)
    (hsent : phase = .returned .sent ↔ s.phase = .returned .sent)
    (hfreeing : ∀ i, phase = .freeing i → s.sentCount ≤ i ∧ i ≤ s.allocCount)
    (hfreed : ∀ i, freed i = within s.sentCount (phase.freedTo s.allocCount) i +
      (if i = copies then phase.inputFreed else 0)) :
    Inv { s with phase, freed } :=
  { h with
    late := hlate
    complete := h.complete.trans hsent.symm
    freeing := hfreeing
    freed := hfreed
    tagged := fun hp => h.tagged (hlive ▸ hp)
    preCnt := fun hp => h.preCnt (hlive ▸ hp)
    postCnt := fun hp => h.postCnt (hlive ▸ hp)
    applied := fun hp => h.applied (hlive ▸ hp)
    doneHeld := fun hp => h.doneHeld (hlive ▸ hp)
    doneSent := by simpa only [hlive] using h.doneSent
    aborted := fun hp => h.aborted (hfailed ▸ hp)
    doneFreed := fun hp => h.doneFreed (hfailed ▸ hp)
    freeAtZero := by simpa only [hsubbed] using h.freeAtZero
    lastUser := by simpa only [hlast] using h.lastUser }

/-- `goto err_free_resources` -/
theorem Inv.goto (hp : s.phase = .events) : Inv { s with phase := .freeing s.sentCount } := by
  have hsent : s.sentCount ≤ s.allocCount := by
    have := h.allocated
    have := h.alloc_le
    have := h.sent_le
    have hne : s.sentCount ≠ copies + 1 := fun he => by simp [h.complete.1 he] at hp
    omega
  apply h.rephase
  case hfreeing =>
    rintro i ⟨⟩
    exact ⟨Nat.le_refl _,hsent⟩
  case hfreed =>
    intro i
    rw [h.freed i, hp]
    simp [within_of_le]
  all_goals simp [hp]

theorem Inv.freeCopy {i : Nat} (hp : s.phase = .freeing i) (hi : i < s.allocCount) :
    Inv { s.freeEvents i with phase := .freeing (i+1) } := by
  have hle := h.freeing i hp
  apply h.rephase
  case hfreeing =>
    rintro j ⟨⟩
    exact ⟨Nat.le_succ_of_le hle.1,hi⟩
  case hfreed =>
    intro j
    have hj := h.freed j
    simp only [hp, Phase.freedTo, Phase.inputFreed] at hj
    simp only [State.freeEvents, Phase.freedTo, Phase.inputFreed, within_succ hle.1,
      Function.update_apply]
    split
    · subst j
      omega
    · omega
  all_goals simp [hp]

theorem Inv.freeEvent (hp : s.phase = .failed) :
    Inv { s.freeEvents copies with phase := .eventFreed } := by
  apply h.rephase
  case hfreed =>
    intro j
    have hj := h.freed j
    simp only [hp, Phase.freedTo, Phase.inputFreed, ite_self] at hj
    simp only [State.freeEvents, Phase.freedTo, Phase.inputFreed, Function.update_apply]
    split
    · subst j
      omega
    · omega
  all_goals simp [hp]

theorem Inv.send (hp : s.phase = .events) (halloc : s.allocCount = copies)
    (hlt : s.sentCount < copies + 1) :
    Inv { s with
      handler := Function.update s.handler ⟨s.sentCount,hlt⟩ (.queued s.counts.gen)
      sentCount := s.sentCount + 1
      phase := if s.sentCount = copies then .returned .sent else .events } := by
  have hunsent : s.handler ⟨s.sentCount,hlt⟩ = .unsent := (h.unsent _).2 (Nat.le_refl _)
  have hsum {f : Handler → Nat} (hf : f (.queued s.counts.gen) = f .unsent) :
      ∑ j, f (Function.update s.handler ⟨s.sentCount,hlt⟩ (.queued s.counts.gen) j) =
        ∑ j, f (s.handler j) := sum_handler_same (hunsent ▸ hf)
  have hfreed := h.freed
  have hfree := h.freeAtZero
  have hlast := h.lastUser
  simp only [hp, Phase.freedTo, Phase.inputFreed, within_of_le (Nat.zero_le _), ite_self,
    Phase.subbed, Phase.lastUsers] at hfreed hfree hlast
  -- whether or not this is the last request, the requester is not in its error handling
  obtain ⟨phase,hphase,hcomplete,hother⟩ : ∃ phase : Phase,
      phase = (if s.sentCount = copies then .returned .sent else .events) ∧
      (phase = .returned .sent ↔ s.sentCount = copies) ∧
      (phase = .returned .sent ∨ phase = .events) := by
    refine ⟨_,rfl,?_,?_⟩ <;> split <;> simp_all
  rw [← hphase]
  have hrest : phase.live = true ∧ phase.early = false ∧ phase.hasFailed = false ∧
      phase.subbed = false ∧ phase.lastUsers = 0 ∧ phase.freedTo s.allocCount = 0 ∧
      phase.inputFreed = 0 ∧ ∀ i, phase ≠ .freeing i := by
    rcases hother with rfl | rfl <;> simp
  obtain ⟨hlive,hearly,hnotFailed,hsubbed,hlastUsers,hto,hinput,hfreeing⟩ := hrest
  exact {
    late := hearly
    alloc_le := h.alloc_le
    sent_le := hlt
    allocated := fun _ => halloc
    complete := by rw [hcomplete]; simp
    freeing := fun i hi => absurd hi (hfreeing i)
    unsent := fun i => by
      simp only [Function.update_apply, Fin.ext_iff]
      have := h.unsent i
      split
      · simp; omega
      · rw [this]; omega
    received := fun i => by
      simp only [Function.update_apply]
      split
      · subst i
        have hreceived := h.received ⟨s.sentCount,hlt⟩
        rwa [hunsent] at hreceived
      · exact h.received i
    freed := fun i => by
      rw [hto, hinput, within_of_le (Nat.zero_le _), ite_self]
      exact hfreed i
    tagged := fun _ i => by
      simp only [Function.update_apply]
      split
      · rfl
      · exact h.tagged (by simp [hp]) i
    preCnt := fun _ => by
      rw [hsum rfl]
      exact h.preCnt (by simp [hp])
    postCnt := fun _ => by
      rw [hsum rfl]
      exact h.postCnt (by simp [hp])
    applied := fun _ => h.applied (by simp [hp])
    doneHeld := fun _ => h.doneHeld (by simp [hp])
    doneSent := by
      have hsent := h.doneSent
      rw [hp] at hsent
      rw [hlive]
      exact hsent
    aborted := fun hf => by rw [hnotFailed] at hf; cases hf
    doneFreed := fun hf => by rw [hnotFailed] at hf; cases hf
    callbacks := h.callbacks
    freeAtZero := by
      rw [hsum rfl, hsubbed]
      simpa using hfree
    lastUser := by
      rw [hsum rfl, hlastUsers]
      exact hlast
    accesses := h.accesses
    freedBy := h.freedBy }

theorem Inv.abortDelete {i : Nat} (hp : s.phase = .freeing i) (hi : ¬i < s.allocCount) :
    Inv { s.evgrpAbortDelete with phase := .failed } := by
  have hle := h.freeing i hp
  have halloc := h.alloc_le
  have hlive : s.phase.live = true := by simp [hp]
  -- the request of index `sent_count` is not sent
  have hunsent : s.handler ⟨s.sentCount,by omega⟩ = .unsent := (h.unsent _).2 (Nat.le_refl _)
  have hne := h.postCnt_ne hlive (i := ⟨s.sentCount,by omega⟩) (by simp [hunsent])
  have habort : s.counts.emEventGroupAbort =
      some { s.counts with preCnt := 0, postCnt := 0, applied := false } := by
    simp [EgrpCounter.emEventGroupAbort, (h.applied hlive).2 hne]
  have hheld := h.doneHeld hlive hne
  have hfreed := h.freed
  have hfree := h.freeAtZero
  have hlast := h.lastUser
  have hidx : i = s.allocCount := by omega
  simp only [State.evgrpAbortDelete, habort]
  simp only [hp, hidx, hheld] at hfreed hfree hlast
  exact { h with
    late := rfl
    complete := by simp; omega
    freeing := by simp
    freed := by simpa using hfreed
    tagged := by simp
    preCnt := by simp
    postCnt := by simp
    applied := by simp
    doneHeld := by simp
    doneSent := by simp
    aborted := by simp
    doneFreed := by simp
    callbacks := by simpa [hheld] using h.callbacks
    freeAtZero := by simpa using hfree
    lastUser := by simpa using hlast
    freedBy := by simpa [hheld] using h.freedBy }

theorem Inv.retvals_of_failed (hp : s.phase.hasFailed = true) :
    s.doneEvent.retvalFrees = 0 := by
  rcases h.doneFreed hp with hd | hd <;> rw [hd] <;> rfl

theorem Inv.subUnsent (hp : s.phase = .eventFreed) :
    Inv { s with
      accesses := s.accesses ++ [.use .requester]
      freeAtZero := s.freeAtZero - (s.unsentCount + 1)
      phase := if s.freeAtZero = s.unsentCount + 1 then .lastUser else .returned .failed } := by
  have hsum := h.sum_subbed_le
  have hfree := h.freeAtZero
  have hlast := h.lastUser
  have hdone := h.retvals_of_failed (by simp [hp])
  have hincomplete : s.sentCount ≠ copies + 1 := fun he => by simp [h.complete.1 he] at hp
  have hle := h.sent_le
  have hshare : s.unsentCount + 1 = copies + 2 - s.sentCount := by
    simp only [State.unsentCount]
    omega
  have hunfreed : Access.frees s.accesses = 0 ∧ ∑ i, (s.handler i).lastUsers = 0 := by
    simp only [hp, Phase.subbed, Bool.false_eq_true, if_false] at hfree
    have hpos : s.freeAtZero ≠ 0 := by omega
    rw [if_neg hpos] at hlast
    omega
  simp only [hp, Phase.subbed, Phase.lastUsers, Bool.false_eq_true, if_false] at hfree hlast
  have hfreed := h.freed
  rw [hp] at hfreed
  -- the two phases differ only in who is the last user
  obtain ⟨phase,hphase,hlastUsers,hother⟩ : ∃ phase : Phase,
      phase = (if s.freeAtZero = s.unsentCount + 1 then .lastUser else .returned .failed) ∧
      phase.lastUsers = (if s.freeAtZero = s.unsentCount + 1 then 1 else 0) ∧
      (phase = .lastUser ∨ phase = .returned .failed) := by
    refine ⟨_,rfl,?_,?_⟩ <;> split <;> simp
  rw [← hphase]
  have hrest : phase.live = false ∧ phase.early = false ∧ phase.subbed = true ∧
      phase.freedTo s.allocCount = s.allocCount ∧ phase.inputFreed = 1 ∧
      phase ≠ .returned .sent ∧ ∀ i, phase ≠ .freeing i := by
    rcases hother with rfl | rfl <;> simp
  obtain ⟨hlive,hearly,hsubbed,hto,hinput,hsent,hfreeing⟩ := hrest
  exact { h with
    late := hearly
    complete := iff_of_false hincomplete hsent
    freeing := fun i hi => absurd hi (hfreeing i)
    freed := fun i => by
      rw [hto, hinput]
      exact hfreed i
    tagged := fun hl => by rw [hlive] at hl; cases hl
    preCnt := fun hl => by rw [hlive] at hl; cases hl
    postCnt := fun hl => by rw [hlive] at hl; cases hl
    applied := fun hl => by rw [hlive] at hl; cases hl
    doneHeld := fun hl => by rw [hlive] at hl; cases hl
    doneSent := by
      have hdoneSent := h.doneSent
      rw [hp] at hdoneSent
      rw [hlive]
      exact hdoneSent
    aborted := fun _ => h.aborted (by simp [hp])
    doneFreed := fun _ => h.doneFreed (by simp [hp])
    freeAtZero := by
      rw [hsubbed, if_pos rfl]
      dsimp only
      omega
    lastUser := by
      rw [hlastUsers, Access.frees_concat]
      simp only [Access.isFree, Bool.false_eq_true, if_false]
      split <;> split <;> omega
    accesses := .concat hunfreed.1 _
    freedBy := by simpa using h.freedBy }

theorem Inv.freeRetvals (hp : s.phase = .lastUser) :
    Inv { s with accesses := s.accesses ++ [.free .requester], phase := .returned .failed } := by
  have hfree := h.freeAtZero
  have hlast := h.lastUser
  have hdone := h.retvals_of_failed (by simp [hp])
  have hincomplete : s.sentCount ≠ copies + 1 := fun he => by simp [h.complete.1 he] at hp
  have hfreed := h.freed
  have hdoneSent := h.doneSent
  simp only [hp, Phase.subbed, Phase.lastUsers, if_true] at hfree hlast hfreed hdoneSent
  have hzero : s.freeAtZero = 0 := by
    by_contra hne
    rw [if_neg hne] at hlast
    omega
  rw [if_pos hzero] at hlast
  exact { h with
    late := rfl
    complete := iff_of_false hincomplete (by simp)
    freeing := by simp
    freed := hfreed
    tagged := by simp
    preCnt := by simp
    postCnt := by simp
    applied := by simp
    doneHeld := by simp
    doneSent := hdoneSent
    aborted := fun _ => h.aborted (by simp [hp])
    doneFreed := fun _ => h.doneFreed (by simp [hp])
    freeAtZero := hfree
    lastUser := by
      rw [Access.frees_concat, if_pos hzero]
      simp only [Access.isFree, if_true, Phase.lastUsers]
      omega
    accesses := .concat (by omega) _
    freedBy := by
      intro p hmem
      rcases List.mem_append.1 hmem with hold | hnew
      · exact h.freedBy p hold
      · rw [List.mem_singleton] at hnew
        cases hnew
        rw [hdone]
        simp }

end Requester

end EmOdp.LocalFunc
