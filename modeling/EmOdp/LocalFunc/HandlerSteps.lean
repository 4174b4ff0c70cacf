import EmOdp.LocalFunc.Ownership

/-! The steps of the handling cores and of the done event keep the shares. -/
namespace EmOdp.LocalFunc
open Lib EventGroup
variable {copies : Nat}

attribute [local simp] Phase.live Phase.hasFailed Phase.early Phase.subbed Phase.lastUsers
  Phase.freedTo Phase.inputFreed Handler.subbed Handler.lastUsers Handler.received Handler.begun
  Handler.counted Handler.sent Handler.Tagged DoneEvent.sent DoneEvent.callbacks
  DoneEvent.retvalFrees Access.frees Access.UsedThenFreed

private theorem eventGroupSetLocal_handler (s : State copies) (gen : Gen) :
    (s.eventGroupSetLocal gen).1.handler = s.handler := by
  simp only [State.eventGroupSetLocal]
  split <;> rfl

private theorem countDecrement_handler (s : State copies) (egrpGen : Option Gen) (doneOk : Bool) :
    (s.countDecrement egrpGen doneOk).handler = s.handler := by
  simp only [State.countDecrement]
  split
  · rfl
  · split <;> rfl

section Handlers
variable {s : State copies} (h : Inv s) {i : Fin (copies + 1)}
include h

theorem Inv.unsent_update {a : Handler} (hi : s.handler i ≠ .unsent) (ha : a ≠ .unsent)
    (j : Fin (copies + 1)) :
    Function.update s.handler i a j = .unsent ↔ s.sentCount ≤ j := by
  rw [Function.update_apply]
  split
  · subst j
    exact iff_of_false ha fun hle => hi ((h.unsent i).2 hle)
  · exact h.unsent j

theorem Inv.received_update {a : Handler} (ha : a.received = (s.handler i).received)
    (j : Fin (copies + 1)) : s.received j = (Function.update s.handler i a j).received := by
  rw [h.received, Function.update_apply]
  split
  · subst j
    exact ha.symm
  · rfl

theorem Inv.tagged_update {a : Handler} (hlive : s.phase.live = true)
    (ha : (s.handler i).Tagged s.counts.gen → a.Tagged s.counts.gen) (j : Fin (copies + 1)) :
    (Function.update s.handler i a j).Tagged s.counts.gen := by
  rw [Function.update_apply]
  split
  · exact ha (h.tagged hlive i)
  · exact h.tagged hlive j

/-- The core goes on and no share changes hands. -/
theorem Inv.advance {a : Handler} {accesses : List (Access (copies + 1))}
    (hi : s.handler i ≠ .unsent) (ha : a ≠ .unsent)
    (hreceived : a.received = (s.handler i).received) (hbegun : a.begun = (s.handler i).begun)
    (hcounted : a.counted = (s.handler i).counted) (hsubbed : a.subbed = (s.handler i).subbed)
    (hlast : a.lastUsers = (s.handler i).lastUsers)
    (htagged : (s.handler i).Tagged s.counts.gen → a.Tagged s.counts.gen)
    (hfrees : Access.frees accesses = Access.frees s.accesses)
    (hused : Access.UsedThenFreed accesses)
    (hfreed : ∀ p, .free p ∈ accesses → .free p ∈ s.accesses) :
    Inv { s with handler := Function.update s.handler i a, accesses } :=
  { h with
    unsent := h.unsent_update hi ha
    received := h.received_update hreceived
    tagged := fun hlive => h.tagged_update hlive htagged
    preCnt := fun hlive => by rw [sum_handler_same hbegun, h.preCnt hlive]
    postCnt := fun hlive => by rw [sum_handler_same hcounted, h.postCnt hlive]
    freeAtZero := by rw [sum_handler_same hsubbed]; exact h.freeAtZero
    lastUser := by rw [sum_handler_same hlast, hfrees]; exact h.lastUser
    accesses := hused
    freedBy := fun p hp => h.freedBy p (hfreed p hp) }

/-- A use of the return values by a core that may still access them. -/
theorem Inv.advanceUse {a : Handler} {p : Party (copies + 1)}
    (hi : (s.handler i).sent = 1) (ha : a ≠ .unsent)
    (hshare : (s.handler i).subbed = 0 ∨ (s.handler i).lastUsers = 1)
    (hreceived : a.received = (s.handler i).received) (hbegun : a.begun = (s.handler i).begun)
    (hcounted : a.counted = (s.handler i).counted) (hsubbed : a.subbed = (s.handler i).subbed)
    (hlast : a.lastUsers = (s.handler i).lastUsers)
    (htagged : (s.handler i).Tagged s.counts.gen → a.Tagged s.counts.gen) :
    Inv { s with
      handler := Function.update s.handler i a, accesses := s.accesses ++ [.use p] } := by
  have hunfreed := (h.unfreed hi hshare).1
  have hsent : s.handler i ≠ .unsent := fun hc => by rw [hc] at hi; cases hi
  refine h.advance hsent ha hreceived hbegun hcounted hsubbed hlast htagged ?_
    (.concat hunfreed _) ?_
  · rw [Access.frees_concat]
    rfl
  · simp

/-- A request of a live group is counted when its core receives it. -/
theorem Inv.preCountDecrement {gen : Gen} (hi : s.handler i = .queued gen)
    (hlive : s.phase.live = true) : ∃ w, s.counts.preCountDecrement 1 gen = some w := by
  have htagged : gen = s.counts.gen := by
    have := h.tagged hlive i
    rwa [hi] at this
  have happlied := (h.applied hlive).2 (h.postCnt_ne hlive (i := i) (by simp [hi]))
  have hlt : ∑ j, (s.handler j).begun < ∑ _j : Fin (copies + 1), 1 := by
    refine Finset.sum_lt_sum (fun j _ => ?_) ⟨i,Finset.mem_univ i,by simp [hi]⟩
    cases s.handler j <;> simp
  have hpre := h.preCnt hlive
  have hvalid : s.counts.validPreCnt 1 gen = true := by
    rw [Finset.sum_const, Finset.card_univ, Fintype.card_fin, smul_eq_mul, mul_one] at hlt
    exact EgrpCounter.validPreCnt_iff.2 ⟨by omega,happlied,htagged.symm⟩
  exact ⟨_,if_pos hvalid⟩

theorem Inv.receive {gen : Gen} (hi : s.handler i = .queued gen) :
    Inv ((s.eventGroupSetLocal gen).1.setHandler i (.running (s.eventGroupSetLocal gen).2)) := by
  rw [State.setHandler, eventGroupSetLocal_handler]
  simp only [State.eventGroupSetLocal]
  split
  · rename_i w hw
    obtain ⟨hpos,-,hgen,hpre,hpost,happlied,hsame⟩ := EgrpCounter.preCountDecrement_some hw
    have hsum {f : Handler → Nat} (hf : f (.running (some gen)) = f (.queued gen)) :
        ∑ j, f (Function.update s.handler i (.running (some gen)) j) = ∑ j, f (s.handler j) :=
      sum_handler_same (hi ▸ hf)
    exact { h with
      unsent := h.unsent_update (by simp [hi]) (by simp)
      received := h.received_update (by simp [hi])
      tagged := fun hlive j => by
        dsimp only
        rw [hsame]
        exact h.tagged_update hlive (fun _ => by rw [← hgen]; rfl) j
      preCnt := fun hlive => by
        have hsum := sum_handler Handler.begun s.handler i (.running (some gen))
        have hold := h.preCnt hlive
        rw [hi] at hsum
        simp only [Handler.begun] at hsum hold ⊢
        omega
      postCnt := fun hlive => by rw [hsum rfl, hpost]; exact h.postCnt hlive
      applied := fun hlive => by
        refine iff_of_true happlied ?_
        rw [hpost]
        exact h.postCnt_ne hlive (i := i) (by simp [hi])
      doneHeld := fun hlive => by rw [hpost]; exact h.doneHeld hlive
      doneSent := by rw [hpost]; exact h.doneSent
      aborted := by rw [hpost]; exact h.aborted
      freeAtZero := by rw [hsum rfl]; exact h.freeAtZero
      lastUser := by rw [hsum rfl]; exact h.lastUser }
  · rename_i hw
    -- only a request of an aborted group is not counted
    have hdead : s.phase.live = false := by
      by_contra hlive
      obtain ⟨w,hsome⟩ := h.preCountDecrement hi (by simpa using hlive)
      rw [hw] at hsome
      cases hsome
    have hsum {f : Handler → Nat} (hf : f (.running none) = f (.queued gen)) :
        ∑ j, f (Function.update s.handler i (.running none) j) = ∑ j, f (s.handler j) :=
      sum_handler_same (hi ▸ hf)
    exact { h with
      unsent := h.unsent_update (by simp [hi]) (by simp)
      received := h.received_update (by simp [hi])
      tagged := fun hlive => by rw [hdead] at hlive; cases hlive
      preCnt := fun hlive => by rw [hdead] at hlive; cases hlive
      postCnt := fun hlive => by rw [hdead] at hlive; cases hlive
      freeAtZero := by rw [hsum rfl]; exact h.freeAtZero
      lastUser := by rw [hsum rfl]; exact h.lastUser }

theorem Inv.subHandled {egrpGen : Option Gen} (hi : s.handler i = .recorded egrpGen) :
    Inv { s with
      accesses := s.accesses ++ [.use (.handler i)]
      handler := Function.update s.handler i
        (if s.freeAtZero = 1 then .lastUser egrpGen else .handled egrpGen)
      freeAtZero := s.freeAtZero - 1 } := by
  obtain ⟨hunfreed,hdone⟩ := h.unfreed (i := i) (by simp [hi]) (by simp [hi])
  obtain ⟨a,ha,hother⟩ : ∃ a : Handler,
      a = (if s.freeAtZero = 1 then .lastUser egrpGen else .handled egrpGen) ∧
      (s.freeAtZero = 1 ∧ a = .lastUser egrpGen ∨ s.freeAtZero ≠ 1 ∧ a = .handled egrpGen) := by
    refine ⟨_,rfl,?_⟩
    split <;> simp_all
  rw [← ha]
  have hrest : a ≠ .unsent ∧ a.received = (s.handler i).received ∧ a.begun = (s.handler i).begun ∧
      a.counted = (s.handler i).counted ∧ a.subbed = 1 ∧
      ((s.handler i).Tagged s.counts.gen → a.Tagged s.counts.gen) := by
    rcases hother with ⟨-,rfl⟩ | ⟨-,rfl⟩ <;> simp [hi]
  obtain ⟨hne,hreceived,hbegun,hcounted,hsubbed,htagged⟩ := hrest
  have hsub := sum_handler Handler.subbed s.handler i a
  have hlast := sum_handler Handler.lastUsers s.handler i a
  have hfree := h.freeAtZero
  have hlastUser := h.lastUser
  have hpos : s.freeAtZero ≠ 0 := by
    have hlt := h.sum_subbed_lt (i := i) (by simp [hi]) (by simp [hi])
    have := h.sent_le
    split at hfree <;> omega
  rw [if_neg hpos] at hlastUser
  rw [hi] at hsub hlast
  have hnone : ∑ j, (s.handler j).lastUsers = 0 ∧ s.phase.lastUsers = 0 := by omega
  exact { h with
    unsent := h.unsent_update (by simp [hi]) hne
    received := h.received_update hreceived
    tagged := fun hlive => h.tagged_update hlive htagged
    preCnt := fun hlive => by rw [sum_handler_same hbegun, h.preCnt hlive]
    postCnt := fun hlive => by rw [sum_handler_same hcounted, h.postCnt hlive]
    freeAtZero := by
      have hshare : Handler.subbed (.recorded egrpGen) = 0 := rfl
      dsimp only
      omega
    lastUser := by
      have hbefore : Handler.lastUsers (.recorded egrpGen) = 0 := rfl
      have hafter : a.lastUsers = if s.freeAtZero = 1 then 1 else 0 := by
        rw [ha]
        split <;> rfl
      have hzero : s.freeAtZero - 1 = 0 ↔ s.freeAtZero = 1 := by omega
      rw [Access.frees_concat]
      simp only [Access.isFree, hzero, Bool.false_eq_true, if_false]
      omega
    accesses := .concat hunfreed _
    freedBy := by simpa using h.freedBy }

theorem Inv.lastFree {egrpGen : Option Gen} (hi : s.handler i = .lastChecked egrpGen) :
    Inv { s with
      accesses := s.accesses ++ [.free (.handler i)]
      handler := Function.update s.handler i (.handled egrpGen) } := by
  obtain ⟨hunfreed,hdone⟩ := h.unfreed (i := i) (by simp [hi]) (by simp [hi])
  have hsame {f : Handler → Nat} (hf : f (.handled egrpGen) = f (.lastChecked egrpGen)) :
      ∑ j, f (Function.update s.handler i (.handled egrpGen) j) = ∑ j, f (s.handler j) :=
    sum_handler_same (hi ▸ hf)
  have hlast := sum_handler Handler.lastUsers s.handler i (.handled egrpGen)
  have hlastUser := h.lastUser
  rw [hi] at hlast
  exact { h with
    unsent := h.unsent_update (by simp [hi]) (by simp)
    received := h.received_update (by simp [hi])
    tagged := fun hlive => h.tagged_update hlive (by simp [hi])
    preCnt := fun hlive => by rw [hsame rfl, h.preCnt hlive]
    postCnt := fun hlive => by rw [hsame rfl, h.postCnt hlive]
    freeAtZero := by rw [hsame rfl]; exact h.freeAtZero
    lastUser := by
      have hbefore : Handler.lastUsers (.lastChecked egrpGen) = 1 := rfl
      have hafter : Handler.lastUsers (.handled egrpGen) = 0 := rfl
      rw [Access.frees_concat]
      simp only [Access.isFree, if_true]
      omega
    accesses := .concat hunfreed _
    freedBy := fun p hmem => by
      rcases List.mem_append.1 hmem with hold | hnew
      · exact h.freedBy p hold
      · rw [List.mem_singleton] at hnew
        cases hnew
        rw [hdone]
        simp }

theorem Inv.freeReceived {egrpGen : Option Gen} (hi : s.handler i = .handled egrpGen) :
    Inv { s with
      handler := Function.update s.handler i (.eventFreed egrpGen)
      received := Function.update s.received i (s.received i + 1) } := by
  have hsame {f : Handler → Nat} (hf : f (.eventFreed egrpGen) = f (.handled egrpGen)) :
      ∑ j, f (Function.update s.handler i (.eventFreed egrpGen) j) = ∑ j, f (s.handler j) :=
    sum_handler_same (hi ▸ hf)
  exact { h with
    unsent := h.unsent_update (by simp [hi]) (by simp)
    received := fun j => by
      dsimp only
      rw [Function.update_apply, Function.update_apply]
      split
      · rename_i heq
        obtain rfl := Fin.ext heq
        have hold := h.received j
        rw [hi] at hold
        rw [if_pos rfl, hold]
        rfl
      · rename_i hne
        rw [if_neg fun heq => hne (congrArg Fin.val heq)]
        exact h.received j
    tagged := fun hlive => h.tagged_update hlive (by simp [hi])
    preCnt := fun hlive => by rw [hsame rfl, h.preCnt hlive]
    postCnt := fun hlive => by rw [hsame rfl, h.postCnt hlive]
    freeAtZero := by rw [hsame rfl]; exact h.freeAtZero
    lastUser := by rw [hsame rfl]; exact h.lastUser }

/-- A handled request of a live group is counted. -/
theorem Inv.decremented {egrpGen : Option Gen} (hi : s.handler i = .eventFreed egrpGen) :
    s.phase.live = true ↔ ∃ w, s.decremented egrpGen = some w := by
  constructor
  · intro hlive
    obtain rfl : egrpGen = some s.counts.gen := by
      have := h.tagged hlive i
      rwa [hi] at this
    have hne := h.postCnt_ne hlive (i := i) (by simp [hi])
    have hpos : 1 ≤ s.counts.postCnt.toNat := by
      by_contra hlt
      exact hne (BitVec.eq_of_toNat_eq (by simpa using hlt))
    exact ⟨_,if_pos (EgrpCounter.validPostCnt_iff.2 ⟨hpos,rfl⟩)⟩
  · rintro ⟨w,hw⟩
    obtain ⟨gen,-,hw⟩ := Option.bind_eq_some_iff.1 hw
    have hpos := (EgrpCounter.postCountDecrement_some hw).1
    have hsent : s.sentCount ≠ 0 := fun h0 => by
      have := (h.unsent i).2 (by omega)
      simp [hi] at this
    by_contra hlive
    have hfailed : s.phase.hasFailed = true := by
      have := h.late
      cases hp : s.phase with
      | returned result => cases result <;> simp_all
      | _ => simp_all
    rcases h.aborted hfailed with hzero | hzero
    · rw [hzero] at hpos
      simp at hpos
    · exact hsent hzero

/-- A core counts its request; with the last one the done event is sent. -/
theorem Inv.count {egrpGen : Option Gen} (hi : s.handler i = .eventFreed egrpGen)
    {doneOk : Bool} (hok : doneOk = true ∨ s.counts.postCnt ≠ 1) :
    Inv ((s.countDecrement egrpGen doneOk).setHandler i .ended) := by
  rw [State.setHandler, countDecrement_handler]
  have hsame {f : Handler → Nat} (hf : f .ended = f (.eventFreed egrpGen)) :
      ∑ j, f (Function.update s.handler i .ended j) = ∑ j, f (s.handler j) :=
    sum_handler_same (hi ▸ hf)
  have hunsent := h.unsent_update (i := i) (a := .ended) (by simp [hi]) (by simp)
  have hreceived := h.received_update (i := i) (a := .ended) (by simp [hi])
  simp only [State.countDecrement]
  split
  · rename_i hnone
    have hdead : s.phase.live = false := by
      by_contra hlive
      obtain ⟨w,hsome⟩ := (h.decremented hi).1 (by simpa using hlive)
      rw [hnone] at hsome
      cases hsome
    exact { h with
      unsent := hunsent
      received := hreceived
      tagged := fun hlive => by rw [hdead] at hlive; cases hlive
      preCnt := fun hlive => by rw [hdead] at hlive; cases hlive
      postCnt := fun hlive => by rw [hdead] at hlive; cases hlive
      freeAtZero := by rw [hsame rfl]; exact h.freeAtZero
      lastUser := by rw [hsame rfl]; exact h.lastUser }
  rename_i w hw
  have hlive := (h.decremented hi).2 ⟨w,hw⟩
  obtain ⟨gen,hgen,hw⟩ := Option.bind_eq_some_iff.1 hw
  obtain ⟨hpos,-,hpost,hpre,hsameGen,happlied⟩ := EgrpCounter.postCountDecrement_some hw
  have hne := h.postCnt_ne hlive (i := i) (by simp [hi])
  have hheld := h.doneHeld hlive hne
  have hcount := sum_handler Handler.counted s.handler i .ended
  have hold := h.postCnt hlive
  have hpostCnt : w.postCnt.toNat + ∑ j, (Function.update s.handler i .ended j).counted =
      copies + 1 := by
    have hbefore : Handler.counted (.eventFreed egrpGen) = 0 := rfl
    have hafter : Handler.counted .ended = 1 := rfl
    rw [hi] at hcount
    omega
  have htagged : ∀ j, (Function.update s.handler i .ended j).Tagged w.gen := by
    rw [hsameGen]
    exact h.tagged_update hlive fun _ => trivial
  have hnotFailed : s.phase.hasFailed = false := by
    cases hp : s.phase with
    | returned result => cases result <;> simp_all
    | _ => simp_all
  split
  · rename_i hzero
    have hone : s.counts.postCnt = 1 := by
      rw [hzero] at hpost
      refine BitVec.eq_of_toNat_eq ?_
      have : (0 : BitVec egrpCntBits).toNat = 0 := rfl
      have : (1 : BitVec egrpCntBits).toNat = 1 := rfl
      omega
    obtain rfl : doneOk = true := by simpa [hone] using hok
    have hcallbacks := h.callbacks
    have hlast := h.lastUser
    have hfreedBy := h.freedBy
    rw [hheld] at hcallbacks hlast hfreedBy
    exact { h with
      unsent := hunsent
      received := hreceived
      tagged := fun _ => htagged
      preCnt := fun _ => by rw [hsame rfl, hpre]; exact h.preCnt hlive
      postCnt := fun _ => hpostCnt
      applied := fun _ => by simp [happlied, hzero]
      doneHeld := fun _ hne => absurd hzero hne
      doneSent := iff_of_true rfl ⟨hlive,hzero⟩
      aborted := fun hf => by rw [hnotFailed] at hf; cases hf
      doneFreed := fun hf => by rw [hnotFailed] at hf; cases hf
      callbacks := hcallbacks
      freeAtZero := by rw [hsame rfl]; exact h.freeAtZero
      lastUser := by rw [hsame rfl]; exact hlast
      freedBy := hfreedBy }
  · rename_i hmore
    exact { h with
      unsent := hunsent
      received := hreceived
      tagged := fun _ => htagged
      preCnt := fun _ => by rw [hsame rfl, hpre]; exact h.preCnt hlive
      postCnt := fun _ => hpostCnt
      applied := fun _ => by
        rw [happlied, if_neg hmore]
        exact iff_of_true ((h.applied hlive).2 hne) hmore
      doneHeld := fun _ _ => hheld
      doneSent := by
        refine iff_of_false ?_ fun hc => hmore hc.2
        rw [hheld]
        simp
      aborted := fun hf => by rw [hnotFailed] at hf; cases hf
      freeAtZero := by rw [hsame rfl]; exact h.freeAtZero
      lastUser := by rw [hsame rfl]; exact h.lastUser }

end Handlers

section DoneEvent
variable {s : State copies} (h : Inv s)
include h

theorem Inv.all_ended (hsent : s.doneEvent.sent = true) :
    s.phase = .returned .sent ∧ ∀ i, s.handler i = .ended := by
  obtain ⟨hlive,hzero⟩ := h.doneSent.1 hsent
  have hended : ∀ i, s.handler i = .ended := fun i => by
    by_contra hi
    exact h.postCnt_ne hlive hi hzero
  refine ⟨h.complete.1 ?_,hended⟩
  have hlast := h.unsent ⟨copies,Nat.lt_succ_self _⟩
  rw [hended] at hlast
  have := h.sent_le
  simp at hlast
  omega

/-- All cores have given up their shares, so one share is left. -/
theorem Inv.callback_shares (hsent : s.doneEvent.sent = true) :
    Access.frees s.accesses = s.doneEvent.retvalFrees ∧ s.freeAtZero = 1 := by
  obtain ⟨hphase,hended⟩ := h.all_ended hsent
  have hfree := h.freeAtZero
  have hlast := h.lastUser
  simp only [hphase, hended, Handler.subbed, Handler.lastUsers, Phase.subbed, Phase.lastUsers,
    Finset.sum_const, Finset.card_univ, Fintype.card_fin, smul_eq_mul, Bool.false_eq_true,
    if_false, mul_zero, mul_one] at hfree hlast
  have hone : s.freeAtZero = 1 := by omega
  rw [hone] at hlast
  simp at hlast
  exact ⟨by simpa using hlast,hone⟩

theorem Inv.doneReceive (hd : s.doneEvent = .queued) :
    Inv { s with
      accesses := s.accesses ++ [.use .doneCallback]
      doneEvent := .callback
      callbacks := s.callbacks + 1 } := by
  have hunfreed := (h.callback_shares (by simp [hd])).1
  have hlast := h.lastUser
  have hcallbacks := h.callbacks
  have hsent := h.doneSent
  have hheld := h.doneHeld
  have hphase := (h.all_ended (by simp [hd])).1
  have hzero := (hsent.1 (by simp [hd])).2
  rw [hd] at hunfreed hlast hcallbacks hsent
  exact { h with
    doneHeld := fun _ hne => absurd hzero hne
    doneSent := hsent
    doneFreed := by simp [hphase]
    callbacks := by rw [hcallbacks]; rfl
    lastUser := by
      rw [Access.frees_concat]
      exact hlast
    accesses := .concat hunfreed _
    freedBy := by simpa [hd] using h.freedBy }

theorem Inv.doneFreesRetvals (hd : s.doneEvent = .callback) :
    Inv { s with
      accesses := s.accesses ++ [.free .doneCallback]
      doneEvent := .retvalsFreed } := by
  have hunfreed := (h.callback_shares (by simp [hd])).1
  have hlast := h.lastUser
  have hcallbacks := h.callbacks
  have hsent := h.doneSent
  have hphase := (h.all_ended (by simp [hd])).1
  have hzero := (hsent.1 (by simp [hd])).2
  rw [hd] at hunfreed hlast hcallbacks hsent
  exact { h with
    doneHeld := fun _ hne => absurd hzero hne
    doneSent := hsent
    doneFreed := by simp [hphase]
    callbacks := hcallbacks
    lastUser := by
      have hbefore : DoneEvent.retvalFrees .callback = 0 := rfl
      have hafter : DoneEvent.retvalFrees .retvalsFreed = 1 := rfl
      rw [Access.frees_concat]
      simp only [Access.isFree, if_true]
      omega
    accesses := .concat hunfreed _
    freedBy := fun p hmem => by
      rcases List.mem_append.1 hmem with hold | hnew
      · have hnone := List.countP_eq_zero.1 hunfreed _ hold
        simp [Access.isFree] at hnone
      · rw [List.mem_singleton] at hnew
        cases hnew
        simp }

theorem Inv.doneEnds (hd : s.doneEvent = .retvalsFreed) :
    Inv { s with doneEvent := .ended } := by
  have hlast := h.lastUser
  have hcallbacks := h.callbacks
  have hsent := h.doneSent
  have hfreedBy := h.freedBy
  have hphase := (h.all_ended (by simp [hd])).1
  have hzero := (hsent.1 (by simp [hd])).2
  rw [hd] at hlast hcallbacks hsent hfreedBy
  exact { h with
    doneHeld := fun _ hne => absurd hzero hne
    doneSent := hsent
    doneFreed := by simp [hphase]
    callbacks := hcallbacks
    lastUser := hlast
    freedBy := hfreedBy }

end DoneEvent

end EmOdp.LocalFunc
