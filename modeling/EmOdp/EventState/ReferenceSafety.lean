import EmOdp.EventState.ReferenceCount
import EmOdp.EventState.Allocate

/-! Runs of any programs over one event with references: the counters are exact, and a
program that only uses what it owns is never reported. -/
namespace EmOdp.EventState.Ref
open Lib EvstateCnt
variable {ι : Type} [Fintype ι] [DecidableEq ι] {preallocPools : Bool} {s t : State ι} {l : Label ι}

/-- The access does not carry or borrow out of the generation and the reserved bits. -/
def InWord (s : State ι) (l : Label ι) : Prop :=
  0 ≤ s.stateCnt.low + s.genDelta l ∧ s.stateCnt.low + s.genDelta l < 2 ^ 32

/-- The number of references is below 2^14. -/
def FewRefs (s : State ι) : Prop := s.refs < 2 ^ 14

/-- Users send, free and refer to references that they own. -/
def Owned (s : State ι) : Label ι → Prop
  | .ref c | .send c | .free c => 0 < s.held c
  | .enqueue _ | .revert _ | .fix _ | .dispatch _ => True

/-- The counters are exact; what is not in order has been reported. -/
structure Inv (s : State ι) : Prop where
  stateCnt : ∃ g, 0 ≤ g ∧ g < 2 ^ 32 ∧ s.stateCnt = encode g s.emOwned s.refs
  range : InRange s.emOwned s.refs
  ordered : s.error = false → (s.emOwned : Int) ≤ s.refs

omit [Fintype ι] [DecidableEq ι] in
theorem usr2emError_ref {g a b : Int} (h : InRange a b) (h0 : 0 ≤ g) (h1 : g < 2 ^ 32)
    (event : EvHdl) : (encode g a b).usr2emError true event ↔ a > b ∨ a < 0 := by
  obtain ⟨ha,hb⟩ := h.sends_refs h0 h1
  simp [usr2emError, ha, hb]

omit [Fintype ι] [DecidableEq ι] in
theorem usr2emError_prevGen (n : EvstateCnt) (event : EvHdl) :
    n.prevGen.usr2emError true event ↔ n.usr2emError true event := by
  simp [usr2emError, prevGen_counts]

omit [Fintype ι] in
theorem step_running (hs : s.step l = some t) : s.error = false := by
  cases l with
  | ref => exact (step_ref hs).1
  | send => exact (step_send hs).1
  | free => exact (step_free hs).1
  | enqueue => exact (step_enqueue hs).1
  | revert => exact (step_revert hs).1
  | fix => exact (step_fix hs).1
  | dispatch => exact (step_dispatch hs).1

/-- A send or free that is not reported leaves no more sends than references; the other
accesses cannot break that. -/
theorem step_ordered {g : Int} (hs : s.step l = some t) (h : (s.emOwned : Int) ≤ s.refs)
    (h0 : 0 ≤ g) (h1 : g < 2 ^ 32) (hc : t.stateCnt = encode g t.emOwned t.refs)
    (hr : InRange t.emOwned t.refs) (he : t.error = false) : (t.emOwned : Int) ≤ t.refs := by
  have hem := step_emOwned hs
  have href := step_refs hs
  have hcheck : ¬t.stateCnt.prevGen.usr2emError true t.event → (t.emOwned : Int) ≤ t.refs := by
    intro hn
    rw [usr2emError_prevGen, hc, usr2emError_ref hr h0 h1] at hn
    omega
  cases l with
  | send c =>
    obtain ⟨-,-,n,p,-,-,rfl⟩ := step_send hs
    exact hcheck (of_decide_eq_false he)
  | free c =>
    obtain ⟨-,-,n,p,-,-,rfl⟩ := step_free hs
    exact hcheck (of_decide_eq_false he)
  | ref | enqueue | revert | fix | dispatch =>
    simp only [Label.sendDelta, Label.refDelta] at hem href
    omega

theorem inv_step (h : Inv s) (hs : s.step l = some t) (hw : InWord s l) (hf : FewRefs t) :
    Inv t := by
  obtain ⟨g,h0,h1,hc⟩ := h.stateCnt
  have hord := h.ordered (step_running hs)
  have hem := step_emOwned hs
  have href := step_refs hs
  have hcnt := step_stateCnt hs hc
  rw [← hem, ← href] at hcnt
  rw [InWord, hc, encode_low h0 h1] at hw
  have hdelta : l.sendDelta ≤ 1 ∧ -1 ≤ l.refDelta := by
    cases l <;> simp [Label.sendDelta, Label.refDelta]
  unfold FewRefs at hf
  have hrange : InRange t.emOwned t.refs := ⟨by omega,by omega,by omega,by omega⟩
  exact ⟨⟨_,hw.1,hw.2,hcnt⟩,hrange,step_ordered hs hord hw.1 hw.2 hcnt hrange⟩

omit [Fintype ι] [DecidableEq ι] in
/-- A borrow from the low half makes the reference count one too large, a carry into it
one too small. -/
private theorem encode_refs_ne {g a b : Int} (hr : InRange a b) (hlt : b + 1 < 0x8000)
    (hgt : -0x7FFF < b) (hg0 : -2 ^ 32 ≤ g) (hg1 : g < 2 ^ 33) (h : ¬(0 ≤ g ∧ g < 2 ^ 32)) :
    (encode g a b).refs ≠ b := by
  obtain ⟨-,-,hr0,hr1⟩ := hr
  rcases lt_or_ge g 0 with hneg | hpos
  · have he : encode g a b = encode (g + 2 ^ 32) a (b+1) := by
      simp only [encode]; congr 2; ring
    rw [he, encode_refs (by omega) (by omega) (by omega) hlt]
    omega
  · have he : encode g a b = encode (g - 2 ^ 32) a (b-1) := by
      simp only [encode]; congr 2; ring
    rw [he, encode_refs (by omega) (by omega) (by omega) (by omega)]
    omega

/-- After an access the reference count is exact only if nothing was carried or borrowed. -/
theorem Inv.exact_iff (h : Inv s) (hs : s.step l = some t) (hf : FewRefs t) :
    t.stateCnt.refs = t.refs ↔ InWord s l := by
  refine ⟨fun he => ?_,fun hw => ?_⟩
  · obtain ⟨g,h0,h1,hc⟩ := h.stateCnt
    have hord := h.ordered (step_running hs)
    have hem := step_emOwned hs
    have href := step_refs hs
    have hcnt := step_stateCnt hs hc
    rw [← hem, ← href] at hcnt
    have hdelta : l.sendDelta ≤ 1 ∧ -1 ≤ l.refDelta ∧ -0xDFFF ≤ s.genDelta l ∧
        s.genDelta l ≤ 0xDFFF := by
      cases l <;> simp [Label.sendDelta, Label.refDelta, State.genDelta]
      split <;> simp
    unfold FewRefs at hf
    by_contra hno
    rw [InWord, hc, encode_low h0 h1] at hno
    rw [hcnt] at he
    exact encode_refs_ne ⟨by omega,by omega,by omega,by omega⟩ (by omega) (by omega) (by omega)
      (by omega) hno he
  · obtain ⟨g,h0,h1,hc⟩ := (inv_step h hs hw hf).stateCnt
    have hr := (inv_step h hs hw hf).range
    rw [hc]
    exact encode_refs h0 h1 hr.refs_gt hr.refs_lt

theorem inv_initial (h : Initial preallocPools s) : Inv s := by
  obtain ⟨o,ho,howner,hcnt,-⟩ := h.owner
  have hi := EventState.reachable_inv ho
  have hg := gen_bounds o.transitions
  have hem : s.emOwned = 0 := by simp [State.emOwned, h.queued, h.idle, Pc.sending]
  have href : s.refs = 1 := by simp [State.refs, h.created, h.frees]
  refine ⟨⟨gen o.transitions,by omega,by omega,?_⟩,?_,fun _ => by rw [hem, href]; decide⟩
  · rw [hcnt, hi.stateCnt, howner, hem, href]; rfl
  · rw [hem, href]; exact ⟨by decide,by decide,by decide,by decide⟩

section Legal

/-- Every reference is owned by a user or by EM. -/
def Live (s : State ι) : Prop := s.refs = ∑ c, s.held c + s.emOwned

omit [Fintype ι] [DecidableEq ι] in
/-- What an access adds to the references owned by users. -/
private def heldDelta : Label ι → Int
  | .ref _ | .revert _ | .dispatch _ => 1
  | .send _ | .free _ => -1
  | .enqueue _ | .fix _ => 0

private theorem sum_acquire (s : State ι) (c : ι) :
    ∑ i, Function.update s.held c (s.held c + 1) i = ∑ i, s.held i + 1 := by
  have h := sum_update s.held c (s.held c + 1)
  omega

private theorem sum_give (s : State ι) {c : ι} (hc : 0 < s.held c) :
    ∑ i, Function.update s.held c (s.held c - 1) i + 1 = ∑ i, s.held i := by
  have h := sum_update s.held c (s.held c - 1)
  omega

private theorem step_held (hs : s.step l = some t) (ho : Owned s l) :
    ((∑ c, t.held c : Nat) : Int) = (∑ c, s.held c : Nat) + heldDelta l := by
  cases l with
  | ref c =>
    obtain ⟨-,-,n,-,rfl⟩ := step_ref hs
    have h := sum_acquire s c
    simp only [State.acquire, State.em2usr, heldDelta]
    omega
  | dispatch c =>
    obtain ⟨-,-,n,-,rfl⟩ := step_dispatch hs
    have h := sum_acquire s c
    simp only [State.acquire, State.em2usr, heldDelta]
    omega
  | enqueue c =>
    obtain ⟨-,-,rfl⟩ := step_enqueue hs
    simp only [State.setPc, heldDelta, add_zero]
  | send c =>
    obtain ⟨-,-,n,p,-,-,rfl⟩ := step_send hs
    have h := sum_give s ho
    simp only [State.setPc, State.give, State.usr2em, heldDelta]
    omega
  | free c =>
    obtain ⟨-,-,n,p,-,-,rfl⟩ := step_free hs
    have h := sum_give s ho
    simp only [State.setPc, State.give, State.usr2em, heldDelta]
    omega
  | revert c =>
    have h := sum_acquire s c
    obtain ⟨-,-,n,-,rfl | rfl⟩ := step_revert hs
    · simp only [State.setPc, State.acquire, heldDelta]
      omega
    · simp only [State.setPc, State.acquire, State.usr2em, heldDelta]
      omega
  | fix c =>
    obtain ⟨-,n,⟨-,-,rfl⟩ | ⟨-,-,rfl⟩ | ⟨-,-,rfl⟩⟩ := step_fix hs
    · simp only [State.setPc, heldDelta, add_zero]
    · simp only [State.setPc, heldDelta, add_zero]
    · simp only [State.setPc, State.usr2em, heldDelta, add_zero]

private theorem live_step (h : Live s) (hs : s.step l = some t) (ho : Owned s l) : Live t := by
  have hem := step_emOwned hs
  have href := step_refs hs
  have hheld := step_held hs ho
  unfold Live at h ⊢
  cases l <;> simp only [Label.sendDelta, Label.refDelta, heldDelta] at hem href hheld <;> omega

/-- A check fails only if EM owns more than there is, counting what the caller owns. -/
private theorem live_of_error (hi : Inv t) (hs : s.step l = some t) (he : t.error = true) :
    t.refs < ∑ c, t.held c + t.emOwned := by
  obtain ⟨g,h0,h1,hc⟩ := hi.stateCnt
  have hrun := step_running hs
  have husr : t.stateCnt.usr2emError true t.event → t.refs < ∑ c, t.held c + t.emOwned := by
    intro hbad
    rw [hc, usr2emError_ref hi.range h0 h1] at hbad
    omega
  have hem : ∀ c, 0 < t.held c → t.stateCnt.em2usrError → t.refs < ∑ c, t.held c + t.emOwned := by
    intro c hpos hbad
    have hle := le_sum t.held c
    rw [hc, em2usrError_encode hi.range h0 h1] at hbad
    omega
  cases l with
  | ref c =>
    obtain ⟨-,-,n,-,rfl⟩ := step_ref hs
    exact hem c (by simp [State.acquire]) (of_decide_eq_true he)
  | dispatch c =>
    obtain ⟨-,-,n,-,rfl⟩ := step_dispatch hs
    exact hem c (by simp [State.acquire]) (of_decide_eq_true he)
  | enqueue c =>
    obtain ⟨-,-,rfl⟩ := step_enqueue hs
    exact absurd (he.symm.trans hrun) (by decide)
  | send c =>
    obtain ⟨-,-,n,p,-,-,rfl⟩ := step_send hs
    exact husr ((usr2emError_prevGen _ _).1 (of_decide_eq_true he))
  | free c =>
    obtain ⟨-,-,n,p,-,-,rfl⟩ := step_free hs
    exact husr ((usr2emError_prevGen _ _).1 (of_decide_eq_true he))
  | revert c =>
    obtain ⟨-,-,n,-,rfl | rfl⟩ := step_revert hs
    · exact absurd (he.symm.trans hrun) (by decide)
    · exact husr (of_decide_eq_true he)
  | fix c =>
    obtain ⟨-,n,⟨-,-,rfl⟩ | ⟨-,-,rfl⟩ | ⟨-,-,rfl⟩⟩ := step_fix hs
    · exact absurd (he.symm.trans hrun) (by decide)
    · exact absurd (he.symm.trans hrun) (by decide)
    · exact husr (of_decide_eq_true he)

private theorem live_initial (h : Initial preallocPools s) : Live s := by
  obtain ⟨c,hc⟩ := h.held
  have hem : s.emOwned = 0 := by simp [State.emOwned, h.queued, h.idle, Pc.sending]
  have href : s.refs = 1 := by simp [State.refs, h.created, h.frees]
  have hsum : ∑ i, s.held i = 1 := by simp [hc]
  rw [Live, hem, href, hsum]
  rfl

end Legal

/-- While no access carries or borrows out of the low half, the counters are exact, a run
with more frees than references or more sends than references has been reported, and a
program that uses only what it owns is not. The packet's next use starts anew. -/
theorem references_exact
    (h : (refMachine ι preallocPools).ReachableVia (fun s l t => InWord s l ∧ FewRefs t) s) :
    s.stateCnt.refs = 1 + s.created - s.frees ∧ s.stateCnt.sends = s.emOwned ∧
    (s.error = false → 0 ≤ s.refs ∧ (s.emOwned : Int) ≤ s.refs) ∧
    ((refMachine ι preallocPools).ReachableVia
      (fun s l t => InWord s l ∧ FewRefs t ∧ Owned s l) s → s.error = false) ∧
    (∀ l t, s.step l = some t → FewRefs t → (t.stateCnt.refs = t.refs ↔ InWord s l)) ∧
    ∀ (event : EvHdl) (evHdr : EvHdr), evHdr.refsUsed = true → ∀ preallocPools emPool isExtev,
        (∃ r, eventAlloc preallocPools event evHdr = .ok r ∧ Fresh r) ∧
        (∃ r, evhdrInitPkt preallocPools event evHdr emPool false isExtev = .ok r ∧ Fresh r) ∧
        ∃ r, evhdrInitPktMulti preallocPools event evHdr emPool false isExtev = .ok r ∧ Fresh r := by
  have hi : Inv s := h.invariant (I := Inv) (fun _ => inv_initial)
    fun _ _ _ hi hs hok => inv_step hi hs hok.1 hok.2
  obtain ⟨g,h0,h1,hc⟩ := hi.stateCnt
  refine ⟨?_,?_,fun he => ?_,fun hlegal => ?_,fun l t => hi.exact_iff,
    fun _ _ hr _ _ _ => fresh_of_refsUsed hr⟩
  · rw [hc]
    exact encode_refs h0 h1 hi.range.refs_gt hi.range.refs_lt
  · rw [hc]
    exact (hi.range.sends_refs h0 h1).1
  · have hord := hi.ordered he
    exact ⟨by omega,hord⟩
  · have hl := hlegal.invariant (I := fun s => Inv s ∧ Live s ∧ s.error = false)
      (fun _ (h0 : Initial preallocPools _) => ⟨inv_initial h0,live_initial h0,h0.error⟩)
      fun s l t hi hs hok => by
        have ht := inv_step hi.1 hs hok.1 hok.2.1
        have hlive := live_step hi.2.1 hs hok.2.2
        refine ⟨ht,hlive,?_⟩
        by_contra hne
        have hlt := live_of_error ht hs (Bool.eq_true_of_not_eq_false hne)
        unfold Live at hlive
        omega
    exact hl.2.2

instance (s : State ι) (l : Label ι) : Decidable (InWord s l) := inferInstanceAs (Decidable (_ ∧ _))
instance (s : State ι) : Decidable (FewRefs s) := inferInstanceAs (Decidable (_ < _))

/-- Core 0 owns an event that has four generations before `EVGEN_MAX` left. -/
def owned : State (Fin 3) :=
  ⟨encode 0xEFFB 0 1,⟨7,0xEFFB⟩,fun _ => .idle,0,fun c => if c = 0 then 1 else 0,0,0,false⟩

theorem owned_initial : Initial true owned := by
  obtain ⟨o,ho,howner,hn,hp⟩ := exists_user_run 0xDFFB
  have hi := EventState.reachable_inv ho
  have hgen : gen 0xDFFB = 0xEFFB := by decide
  refine ⟨⟨o,ho,howner,?_,?_⟩,fun _ => rfl,rfl,⟨0,fun _ => rfl⟩,rfl,rfl,rfl⟩
  · rw [hi.stateCnt, howner, hn, hgen]; rfl
  · have hev := hi.handle howner
    rw [hn, hgen] at hev
    ext1
    · exact hp.symm
    · exact hev.symm

instance (s : State ι) : (l : Label ι) → Decidable (Owned s l)
  | .ref c | .send c | .free c => inferInstanceAs (Decidable (0 < s.held c))
  | .enqueue _ | .revert _ | .fix _ | .dispatch _ => inferInstanceAs (Decidable True)

/-- A reference is sent to core 1 and freed there, a second send fails. -/
private def oneFreed : Option (State (Fin 3)) :=
  System.exec State.step (fun s l t => decide (InWord s l ∧ FewRefs t ∧ Owned s l)) owned
    [.ref 0, .send 0, .enqueue 0, .dispatch 1, .send 0, .free 1, .revert 0]

private theorem oneFreed_isSome : oneFreed.isSome = true := by decide

private theorem oneFreed_reachable : (refMachine (Fin 3) true).ReachableVia
    (fun s l t => InWord s l ∧ FewRefs t ∧ Owned s l) (oneFreed.get oneFreed_isSome) :=
  System.ReachableVia.exec (fun _ _ _ => of_decide_eq_true) (.start owned_initial)
    (Option.some_get oneFreed_isSome).symm

theorem references_exact_oneFreed :
    (oneFreed.get oneFreed_isSome).stateCnt.refs = 1 + 1 - 1 ∧
      (oneFreed.get oneFreed_isSome).error = false :=
  have h := references_exact (oneFreed_reachable.mono fun _ _ _ hok => ⟨hok.1,hok.2.1⟩)
  ⟨h.1,h.2.2.2.1 oneFreed_reachable⟩

/-- Three references; core 1's send fails after core 0 has brought the generation to
`EVGEN_MAX`, core 2 brings it there again, and then both restart it. -/
def restartedTwice : Option (State (Fin 3)) :=
  System.exec State.step (fun s l t => decide (FewRefs t ∧ Owned s l)) owned
    [.ref 0, .ref 0, .send 0, .enqueue 0, .send 0, .enqueue 0, .dispatch 1, .dispatch 2,
      .send 1, .send 0, .revert 1, .send 2, .fix 0, .fix 2]

theorem restartedTwice_isSome : restartedTwice.isSome = true := by decide

theorem reference_count_borrowed : ¬∀ s : State (Fin 3), (refMachine (Fin 3) true).ReachableVia
    (fun s l t => FewRefs t ∧ Owned s l) s → s.stateCnt.refs = 1 + s.created - s.frees := by
  intro h
  have hs := h (restartedTwice.get restartedTwice_isSome) (System.ReachableVia.exec
    (fun _ _ _ => of_decide_eq_true) (.start owned_initial)
    (Option.some_get restartedTwice_isSome).symm)
  revert hs
  decide

end EmOdp.EventState.Ref
