import EmOdp.EoQueues.Deletable

/-! EOs that are left in their start or stop. -/
namespace EmOdp.EoQueues
open Lib QueueTable
open EoStart (EoState)
variable {ι γ α ε ρ : Type} {e : ε}

/-- The call starts or stops the EO. -/
def Pending.startsOrStops [DecidableEq ε] (e : ε) (p : Pending ι ε) : Bool :=
  p.phase.any fun y => decide (y.1 = e)

/-- A call that starts or stops the EO comes to its end, or goes on. -/
def Label.endsCall [DecidableEq ε] (e : ε) : Label ι γ α ε ρ → Bool
  | .done p _ _ _ _ => p.startsOrStops e
  | _ => false

/-- The local start functions of the EO have failed on some core. -/
def Label.failsLocalStart [DecidableEq ε] (e : ε) : Label ι γ α ε ρ → Bool
  | .done (.startLocal d) ok _ _ _ => !ok && decide (d = e)
  | _ => false

theorem Pending.phase_of_startsOrStops [DecidableEq ε] {p : Pending ι ε} (h : p.startsOrStops e = true) :
    ∃ state, p.phase = some (e,state) := by
  obtain ⟨y,hy,he⟩ := (Option.any_eq_true _ _).1 h
  exact ⟨y.2,hy.trans (by rw [← of_decide_eq_true he])⟩

theorem Label.fails_endsCall [DecidableEq ε] {l : Label ι γ α ε ρ} (h : l.failsLocalStart e = true) :
    l.endsCall e = true := by
  unfold Label.failsLocalStart at h
  split at h
  · simp only [Bool.and_eq_true] at h
    simpa [Label.endsCall, Pending.startsOrStops, Pending.phase] using h.2
  · cases h

namespace State
variable {s t u : State ι γ α ε ρ} {d : ε} {q : ι}

section
variable [DecidableEq ε]

/-- A call that starts or stops the EO is pending. -/
def Busy (s : State ι γ α ε ρ) (e : ε) : Prop :=
  ∃ p ∈ s.pending, p.startsOrStops e = true

/-- The EO is being started or stopped, and no call will come to its end. -/
structure Stuck (s : State ι γ α ε ρ) (e : ε) : Prop where
  allocated : (s.eoElem e).allocated = true
  state : (s.eoElem e).state = .starting ∨ (s.eoElem e).state = .stopping
  idle : ¬s.Busy e

/-- The start or stop of the EO goes on. -/
structure SameEo (s t : State ι γ α ε ρ) (e : ε) : Prop where
  allocated : (t.eoElem e).allocated = (s.eoElem e).allocated
  state : (t.eoElem e).state = (s.eoElem e).state
  startLocalFunc : (t.eoElem e).startLocalFunc = (s.eoElem e).startLocalFunc
  calls : ∀ p : Pending ι ε, p.startsOrStops e = true → (p ∈ t.pending ↔ p ∈ s.pending)

/-- The EO was not being started or stopped, and it is not left so. -/
structure Settled (s t : State ι γ α ε ρ) (e : ε) : Prop where
  idle : ¬s.Busy e
  before : ¬s.Stuck e
  after : ¬t.Stuck e

theorem SameEo.refl (s : State ι γ α ε ρ) (e : ε) : s.SameEo s e := ⟨rfl,rfl,rfl,fun _ _ => .rfl⟩

theorem SameEo.trans (h : s.SameEo t e) (h' : t.SameEo u e) : s.SameEo u e :=
  ⟨h'.allocated.trans h.allocated,h'.state.trans h.state,h'.startLocalFunc.trans h.startLocalFunc,
    fun p hp => (h'.calls p hp).trans (h.calls p hp)⟩

theorem SameEo.busy (h : s.SameEo t e) : t.Busy e ↔ s.Busy e :=
  exists_congr fun p => and_congr_left fun hp => h.calls p hp

theorem SameEo.stuck (h : s.SameEo t e) : t.Stuck e ↔ s.Stuck e := by
  constructor
  · exact fun ht => ⟨h.allocated ▸ ht.allocated,h.state ▸ ht.state,h.busy.not.1 ht.idle⟩
  · exact fun hs => ⟨h.allocated ▸ hs.allocated,h.state ▸ hs.state,h.busy.not.2 hs.idle⟩

theorem SameEo.of_eq (heo : t.eoElem = s.eoElem) (hpending : t.pending = s.pending) : s.SameEo t e :=
  ⟨by rw [heo],by rw [heo],by rw [heo],fun _ _ => by rw [hpending]⟩

theorem Quiet.sameEo (h : s.Quiet t) (e : ε) : s.SameEo t e :=
  ⟨(h.eo e).1,(h.eo e).2,h.startLocalFunc e,fun p hp => h.calls.mem p fun hno => by
    simp [Pending.startsOrStops, hno] at hp⟩

theorem SameEo.add {p : Pending ι ε} (hp : p.startsOrStops e = false) (s : State ι γ α ε ρ) :
    s.SameEo (s.add p) e := by
  refine ⟨rfl,rfl,rfl,fun r hr => ?_⟩
  have hne : r ≠ p := by
    rintro rfl
    cases hp.symm.trans hr
  simp [State.add, hne]

theorem SameEo.erase [DecidableEq ι] {p : Pending ι ε} (hp : p.startsOrStops e = false)
    (s : State ι γ α ε ρ) : s.SameEo { s with pending := s.pending.erase p } e := by
  refine ⟨rfl,rfl,rfl,fun r hr => List.mem_erase_of_ne ?_⟩
  rintro rfl
  cases hp.symm.trans hr

theorem SameEo.setEo (hd : d ≠ e) (s : State ι γ α ε ρ) (x : EoElem ι ρ) : s.SameEo (s.setEo d x) e := by
  have heq : (s.setEo d x).eoElem e = s.eoElem e := Function.update_of_ne hd.symm _ _
  exact ⟨congrArg _ heq,congrArg _ heq,congrArg _ heq,fun _ _ => .rfl⟩

theorem setEo_not_stuck {x : EoElem ι ρ} (hstarting : x.state ≠ .starting)
    (hstopping : x.state ≠ .stopping) : ¬(s.setEo e x).Stuck e := by
  intro h
  have hstate := h.state
  simp only [State.setEo, Function.update_self] at hstate
  exact hstate.elim hstarting hstopping

theorem ClosedBut.not_busy {strict : Bool} (h : s.ClosedBut e strict) : ¬s.Busy e := by
  rintro ⟨p,hmem,hp⟩
  obtain ⟨state,hphase⟩ := Pending.phase_of_startsOrStops hp
  exact (h.phases _ (List.mem_filterMap.2 ⟨p,hmem,hphase⟩)).1 rfl

/-- The EO is in another state. -/
theorem Closed.settled {strict : Bool} (h : s.Closed strict) (hstarting : (s.eoElem e).state ≠ .starting)
    (hstopping : (s.eoElem e).state ≠ .stopping) (ht : ¬t.Stuck e) : s.Settled t e :=
  ⟨(h.but_of_state hstarting hstopping).not_busy,fun hs => hs.state.elim hstarting hstopping,ht⟩

theorem add_not_stuck {p : Pending ι ε} {state : EoState} (hp : p.phase = some (e,state)) :
    ¬(s.add p).Stuck e :=
  fun h => h.idle ⟨p,by simp [State.add],by simp [Pending.startsOrStops, hp]⟩

end

variable [DecidableEq ι] [DecidableEq γ] [DecidableEq α] [DecidableEq ε]

omit [DecidableEq γ] [DecidableEq α] in
theorem queueEnable_sameEo (s : State ι γ α ε ρ) (q : ι) (e : ε) : s.SameEo (s.queueEnable q).1 e := by
  simp only [queueEnable, queueStateSet]
  split
  · exact .refl s e
  split
  · exact .refl s e
  split
  · exact .refl s e
  · exact .of_eq rfl rfl

theorem queueEnableAll_sameEo (hinv : s.Inv) (d e : ε) : s.SameEo (s.queueEnableAll d).1 e := by
  by_cases halloc : (s.eoElem d).allocated = true
  · obtain ⟨-,hst⟩ := queueEnableAll_switched hinv halloc
    exact .of_eq hst.eoElem hst.pending
  · simp only [queueEnableAll, Bool.eq_false_of_not_eq_true halloc]
    exact .refl s e

theorem queueDisableAll_sameEo (hinv : s.Inv) (d e : ε) : s.SameEo (s.queueDisableAll d).1 e :=
  (Changes.isQuiet (c := { quiet := true }) rfl hinv (queueDisableAll_changes hinv)).sameEo e

omit [DecidableEq ι] [DecidableEq γ] [DecidableEq α] in
theorem initEo_eo (hclosed : s.Closed false) (h : (s.eoElem d).allocated = false) (p : EoParam ρ)
    {x : EoElem ι ρ} (hx : x.state = .created) :
    s.SameEo ((s.initEo d p).setEo d x) e ∨ s.Settled ((s.initEo d p).setEo d x) e := by
  by_cases hd : d = e
  · subst hd
    refine .inr ⟨?_,fun hs => ?_,setEo_not_stuck ?_ ?_⟩
    · refine (hclosed.but fun p hp hpd => ?_).not_busy
      cases h.symm.trans (hpd ▸ (hclosed.phases _ hp).1)
    · cases h.symm.trans hs.allocated
    · rw [hx]
      exact nofun
    · rw [hx]
      exact nofun
  · exact .inl ((SameEo.setEo hd s _).trans (.setEo hd _ x))

theorem emEoDelete_eo (hinv : s.Inv) (hclosed : s.Closed false) (destroyOk : ι → Bool) :
    s.SameEo (s.emEoDelete d destroyOk).1 e ∨ s.Settled (s.emEoDelete d destroyOk).1 e := by
  have hquiet : s.Quiet (s.eoDeleteQueueAll d destroyOk).1 :=
    Changes.isQuiet (c := { quiet := true }) rfl hinv (removeAll_changes hinv true destroyOk)
  simp only [emEoDelete]
  split
  · exact .inl (.refl s e)
  split
  · exact .inl (.refl s e)
  rename_i hstate
  split
  · exact .inl (hquiet.sameEo e)
  by_cases hd : d = e
  · subst hd
    refine .inr (hclosed.settled (fun hc => ?_) (fun hc => ?_) fun ht => ?_)
    · simp [hc, EoState.acceptsDelete] at hstate
    · simp [hc, EoState.acceptsDelete] at hstate
    · have halloc := ht.allocated
      simp [eoFree, State.setEo] at halloc
  · exact .inl ((hquiet.sameEo e).trans (.setEo hd _ _))

theorem eoAddQueueEscope_sameEo (hinv : s.Inv) (notifTblOk notifsOk : Bool) :
    s.SameEo (s.eoAddQueueEscope d q notifTblOk notifsOk).1 e := by
  simp only [eoAddQueueEscope]
  split
  · exact .refl s e
  rename_i halloc
  split
  · exact .refl s e
  rename_i htype
  split
  · exact .refl s e
  by_cases hq : (s.tbl.elem q).state = .init
  · simp only [Bool.or_eq_true, Bool.not_eq_true', not_or, Bool.not_eq_false] at halloc htype
    have hadd : s.SameEo (s.eoAddQueue d q).1 e :=
      (Changes.isQuiet (c := { quiet := true }) rfl hinv
        (.single (.addQueue halloc.1 halloc.2 htype hq))).sameEo e
    have henable := hadd.trans ((s.eoAddQueue d q).1.queueEnable_sameEo q e)
    split
    · exact hadd
    split
    · split
      · exact henable
      split
      · exact henable
      · exact henable
    · split
      · exact hadd
      · exact hadd
  · rw [eoAddQueue_failed hq]
    exact .refl s e

omit [DecidableEq ι] [DecidableEq γ] [DecidableEq α] in
theorem emEoStart_eo (hclosed : s.Closed false) (sync notifTblOk stashOk : Bool) :
    s.SameEo (s.emEoStart d sync notifTblOk stashOk).1 e ∨
      s.Settled (s.emEoStart d sync notifTblOk stashOk).1 e := by
  simp only [emEoStart]
  split
  · exact .inl (.refl s e)
  split
  · exact .inl (.refl s e)
  rename_i hstate
  split
  · exact .inl (.refl s e)
  by_cases hd : d = e
  · subst hd
    refine .inr (hclosed.settled (fun hc => ?_) (fun hc => ?_) ?_)
    · simp [hc, EoState.acceptsStart] at hstate
    · simp [hc, EoState.acceptsStart] at hstate
    · split
      · exact setEo_not_stuck (fun h => by cases h) (fun h => by cases h)
      · exact add_not_stuck rfl
  · have hstarting : s.SameEo (s.setEoState d .starting) e := .setEo hd _ _
    split
    · exact .inl (hstarting.trans (.setEo hd _ _))
    · exact .inl (hstarting.trans (.add (by simp [Pending.startsOrStops, Pending.phase, hd]) _))

theorem emEoStop_eo (hinv : s.Inv) (hclosed : s.Closed false) (sync notifTblOk : Bool)
    (reqsSent : ReqsSent) :
    s.SameEo (s.emEoStop d sync notifTblOk reqsSent).1 e ∨
      s.Settled (s.emEoStop d sync notifTblOk reqsSent).1 e := by
  simp only [emEoStop]
  split
  · exact .inl (.refl s e)
  rename_i halloc
  split
  · exact .inl (.refl s e)
  rename_i hstate
  split
  · exact .inl (.refl s e)
  have hinv' : (s.setEoState d .stopping).Inv :=
    hinv.changes (setEoState_changes (c := {}) rfl s d .stopping)
  have halloc' : ((s.setEoState d .stopping).eoElem d).allocated = true := by
    simpa [State.setEoState, State.setEo] using halloc
  rw [if_neg fun hc => hc.2 (queueDisableAll_switched hinv' halloc').1]
  by_cases hd : d = e
  · subst hd
    refine .inr (hclosed.settled (fun hc => ?_) (fun hc => ?_) ?_)
    · simp [hc, EoState.acceptsStop] at hstate
    · simp [hc, EoState.acceptsStop] at hstate
    · cases reqsSent with
      | failed => exact setEo_not_stuck (fun h => by cases h) (fun h => by cases h)
      | zero => exact setEo_not_stuck (fun h => by cases h) (fun h => by cases h)
      | some => exact add_not_stuck rfl
  · have hstopping : s.SameEo ((s.setEoState d .stopping).queueDisableAll d).1 e :=
      (SameEo.setEo hd s _).trans (queueDisableAll_sameEo hinv' d e)
    cases reqsSent with
    | failed => exact .inl (hstopping.trans (.setEo hd _ _))
    | zero => exact .inl (hstopping.trans (.setEo hd _ _))
    | some => exact .inl (hstopping.trans (.add (by simp [Pending.startsOrStops, Pending.phase, hd]) _))

omit [DecidableEq γ] [DecidableEq α] in
theorem startRunning_not_stuck (sync notifsOk : Bool) : ¬(s.startRunning e sync notifsOk).1.Stuck e := by
  simp only [startRunning]
  split
  · exact setEo_not_stuck (fun h => by cases h) (fun h => by cases h)
  split
  · exact setEo_not_stuck (fun h => by cases h) (fun h => by cases h)
  · exact setEo_not_stuck (fun h => by cases h) (fun h => by cases h)

theorem startRunning_sameEo (hinv : s.Inv) (hd : d ≠ e) (sync notifsOk : Bool) :
    s.SameEo (s.startRunning d sync notifsOk).1 e := by
  have hst := queueEnableAll_sameEo hinv d e
  simp only [startRunning]
  split
  · exact hst.trans (.setEo hd _ _)
  split
  · exact (hst.trans (.setEo hd _ _)).trans (.setEo hd _ _)
  · exact hst.trans (.setEo hd _ _)

omit [DecidableEq γ] [DecidableEq α] in
theorem startFuncDone_not_stuck (sync startOk : Bool) (reqsSent : ReqsSent) (notifsOk : Bool) :
    ¬(s.startFuncDone e sync startOk reqsSent notifsOk).1.Stuck e := by
  unfold startFuncDone
  split
  · exact setEo_not_stuck nofun nofun
  split
  · cases reqsSent with
    | failed => exact setEo_not_stuck nofun nofun
    | zero => exact startRunning_not_stuck sync notifsOk
    | some => exact add_not_stuck rfl
  · exact startRunning_not_stuck sync notifsOk

theorem startFuncDone_sameEo (hinv : s.Inv) (hd : d ≠ e) (sync startOk : Bool) (reqsSent : ReqsSent)
    (notifsOk : Bool) : s.SameEo (s.startFuncDone d sync startOk reqsSent notifsOk).1 e := by
  unfold startFuncDone
  split
  · exact .setEo hd _ _
  split
  · cases reqsSent with
    | failed => exact .setEo hd _ _
    | zero => exact startRunning_sameEo hinv hd sync notifsOk
    | some => exact .add (by simp [Pending.startsOrStops, Pending.phase, hd]) _
  · exact startRunning_sameEo hinv hd sync notifsOk

theorem eoStartDoneCallback_sameEo (hinv : s.Inv) (hd : d ≠ e) (ok : Bool) :
    s.SameEo (s.eoStartDoneCallback d ok) e := by
  have hst := queueEnableAll_sameEo hinv d e
  simp only [eoStartDoneCallback]
  split
  · split
    · exact hst.trans (.setEo hd _ _)
    · exact hst
  · exact .refl s e

/-- A call that starts or stops another EO, or none, goes on. -/
theorem done_sameEo {p : Pending ι ε} (hinv : s.Inv) (hmem : p ∈ s.pending)
    (hp : p.startsOrStops e = false) (ok : Bool) (reqsSent : ReqsSent) (notifsOk : Bool)
    (destroyOk : ι → Bool) : s.SameEo (s.done p ok reqsSent notifsOk destroyOk) e := by
  have hinv' : Inv { s with pending := s.pending.erase p } :=
    hinv.changes (.single (.pending (c := {}) s _ nofun))
  refine (SameEo.erase hp s).trans ?_
  cases p with
  | startFunc d sync =>
    refine startFuncDone_sameEo hinv' ?_ sync ok reqsSent notifsOk
    simpa [Pending.startsOrStops, Pending.phase] using hp
  | startLocal d =>
    refine eoStartDoneCallback_sameEo hinv' ?_ ok
    simpa [Pending.startsOrStops, Pending.phase] using hp
  | stopLocal d =>
    refine .setEo ?_ _ _
    simpa [Pending.startsOrStops, Pending.phase] using hp
  | removeQueue d q =>
    exact (Changes.isQuiet (c := { quiet := true }) rfl hinv' (eoRemQueue_changes nofun)).sameEo e
  | removeQueueAll d deleteQueues =>
    exact (Changes.isQuiet (c := { quiet := true }) rfl hinv'
      (removeAll_changes hinv' deleteQueues destroyOk)).sameEo e

/-- The start or the stop of the EO goes on. -/
theorem done_stuck {p : Pending ι ε} (hinv : s.Inv) (hclosed : s.Closed false) (hmem : p ∈ s.pending)
    (hp : p.startsOrStops e = true) (ok : Bool) (reqsSent : ReqsSent) (notifsOk : Bool)
    (destroyOk : ι → Bool) : ¬s.Stuck e ∧
      ((s.done p ok reqsSent notifsOk destroyOk).Stuck e ↔ Label.failsLocalStart (γ := γ) (α := α)
        (ρ := ρ) e (.done p ok reqsSent notifsOk destroyOk) = true) := by
  have hinv' : Inv { s with pending := s.pending.erase p } :=
    hinv.changes (.single (.pending (c := {}) s _ (fun h => by cases h)))
  obtain ⟨state,hphase⟩ := Pending.phase_of_startsOrStops hp
  obtain ⟨hbut,halloc,hstate⟩ := hclosed.erase hmem hphase
  refine ⟨fun hs => hs.idle ⟨p,hmem,hp⟩,?_⟩
  cases p with
  | startFunc d sync =>
    cases hphase
    exact iff_of_false (startFuncDone_not_stuck sync ok reqsSent notifsOk) Bool.false_ne_true
  | startLocal d =>
    cases hphase
    have hidle : ¬Busy { s with pending := s.pending.erase (.startLocal e) } e :=
      hbut.not_busy
    cases ok with
    | true =>
      refine iff_of_false (fun ht => ?_) (by simp [Label.failsLocalStart])
      have hrun := ht.state
      simp [State.done, eoStartDoneCallback, (queueEnableAll_switched hinv' halloc).1, setEoState,
        State.setEo] at hrun
    | false => exact iff_of_true ⟨halloc,.inl hstate,hidle⟩ (by simp [Label.failsLocalStart])
  | stopLocal d =>
    cases hphase
    exact iff_of_false (setEo_not_stuck (fun h => by cases h) (fun h => by cases h)) Bool.false_ne_true
  | removeQueue => cases hphase
  | removeQueueAll => cases hphase

/-- A step that does not end a call of the EO -/
theorem step_eo {l : Label ι γ α ε ρ} (hinv : s.Inv) (hclosed : s.Closed false)
    (hst : s.step l = some t) (hl : l.endsCall e = false) : s.SameEo t e ∨ s.Settled t e := by
  have hquiet : ∀ {u : State ι γ α ε ρ}, Changes { quiet := true } s u → s.SameEo u e ∨ s.Settled u e :=
    fun hu => .inl ((Changes.isQuiet rfl hinv hu).sameEo e)
  cases l with
  | createQueue q p =>
    simp only [State.step] at hst
    split at hst <;> cases hst
    cases hcheck : s.tbl.queueCreateCheckArgs p with
    | true => exact hquiet (.single (.createQueue ‹_› hcheck))
    | false =>
      simp only [queueCreate, hcheck]
      exact .inl (.refl s e)
  | deleteQueue q destroyOk =>
    cases hst
    exact hquiet (.single (.deleteQueue s q destroyOk))
  | pktinQueue q type g contextSetOk =>
    simp only [State.step] at hst
    split at hst <;> cases hst
    rename_i hc
    exact hquiet (.single (.pktinQueue contextSetOk hc.1 hc.2.1 hc.2.2))
  | createGroup g =>
    obtain ⟨tbl,htbl,rfl⟩ := Option.map_eq_some_iff.1 hst
    exact hquiet (.single (.createGroup htbl))
  | deleteGroup g =>
    obtain ⟨tbl,htbl,rfl⟩ := Option.map_eq_some_iff.1 hst
    exact hquiet (.single (.deleteGroup htbl (fun h => by cases h)))
  | createEo d p =>
    simp only [State.step] at hst
    split at hst <;> cases hst
    have hd := Bool.eq_false_of_not_eq_true ‹_›
    simp only [eoCreate]
    split
    · exact .inl (.refl s e)
    split
    · exact .inl (.refl s e)
    split
    · exact .inl (.refl s e)
    · exact initEo_eo hclosed hd p (by simp [initEo, State.setEo])
  | createEoMultircv d p maxEvents =>
    simp only [State.step] at hst
    split at hst <;> cases hst
    have hd := Bool.eq_false_of_not_eq_true ‹_›
    simp only [emEoCreateMultircv]
    split
    · exact .inl (.refl s e)
    split
    · exact .inl (.refl s e)
    · exact initEo_eo hclosed hd p (by simp [initEo, State.setEo])
  | deleteEo d destroyOk =>
    cases hst
    exact emEoDelete_eo hinv hclosed destroyOk
  | addQueue d q notifTblOk notifsOk =>
    cases hst
    exact .inl (eoAddQueueEscope_sameEo hinv notifTblOk notifsOk)
  | removeQueue d q notifTblOk reqsSent =>
    cases hst
    exact hquiet (emEoRemoveQueue_changes notifTblOk reqsSent)
  | removeQueueAll d deleteQueues notifTblOk reqsSent destroyOk =>
    cases hst
    exact hquiet (emEoRemoveQueueAll_changes hinv deleteQueues notifTblOk reqsSent destroyOk)
  | start d sync notifTblOk stashOk =>
    cases hst
    exact emEoStart_eo hclosed sync notifTblOk stashOk
  | stop d sync notifTblOk reqsSent =>
    cases hst
    exact emEoStop_eo hinv hclosed sync notifTblOk reqsSent
  | done p ok reqsSent notifsOk destroyOk =>
    simp only [State.step] at hst
    split at hst <;> cases hst
    exact .inl (done_sameEo hinv ‹_› hl ok reqsSent notifsOk destroyOk)
  | enable q =>
    simp only [State.step] at hst
    split at hst <;> cases hst
    exact .inl (s.queueEnable_sameEo q e)
  | disable q =>
    simp only [State.step] at hst
    split at hst <;> cases hst
    exact hquiet (queueDisable_changes ‹_›)
  | enableAll d =>
    cases hst
    exact .inl (queueEnableAll_sameEo hinv d e)
  | disableAll d =>
    cases hst
    exact hquiet (queueDisableAll_changes hinv)

/-- An EO is left in its start when its local start functions fail, and remains there. -/
theorem step_stuck {l : Label ι γ α ε ρ} (hinv : s.Inv) (hclosed : s.Closed false)
    (hst : s.step l = some t) : t.Stuck e ↔ s.Stuck e ∨ l.failsLocalStart e = true := by
  cases hl : l.endsCall e with
  | false =>
    have hno : l.failsLocalStart e ≠ true := fun hf => by
      cases hl.symm.trans (Label.fails_endsCall hf)
    rcases step_eo hinv hclosed hst hl with hsame | hsettled
    · rw [hsame.stuck, or_iff_left hno]
    · exact iff_of_false hsettled.after (not_or.2 ⟨hsettled.before,hno⟩)
  | true =>
    cases l with
    | done p ok reqsSent notifsOk destroyOk =>
      simp only [State.step] at hst
      split at hst <;> cases hst
      obtain ⟨hs,ht⟩ := done_stuck hinv hclosed ‹_› hl ok reqsSent notifsOk destroyOk
      rw [ht, or_iff_right hs]
    | _ => cases hl

theorem reachable_calls (h : (machine ι γ α ε ρ).Reachable s) : s.Inv ∧ s.Closed false := by
  refine h.invariant (I := fun s => s.Inv ∧ s.Closed false) (fun s hi => ?_) fun s l t hs hst _ => ?_
  · exact ⟨⟨Initial.linked hi,Initial.family hi⟩,Initial.closed hi⟩
  · exact ⟨hs.1.changes (step_changes {} hs.1 hst nofun nofun rfl nofun),hs.2.step hs.1 hst nofun⟩

/-- A run leaves an EO in its start if its local start functions fail, or if it was left. -/
theorem path_stuck {ls : List (Label ι γ α ε ρ)} (h : (machine ι γ α ε ρ).Reachable s)
    (hpath : System.Path (machine ι γ α ε ρ) s ls t) :
    t.Stuck e ↔ s.Stuck e ∨ ∃ l ∈ ls, l.failsLocalStart e = true := by
  induction hpath with
  | nil => simp
  | cons hst _ ih =>
    obtain ⟨hinv,hclosed⟩ := reachable_calls h
    rw [ih (.step h hst trivial), step_stuck hinv hclosed hst, List.exists_mem_cons_iff, or_assoc]

/-- A start or stop goes on while none of its calls comes to its end. -/
theorem path_busy {ls : List (Label ι γ α ε ρ)} (h : (machine ι γ α ε ρ).Reachable s)
    (hpath : System.Path (machine ι γ α ε ρ) s ls t) (hbusy : s.Busy e)
    (hls : ∀ l ∈ ls, l.endsCall e = false) : s.SameEo t e := by
  induction hpath with
  | nil s => exact .refl s e
  | cons hst _ ih =>
    obtain ⟨hinv,hclosed⟩ := reachable_calls h
    obtain ⟨hl,hls⟩ := List.forall_mem_cons.1 hls
    rcases step_eo hinv hclosed hst hl with hsame | hsettled
    · exact hsame.trans (ih (.step h hst trivial) (hsame.busy.2 hbusy) hls)
    · exact absurd hbusy hsettled.idle

end State
end EmOdp.EoQueues
