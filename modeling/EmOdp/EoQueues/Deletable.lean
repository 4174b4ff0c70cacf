import EmOdp.EoQueues.DeleteAll

/-! EOs that accept their delete can be deleted. -/
namespace EmOdp.EoQueues
open Lib QueueTable
open EoStart (EoState)
variable {ι γ α ε ρ : Type}

namespace State
variable {s t : State ι γ α ε ρ} {e : ε} {q r : ι} {c : Limits} {strict : Bool}

/-- The queue groups of scheduled queues exist. -/
def Grouped (s : State ι γ α ε ρ) : Prop :=
  ∀ q, (s.tbl.elem q).allocated = true → (s.tbl.elem q).type.scheduled = true →
    ∃ g, (s.tbl.elem q).queueGroup = some g ∧ s.tbl.groupAllocated g = true

variable [DecidableEq ι] [DecidableEq γ] [DecidableEq α] [DecidableEq ε]

theorem Grouped.change (hc : c.keep = true) (h : s.Grouped) (hst : Change c s t) : t.Grouped := by
  -- a queue with the same queue group
  have hsame : ∀ {u : State ι γ α ε ρ} {q : ι}, u.tbl.groupAllocated = s.tbl.groupAllocated →
      (u.tbl.elem q).allocated = (s.tbl.elem q).allocated →
      (u.tbl.elem q).type = (s.tbl.elem q).type →
      (u.tbl.elem q).queueGroup = (s.tbl.elem q).queueGroup →
      (u.tbl.elem q).allocated = true → (u.tbl.elem q).type.scheduled = true →
        ∃ g, (u.tbl.elem q).queueGroup = some g ∧ u.tbl.groupAllocated g = true := by
    intro u q hgroups halloc htype hgroup hu hsched
    rw [hgroup, hgroups]
    exact h q (halloc ▸ hu) (htype ▸ hsched)
  have hstate {u : State ι γ α ε ρ} {q : ι} {state : QueueState}
      (htbl : u.tbl = s.tbl.setElem q { s.tbl.elem q with state }) : u.Grouped := by
    intro r
    rw [htbl, QueueTable.State.elem_setElem]
    by_cases hrq : r = q
    · subst hrq
      rw [Function.update_self]
      exact h r
    · rw [Function.update_of_ne hrq]
      exact h r
  cases hst with
  | @createQueue q p hfresh hcheck =>
    have hcreated := QueueTable.State.queueCreate_created hfresh hcheck
    have hgroups := QueueTable.State.queueCreate_groupAllocated s.tbl q p
    rw [queueCreate_eq hcheck]
    intro r halloc hsched
    by_cases hrq : r = q
    · subst hrq
      rcases hcreated.result with ⟨-,-,hgroup⟩ | ⟨hfree,-⟩
      · dsimp only at hsched ⊢
        rw [hcreated.type] at hsched
        rw [hgroup, hsched, hgroups]
        exact QueueTable.State.queueCreateCheckArgs_group hcheck hsched
      · cases hfree.symm.trans halloc
    · by_cases hmem : r ∈ ((s.tbl.queueCreate q p).1.elem q).aggrQueues
      · dsimp only at hsched
        rw [(hcreated.aggr r hmem).2.2.1.type] at hsched
        cases hsched
      · have he := hcreated.other r hrq hmem
        exact hsame (u := { s with tbl := (s.tbl.queueCreate q p).1 }) hgroups (congrArg _ he)
          (congrArg _ he) (congrArg _ he) halloc hsched
  | @pktinQueue q type g contextSetOk hq _ hg =>
    intro r halloc hsched
    by_cases hrq : r = q
    · subst hrq
      refine ⟨g,?_,?_⟩
      · cases contextSetOk <;> simp [State.pktinEventQueue2em, QueueTable.State.pktinEventQueue2em,
          QueueTable.State.queueSetupCommon, QueueTable.State.queueFree]
      · cases contextSetOk <;> exact hg
    · have he : (s.pktinEventQueue2em q type g contextSetOk).tbl.elem r = s.tbl.elem r := by
        cases contextSetOk <;> simp [State.pktinEventQueue2em, QueueTable.State.pktinEventQueue2em,
          QueueTable.State.queueSetupCommon, QueueTable.State.queueFree, hrq]
      refine hsame ?_ (congrArg _ he) (congrArg _ he) (congrArg _ he) halloc hsched
      cases contextSetOk <;> rfl
  | deleteQueue q destroyOk =>
    have hgroups := QueueTable.State.queueDelete_groupAllocated s.tbl q (destroyOk q)
    intro r halloc hsched
    rcases s.tbl.queueDelete_deleted q (destroyOk q) with ⟨-,argsEvent,helem⟩ | ⟨-,-,hdel⟩
    · have he : (s.queueDelete q destroyOk).1.tbl.elem r =
          Function.update s.tbl.elem q { s.tbl.elem q with argsEvent } r := congrFun helem r
      by_cases hrq : r = q
      · subst hrq
        rw [Function.update_self] at he
        refine hsame hgroups ?_ ?_ ?_ halloc hsched <;> rw [he]
      · rw [Function.update_of_ne hrq] at he
        exact hsame hgroups (congrArg _ he) (congrArg _ he) (congrArg _ he) halloc hsched
    · have hrq : r ≠ q := by
        rintro rfl
        cases hdel.allocated.symm.trans halloc
      rcases hdel.aggrOrOther r hrq with he | ⟨hfreed,-⟩
      · exact hsame hgroups (congrArg _ he) (congrArg _ he) (congrArg _ he) halloc hsched
      · cases (congrArg QueueElem.allocated hfreed).symm.trans halloc
  | @createGroup tbl g hstep =>
    obtain ⟨helem,hgroups⟩ := createGroup_tbl hstep
    intro r halloc hsched
    dsimp only at halloc hsched ⊢
    rw [helem] at halloc hsched ⊢
    obtain ⟨g',hg',hg⟩ := h r halloc hsched
    refine ⟨g',hg',?_⟩
    rw [hgroups, Function.update_apply, hg]
    split <;> rfl
  | @deleteGroup tbl g hstep hkeep =>
    obtain ⟨helem,hgroups⟩ := deleteGroup_tbl hstep
    intro r halloc hsched
    dsimp only at halloc hsched ⊢
    rw [helem] at halloc hsched ⊢
    obtain ⟨g',hg',hg⟩ := h r halloc hsched
    refine ⟨g',hg',?_⟩
    rw [hgroups, Function.update_of_ne, hg]
    rintro rfl
    exact hkeep hc r halloc hg'
  | @setState q state =>
    intro r halloc hsched
    have helem : (s.setQueueState q state).tbl.elem r =
        if r = q ∨ r ∈ (s.tbl.elem q).aggrQueues then { s.tbl.elem r with state } else s.tbl.elem r := rfl
    refine hsame (u := s.setQueueState q state) rfl ?_ ?_ ?_ halloc hsched <;>
    · rw [helem]
      split <;> rfl
  | @addQueue e q _ _ _ hinit =>
    rw [eoAddQueue_ok hinit]
    exact hstate rfl
  | @removeQueue e q hbind =>
    rw [eoRemQueue_ok hbind]
    exact hstate rfl
  | setEo => exact h
  | pending => exact h

theorem Grouped.changes (hc : c.keep = true) (h : s.Grouped) (hst : Changes c s t) : t.Grouped := by
  induction hst with
  | refl => exact h
  | tail _ hst ih => exact ih.change hc hst

/-- Queues are enabled by a step although their EO will not run: the notifications of a start
fail, or `queue_enable` and `queue_enable_all` are called for an EO that does not run. -/
def EnablesStopped (s : State ι γ α ε ρ) : Label ι γ α ε ρ → Prop
  | .done (.startFunc e false) true reqsSent false _ =>
    ((s.eoElem e).startLocalFunc = none ∨ reqsSent = .zero) ∧ (s.eoElem e).queueList ≠ []
  | .enable q => ∃ e, (s.binding q).eoElem = some e ∧ (s.eoElem e).state ≠ .running
  | .enableAll e => (s.eoElem e).state ≠ .running ∧ (s.eoElem e).queueList ≠ []
  | _ => False

/-- The limits of the steps that enable no queue. -/
private abbrev quietLimits : Limits := { quiet := true }

omit [DecidableEq ι] [DecidableEq γ] [DecidableEq α] in
theorem Closed.setEo_of_state {x : EoElem ι ρ} (h : s.Closed strict)
    (hstarting : (s.eoElem e).state ≠ .starting) (hstopping : (s.eoElem e).state ≠ .stopping)
    (hx : strict = true → x.state ≠ .running → ∀ q ∈ x.queueList, (s.tbl.elem q).state = .bind) :
    (s.setEo e x).Closed strict := by
  refine ((h.but_of_state hstarting hstopping).setEo x).close ?_
  simp only [State.setEo, Function.update_self]
  exact hx

omit [DecidableEq ι] [DecidableEq γ] [DecidableEq α] [DecidableEq ε] in
/-- The queue of an EO that runs is enabled. -/
theorem Closed.enable (h : s.Closed strict) (hl : s.Linked) (he : strict = true → (s.eoElem e).state = .running)
    (hq : (s.binding q).eoElem = some e) (hst : s.Switched t [q] .ready) : t.Closed strict := by
  refine ⟨fun hstrict d hd r hr => ?_,?_,?_⟩
  · rw [hst.eoElem] at hd hr
    have hrq : r ∉ [q] := by
      intro hmem
      rw [List.mem_singleton.1 hmem] at hr
      rw [hl.eq_of_mem ((hl.mem e q).2 hq) hr] at hd
      exact hd (he hstrict)
    rw [hst.other r (hl.active_of_mem hr).1 hrq]
    exact h.queues hstrict d hd r hr
  · rw [hst.pending, hst.eoElem]
    exact h.phases
  · rw [hst.pending]
    exact h.nodup

omit [DecidableEq γ] [DecidableEq α] [DecidableEq ε] in
theorem Closed.queueEnable (h : s.Closed strict) (hinv : s.Inv) (htype : ofEo (s.tbl.elem q).type = true)
    (hno : strict = true → ∀ e, (s.binding q).eoElem = some e → (s.eoElem e).state = .running) :
    (s.queueEnable q).1.Closed strict := by
  unfold State.queueEnable
  split
  · exact h
  by_cases hactive : Active (s.tbl.elem q).state
  · obtain ⟨e,he⟩ := (hinv.linked.bound q).2 ⟨htype,hactive⟩
    exact h.enable hinv.linked (fun hstrict => hno hstrict e he) he (queueStateSet_switched hinv (.inr rfl) hactive htype).2
  · rcases s.queueStateSet_cases .ready (.inr rfl) q with ⟨-,heq⟩ | ⟨hc,-⟩ | ⟨hc,-⟩
    · rw [heq]
      exact h
    · exact absurd hc hactive
    · exact absurd hc hactive

omit [DecidableEq ι] [DecidableEq γ] [DecidableEq α] in
/-- An EO is created. -/
theorem Closed.create {x : EoElem ι ρ} (h : s.Closed strict) (he : (s.eoElem e).allocated = false)
    (p : EoParam ρ) (hx : x.queueList = []) : ((s.initEo e p).setEo e x).Closed strict := by
  have hbut : s.ClosedBut e strict := by
    refine h.but fun p hp hpe => ?_
    have halloc := (h.phases p hp).1
    rw [hpe] at halloc
    cases he.symm.trans halloc
  refine ((hbut.setEo _).setEo x).close fun _ _ q hq => ?_
  simp only [State.setEo, Function.update_self, hx] at hq
  cases hq

theorem Closed.emEoDelete (h : s.Closed strict) (hinv : s.Inv) (destroyOk : ι → Bool) :
    (s.emEoDelete e destroyOk).1.Closed strict := by
  have hst : Changes quietLimits s (s.eoDeleteQueueAll e destroyOk).1 :=
    removeAll_changes hinv true destroyOk
  have hquiet := Changes.isQuiet rfl hinv hst
  have hclosed := h.quiet hquiet
  simp only [State.emEoDelete]
  split
  · exact h
  split
  · exact h
  rename_i hstate
  split
  · exact hclosed
  · rename_i hok
    have hnil := eoDeleteQueueAll_ok (not_not.1 hok)
    refine hclosed.setEo_of_state ?_ ?_ fun _ _ q hq => ?_
    · rw [(hquiet.eo e).2]
      intro hc
      simp [hc, EoState.acceptsDelete] at hstate
    · rw [(hquiet.eo e).2]
      intro hc
      simp [hc, EoState.acceptsDelete] at hstate
    · rw [hnil] at hq
      cases hq

theorem Closed.eoAddQueueEscope (h : s.Closed strict) (hinv : s.Inv) (notifTblOk notifsOk : Bool) :
    (s.eoAddQueueEscope e q notifTblOk notifsOk).1.Closed strict := by
  simp only [State.eoAddQueueEscope]
  split
  · exact h
  rename_i halloc
  split
  · exact h
  rename_i htype
  split
  · exact h
  by_cases hq : (s.tbl.elem q).state = .init
  · simp only [Bool.or_eq_true, Bool.not_eq_true', not_or, Bool.not_eq_false] at halloc htype
    have hst : Changes quietLimits s (s.eoAddQueue e q).1 :=
      .single (.addQueue halloc.1 halloc.2 htype hq)
    have hadd := h.quiet (Changes.isQuiet rfl hinv hst)
    have hbound : ((s.eoAddQueue e q).1.binding q).eoElem = some e := by
      rw [eoAddQueue_ok hq]
      simp
    have htype' : ofEo ((s.eoAddQueue e q).1.tbl.elem q).type = true := by
      rw [eoAddQueue_ok hq]
      simpa using htype
    have henable : ((s.eoAddQueue e q).1.eoElem e).state = .running →
        ((s.eoAddQueue e q).1.queueEnable q).1.Closed strict := by
      refine fun hrun => hadd.queueEnable (hinv.changes hst) htype' fun _ d hd => ?_
      rw [Option.some.inj (hd.symm.trans hbound)]
      exact hrun
    split
    · exact hadd
    split
    · rename_i hrun
      split
      · exact henable hrun
      split
      · exact henable hrun
      · exact henable hrun
    · split
      · exact hadd
      exact hadd
  · rw [eoAddQueue_failed hq]
    exact h

omit [DecidableEq ι] [DecidableEq γ] [DecidableEq α] in
theorem Closed.emEoStart (h : s.Closed strict) (sync notifTblOk stashOk : Bool) :
    (s.emEoStart e sync notifTblOk stashOk).1.Closed strict := by
  simp only [State.emEoStart]
  split
  · exact h
  rename_i halloc
  split
  · exact h
  rename_i hstate
  split
  · exact h
  have hcreated : (s.eoElem e).state = .created := by
    cases hs : (s.eoElem e).state <;> simp_all [EoState.acceptsStart]
  have hbut : s.ClosedBut e strict := h.but_of_state (by simp [hcreated]) (by simp [hcreated])
  have hbind : strict = true → ∀ q ∈ (s.eoElem e).queueList, (s.tbl.elem q).state = .bind :=
    fun hstrict => h.queues hstrict e (by simp [hcreated])
  have hstarting : (s.setEoState e .starting).ClosedBut e strict := hbut.setEo _
  split
  · refine ClosedBut.close (hstarting.setEo _) fun hstrict _ => ?_
    simpa [State.setEoState, State.setEo] using hbind hstrict
  · refine hstarting.add (p := .startFunc e sync) rfl ?_ ?_ ?_
    · simpa [State.setEoState, State.setEo] using halloc
    · simp [State.setEoState, State.setEo]
    · simpa [State.setEoState, State.setEo] using hbind

/-- The EO runs, or its start fails when it has no queues. -/
theorem ClosedBut.startRunning (h : s.ClosedBut e strict) (hinv : s.Inv)
    (he : (s.eoElem e).allocated = true) {sync notifsOk : Bool}
    (hnotifs : strict = true → sync = false → notifsOk = false → (s.eoElem e).queueList = []) :
    (s.startRunning e sync notifsOk).1.Closed strict := by
  obtain ⟨hok,hst⟩ := queueEnableAll_switched hinv he
  have hbut := h.switched hinv.linked hst
  simp only [State.startRunning, hok, ne_eq, not_true_eq_false, if_false]
  split
  · rename_i hc
    simp only [Bool.and_eq_true, Bool.not_eq_true'] at hc
    refine ClosedBut.close (ClosedBut.setEo (hbut.setEo _) _) fun hstrict _ q hq => ?_
    simp [State.setEoState, State.setEo, hst.eoElem, hnotifs hstrict hc.1 hc.2] at hq
  · refine ClosedBut.close (hbut.setEo _) fun _ hrun => absurd ?_ hrun
    simp [State.setEoState, State.setEo]

theorem ClosedBut.startFuncDone (h : s.ClosedBut e strict) (hinv : s.Inv)
    (he : (s.eoElem e).allocated = true) (hstate : (s.eoElem e).state = .starting)
    (hbind : strict = true → ∀ q ∈ (s.eoElem e).queueList, (s.tbl.elem q).state = .bind)
    {sync startOk : Bool} {reqsSent : ReqsSent} {notifsOk : Bool}
    (hnotifs : strict = true → sync = false → startOk = true → notifsOk = false →
      (s.eoElem e).startLocalFunc = none ∨ reqsSent = .zero → (s.eoElem e).queueList = []) :
    (s.startFuncDone e sync startOk reqsSent notifsOk).1.Closed strict := by
  have herror : (s.setEoState e .error).Closed strict := by
    refine ClosedBut.close (h.setEo _) fun hstrict _ => ?_
    simpa [State.setEoState, State.setEo] using hbind hstrict
  unfold State.startFuncDone
  split
  · exact herror
  rename_i hok
  simp only [Bool.not_eq_true', Bool.not_eq_false] at hok
  split
  · cases reqsSent with
    | failed => exact herror
    | zero => exact h.startRunning hinv he fun ht hs hn => hnotifs ht hs hok hn (.inr rfl)
    | some => exact h.add (p := .startLocal e) rfl he hstate hbind
  · rename_i hlocal
    refine h.startRunning hinv he fun ht hs hn => hnotifs ht hs hok hn (.inl ?_)
    simpa using hlocal

theorem ClosedBut.eoStartDoneCallback (h : s.ClosedBut e strict) (hinv : s.Inv)
    (he : (s.eoElem e).allocated = true)
    (hbind : strict = true → ∀ q ∈ (s.eoElem e).queueList, (s.tbl.elem q).state = .bind)
    (localOk : Bool) :
    (s.eoStartDoneCallback e localOk).Closed strict := by
  obtain ⟨hok,hst⟩ := queueEnableAll_switched hinv he
  unfold State.eoStartDoneCallback
  split
  · rw [if_pos hok]
    refine ClosedBut.close ((h.switched hinv.linked hst).setEo _) fun _ hrun => absurd ?_ hrun
    simp [State.setEoState, State.setEo]
  · exact h.close fun hstrict _ => hbind hstrict

theorem Closed.emEoStop (h : s.Closed strict) (hinv : s.Inv) (sync notifTblOk : Bool) (reqsSent : ReqsSent) :
    (s.emEoStop e sync notifTblOk reqsSent).1.Closed strict := by
  simp only [State.emEoStop]
  split
  · exact h
  rename_i halloc
  split
  · exact h
  rename_i hstate
  split
  · exact h
  have hrunning : (s.eoElem e).state = .running := by
    cases hs : (s.eoElem e).state <;> simp_all [EoState.acceptsStop]
  have hbut : (s.setEoState e .stopping).ClosedBut e strict :=
    (h.but_of_state (by simp [hrunning]) (by simp [hrunning])).setEo _
  have hinv' : (s.setEoState e .stopping).Inv :=
    hinv.changes (setEoState_changes (c := {}) rfl s e .stopping)
  have halloc' : ((s.setEoState e .stopping).eoElem e).allocated = true := by
    simpa [State.setEoState, State.setEo] using halloc
  obtain ⟨hok,hst⟩ := queueDisableAll_switched hinv' halloc'
  have hdisabled := hbut.switched hinv'.linked hst
  have hbind : ∀ q ∈ (((s.setEoState e .stopping).queueDisableAll e).1.eoElem e).queueList,
      (((s.setEoState e .stopping).queueDisableAll e).1.tbl.elem q).state = .bind := by
    rw [hst.eoElem]
    exact hst.inList
  rw [if_neg fun hc => hc.2 hok]
  cases reqsSent with
  | failed =>
    refine ClosedBut.close (hdisabled.setEo _) fun _ _ => ?_
    simpa [State.setEoState, State.setEo] using hbind
  | zero =>
    refine ClosedBut.close (hdisabled.setEo _) fun _ _ => ?_
    simpa [State.eoStopDone, State.setEoState, State.setEo] using hbind
  | some =>
    refine hdisabled.add (p := .stopLocal e) rfl ?_ ?_ fun _ => hbind
    · rw [hst.eoElem]
      exact halloc'
    · rw [hst.eoElem]
      simp [State.setEoState, State.setEo]

theorem Closed.done {p : Pending ι ε} {ok : Bool} {reqsSent : ReqsSent} {notifsOk : Bool}
    {destroyOk : ι → Bool} (h : s.Closed strict) (hinv : s.Inv) (hmem : p ∈ s.pending)
    (hno : strict = true → ¬s.EnablesStopped (.done p ok reqsSent notifsOk destroyOk)) :
    (s.done p ok reqsSent notifsOk destroyOk).Closed strict := by
  have hinv' : Inv { s with pending := s.pending.erase p } :=
    hinv.changes (.single (.pending (c := {}) s _ (fun h => by cases h)))
  -- the call starts or stops an EO
  have hphase : ∀ e state, p.phase = some (e,state) → state ≠ .running →
      ClosedBut { s with pending := s.pending.erase p } e strict ∧ (s.eoElem e).allocated = true ∧
        (s.eoElem e).state = state ∧
        (strict = true → ∀ q ∈ (s.eoElem e).queueList, (s.tbl.elem q).state = .bind) := by
    intro e state hp hrun
    obtain ⟨hbut,halloc,hstate⟩ := h.erase hmem hp
    exact ⟨hbut,halloc,hstate,fun hstrict => h.queues hstrict e (hstate ▸ hrun)⟩
  -- or it does not
  have hquiet : p.phase = none → Closed { s with pending := s.pending.erase p } strict := by
    intro hp
    have hperm := (List.perm_cons_erase hmem).filterMap Pending.phase
    rw [List.filterMap_cons_none hp] at hperm
    exact ⟨h.queues,fun p' hp' => h.phases p' (hperm.mem_iff.2 hp'),
      (hperm.map Prod.fst).nodup_iff.1 h.nodup⟩
  cases p with
  | startFunc e sync =>
    obtain ⟨hbut,halloc,hstate,hbind⟩ := hphase e .starting rfl (by decide)
    refine hbut.startFuncDone hinv' halloc hstate hbind fun hstrict hs hok hn hlocal => ?_
    subst hs hok hn
    exact Decidable.by_contra fun hne => hno hstrict ⟨hlocal,hne⟩
  | startLocal e =>
    obtain ⟨hbut,halloc,-,hbind⟩ := hphase e .starting rfl (by decide)
    exact hbut.eoStartDoneCallback hinv' halloc hbind ok
  | stopLocal e =>
    obtain ⟨hbut,-,-,hbind⟩ := hphase e .stopping rfl (by decide)
    refine ClosedBut.close (hbut.setEo _) fun hstrict _ => ?_
    simpa [State.done, State.eoStopDone, State.setEoState, State.setEo] using hbind hstrict
  | removeQueue e q =>
    have hst : Changes quietLimits { s with pending := s.pending.erase (.removeQueue e q) }
        (State.eoRemQueue { s with pending := s.pending.erase (.removeQueue e q) } e q).1 :=
      eoRemQueue_changes (fun h => by cases h)
    exact (hquiet rfl).quiet (Changes.isQuiet rfl hinv' hst)
  | removeQueueAll e deleteQueues =>
    have hst : Changes quietLimits { s with pending := s.pending.erase (.removeQueueAll e deleteQueues) }
        (State.removeAll { s with pending := s.pending.erase (.removeQueueAll e deleteQueues) } e
          deleteQueues destroyOk).1 :=
      removeAll_changes hinv' deleteQueues destroyOk
    exact (hquiet rfl).quiet (Changes.isQuiet rfl hinv' hst)

theorem Closed.step {l : Label ι γ α ε ρ} (h : s.Closed strict) (hinv : s.Inv) (hst : s.step l = some t)
    (hno : strict = true → ¬s.EnablesStopped l) : t.Closed strict := by
  have hquiet : ∀ {u : State ι γ α ε ρ}, Changes quietLimits s u → u.Closed strict := fun hu =>
    h.quiet (Changes.isQuiet rfl hinv hu)
  cases l with
  | createQueue q p =>
    simp only [State.step] at hst
    split at hst <;> cases hst
    cases hcheck : s.tbl.queueCreateCheckArgs p with
    | true => exact hquiet (.single (.createQueue ‹_› hcheck))
    | false =>
      simp only [queueCreate, hcheck]
      exact h
  | deleteQueue q destroyOk =>
    cases hst
    exact hquiet (.single (.deleteQueue s q destroyOk))
  | pktinQueue q type g contextSetOk =>
    simp only [State.step] at hst
    split at hst <;> cases hst
    rename_i hc
    exact hquiet (.single (.pktinQueue contextSetOk hc.1 hc.2.1 hc.2.2))
  | createGroup g =>
    obtain ⟨tbl,htbl,rfl⟩ := Option.map_eq_some_iff.1 hst
    exact hquiet (.single (.createGroup htbl))
  | deleteGroup g =>
    obtain ⟨tbl,htbl,rfl⟩ := Option.map_eq_some_iff.1 hst
    exact hquiet (.single (.deleteGroup htbl (fun h => by cases h)))
  | createEo e p =>
    simp only [State.step] at hst
    split at hst <;> cases hst
    have he := Bool.eq_false_of_not_eq_true ‹_›
    simp only [eoCreate]
    split
    · exact h
    split
    · exact h
    split
    · exact h
    · exact h.create he p (by simp [initEo, State.setEo])
  | createEoMultircv e p maxEvents =>
    simp only [State.step] at hst
    split at hst <;> cases hst
    have he := Bool.eq_false_of_not_eq_true ‹_›
    simp only [emEoCreateMultircv]
    split
    · exact h
    split
    · exact h
    · exact h.create he p (by simp [initEo, State.setEo])
  | deleteEo e destroyOk =>
    cases hst
    exact h.emEoDelete hinv destroyOk
  | addQueue e q notifTblOk notifsOk =>
    cases hst
    exact h.eoAddQueueEscope hinv notifTblOk notifsOk
  | removeQueue e q notifTblOk reqsSent =>
    cases hst
    exact hquiet (emEoRemoveQueue_changes notifTblOk reqsSent)
  | removeQueueAll e deleteQueues notifTblOk reqsSent destroyOk =>
    cases hst
    exact hquiet (emEoRemoveQueueAll_changes hinv deleteQueues notifTblOk reqsSent destroyOk)
  | start e sync notifTblOk stashOk =>
    cases hst
    exact h.emEoStart sync notifTblOk stashOk
  | stop e sync notifTblOk reqsSent =>
    cases hst
    exact h.emEoStop hinv sync notifTblOk reqsSent
  | done p ok reqsSent notifsOk destroyOk =>
    simp only [State.step] at hst
    split at hst <;> cases hst
    exact h.done hinv ‹_› hno
  | enable q =>
    simp only [State.step] at hst
    split at hst <;> cases hst
    exact h.queueEnable hinv ‹_› fun hstrict e he =>
      Decidable.by_contra fun hrun => hno hstrict ⟨e,he,hrun⟩
  | disable q =>
    simp only [State.step] at hst
    split at hst <;> cases hst
    exact hquiet (queueDisable_changes ‹_›)
  | enableAll e =>
    cases hst
    by_cases halloc : (s.eoElem e).allocated = true
    · obtain ⟨-,hst⟩ := queueEnableAll_switched hinv halloc
      by_cases hrun : (s.eoElem e).state = .running
      · have hbut : s.ClosedBut e strict := h.but_of_state (by simp [hrun]) (by simp [hrun])
        refine (hbut.switched hinv.linked hst).close fun _ hc => absurd ?_ hc
        rw [hst.eoElem, hrun]
      · refine ⟨fun hstrict d hd q hq => ?_,?_,?_⟩
        · have hnil : (s.eoElem e).queueList = [] :=
            Decidable.by_contra fun hne => hno hstrict ⟨hrun,hne⟩
          rw [hst.eoElem] at hd hq
          rw [hst.other q (hinv.linked.active_of_mem hq).1 (hnil ▸ List.not_mem_nil)]
          exact h.queues hstrict d hd q hq
        · rw [hst.pending, hst.eoElem]
          exact h.phases
        · rw [hst.pending]
          exact h.nodup
    · simp only [queueEnableAll, Bool.eq_false_of_not_eq_true halloc]
      exact h
  | disableAll e =>
    cases hst
    exact hquiet (queueDisableAll_changes hinv)

/-- Steps after which an EO that accepts its delete may not be deleted: queues are enabled
without an EO that runs, or the queue group of a queue is deleted. -/
def BlocksDelete (s : State ι γ α ε ρ) (l : Label ι γ α ε ρ) : Prop :=
  s.EnablesStopped l ∨ s.DeletesUsedGroup l

instance [Fintype ε] (s : State ι γ α ε ρ) (l : Label ι γ α ε ρ) : Decidable (s.EnablesStopped l) :=
  match l with
  | .done (.startFunc _ false) true _ false _ => inferInstanceAs (Decidable (_ ∧ _))
  | .enable q => inferInstanceAs (Decidable (∃ e, (s.binding q).eoElem = some e ∧ _))
  | .enableAll _ => inferInstanceAs (Decidable (_ ∧ _))
  | .done (.startFunc _ true) .. | .done (.startFunc _ false) false .. | .done (.startFunc _ false) true _ true _
  | .done (.startLocal _) .. | .done (.stopLocal _) .. | .done (.removeQueue ..) ..
  | .done (.removeQueueAll ..) .. | .createQueue .. | .deleteQueue .. | .pktinQueue .. | .createGroup _
  | .deleteGroup _ | .createEo .. | .createEoMultircv .. | .deleteEo .. | .addQueue .. | .removeQueue ..
  | .removeQueueAll .. | .start .. | .stop .. | .disable _ | .disableAll _ => inferInstanceAs (Decidable False)

instance [Fintype ι] [Fintype ε] (s : State ι γ α ε ρ) (l : Label ι γ α ε ρ) :
    Decidable (s.BlocksDelete l) :=
  inferInstanceAs (Decidable (_ ∨ _))

omit [DecidableEq ι] [DecidableEq γ] [DecidableEq α] [DecidableEq ε] in
theorem Initial.closed (hi : Initial s) : s.Closed strict := by
  refine ⟨fun _ e _ q hq => ?_,?_,?_⟩
  · rw [hi.eos] at hq
    cases hq
  · rw [hi.pending]
    exact nofun
  · rw [hi.pending]
    exact List.nodup_nil

theorem reachable_closed
    (h : (machine ι γ α ε ρ).ReachableVia (fun s l _ => ¬s.BlocksDelete l) s) :
    s.Inv ∧ s.Closed true ∧ s.Grouped := by
  refine h.invariant (I := fun s => s.Inv ∧ s.Closed true ∧ s.Grouped) (fun s hi => ?_)
    fun s l t hs hst hno => ?_
  · refine ⟨⟨Initial.linked hi,Initial.family hi⟩,Initial.closed hi,fun q hq => ?_⟩
    cases (hi.tbl.elem q).symm.trans hq
  · obtain ⟨hinv,hclosed,hgrouped⟩ := hs
    have hchanges : Changes { keep := true } s t :=
      step_changes { keep := true } hinv hst nofun (fun _ hc => hno (.inr hc)) rfl nofun
    exact ⟨hinv.changes hchanges,hclosed.step hinv hst fun _ hc => hno (.inl hc),
      hgrouped.changes rfl hchanges⟩

omit [DecidableEq ι] [DecidableEq γ] [DecidableEq α] [DecidableEq ε] in
theorem Grouped.deletable {destroyOk : ι → Bool} (h : s.Grouped) (hinv : s.Inv)
    (hq : q ∈ (s.eoElem e).queueList) (hdestroy : destroyOk q = true) : s.Deletable q destroyOk := by
  obtain ⟨htype,hactive⟩ := hinv.linked.active_of_mem hq
  refine ⟨?_,fun _ => hdestroy⟩
  by_cases hlocal : (s.tbl.elem q).type = .local_
  · exact .inl hlocal
  · refine .inr (h q (hinv.linked.allocated hactive) ?_)
    cases ht : (s.tbl.elem q).type <;> rw [ht] at htype hlocal <;> simp_all [ofEo, QueueType.scheduled]

/-- The EO and its queues are deleted. -/
structure EoDeleted (s : State ι γ α ε ρ) (r : State ι γ α ε ρ × Status) (e : ε) : Prop where
  ok : r.2 = .ok
  allocated : (r.1.eoElem e).allocated = false
  state : (r.1.eoElem e).state = .undef
  queueList : (r.1.eoElem e).queueList = []
  queues : ∀ q ∈ (s.eoElem e).queueList, (r.1.tbl.elem q).allocated = false

theorem Closed.eoDeleted {destroyOk : ι → Bool} (hinv : s.Inv) (hclosed : s.Closed true)
    (hgrouped : s.Grouped) (he : (s.eoElem e).allocated = true)
    (hstate : (s.eoElem e).state = .created ∨ (s.eoElem e).state = .error)
    (hdestroy : ∀ q, destroyOk q = true) : s.EoDeleted (s.emEoDelete e destroyOk) e := by
  have hbind : ∀ q ∈ (s.eoElem e).queueList, (s.tbl.elem q).state = .bind := by
    refine hclosed.queues rfl e ?_
    rcases hstate with hstate | hstate <;> rw [hstate] <;> exact nofun
  have hok := (eoDeleteQueueAll_ok_iff hinv hbind).2 fun q hq => hgrouped.deletable hinv hq (hdestroy q)
  have hdel := eoDeleteQueueAll_deleting hinv hbind hok
  have hnil := (hdel.rest [] (List.append_nil _).symm).1
  have haccept : (s.eoElem e).state.acceptsDelete = true := by
    rcases hstate with hstate | hstate <;> rw [hstate] <;> rfl
  have heq : s.emEoDelete e destroyOk = ((s.eoDeleteQueueAll e destroyOk).1.eoFree e,.ok) := by
    simp [State.emEoDelete, he, haccept, hok]
  rw [heq]
  refine ⟨rfl,?_,?_,?_,hdel.freed⟩
  · simp [eoFree, State.setEo]
  · simp [eoFree, State.setEo]
  · simpa [eoFree, State.setEo] using hnil

/-- An EO that accepts its delete can be deleted, in runs in which queues are enabled with their
EO only and keep their queue group. -/
theorem eo_deletable (h : (machine ι γ α ε ρ).ReachableVia (fun s l _ => ¬s.BlocksDelete l) s)
    (e : ε) (he : (s.eoElem e).allocated = true)
    (hstate : (s.eoElem e).state = .created ∨ (s.eoElem e).state = .error)
    (destroyOk : ι → Bool) (hdestroy : ∀ q, destroyOk q = true) :
    s.EoDeleted (s.emEoDelete e destroyOk) e := by
  obtain ⟨hinv,hclosed,hgrouped⟩ := reachable_closed h
  exact hclosed.eoDeleted hinv hgrouped he hstate hdestroy

end State

/-- An EO with a queue is started. -/
private def started : List (Label (Fin 1) Unit Unit Unit Unit) :=
  [.createGroup (), .createQueue 0 { type := .atomic, queueGroup := some () },
    .createEo () eoParam, .addQueue () 0 true true, .start () false true true]

private def startFailed : Option (State (Fin 1) Unit Unit Unit Unit) :=
  System.exec State.step (fun s l _ => decide (¬s.BlocksDelete l)) emptyState
    (started ++ [.done (.startFunc () false) false .zero true (fun _ => true)])

private theorem startFailed_isSome : startFailed.isSome = true := by decide

private theorem startFailed_reachable :
    (State.machine (Fin 1) Unit Unit Unit Unit).ReachableVia (fun s l _ => ¬s.BlocksDelete l)
      (startFailed.get startFailed_isSome) :=
  System.ReachableVia.exec (fun _ _ _ => of_decide_eq_true) (.start emptyState_initial)
    (Option.some_get startFailed_isSome).symm

theorem eo_deletable_start_failed : ∃ s : State (Fin 1) Unit Unit Unit Unit,
    (s.eoElem ()).state = .error ∧ (s.eoElem ()).queueList = [0] ∧
      s.EoDeleted (s.emEoDelete () fun _ => true) () := by
  refine ⟨_,?_,?_,State.eo_deletable startFailed_reachable () ?_ (.inr ?_) _ fun _ => rfl⟩
  all_goals decide

private theorem notifsFailed_isSome : (System.exec State.step (fun _ _ _ => true) emptyState
    (started ++ [.done (.startFunc () false) true .zero false (fun _ => true)])).isSome = true := by
  decide

/-- The notifications of a start fail after the queues are enabled. -/
theorem failed_notifs_block_delete : ¬∀ s : State (Fin 1) Unit Unit Unit Unit,
    (State.machine (Fin 1) Unit Unit Unit Unit).Reachable s → ∀ e,
      (s.eoElem e).allocated = true →
      (s.eoElem e).state = .created ∨ (s.eoElem e).state = .error →
      ∀ destroyOk : Fin 1 → Bool, (∀ q, destroyOk q = true) →
        s.EoDeleted (s.emEoDelete e destroyOk) e := by
  intro hall
  have hdel := hall _ (System.ReachableVia.exec (fun _ _ _ _ => trivial) (.start emptyState_initial)
    (Option.some_get notifsFailed_isSome).symm) () (by decide) (by decide)
    (fun _ => true) fun _ => rfl
  have hok := hdel.ok
  revert hok
  decide

end EmOdp.EoQueues
