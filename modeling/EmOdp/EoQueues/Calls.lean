import EmOdp.EoQueues.Linked

/-! The operations of EOs and queues as series of changes. -/
namespace EmOdp.EoQueues
open Lib QueueTable
open EoStart (EoState)
variable {ι γ α ε ρ : Type}

namespace State
variable {s t : State ι γ α ε ρ} {e : ε} {q r : ι} {c : Limits}

/-- The invariant of queues and EOs. -/
structure Inv (s : State ι γ α ε ρ) : Prop where
  linked : s.Linked
  family : s.Family

theorem Linked.allocated (h : s.Linked) (hq : Active (s.tbl.elem q).state) :
    (s.tbl.elem q).allocated = true :=
  Bool.eq_true_of_not_eq_false fun hfree => h.not_active_of_free hfree hq

theorem IsParent.of_ofEo (halloc : (s.tbl.elem q).allocated = true)
    (htype : ofEo (s.tbl.elem q).type = true) : s.IsParent q := by
  refine ⟨halloc,fun haggr => ?_⟩
  rw [haggr] at htype
  cases htype

variable [DecidableEq ι] [DecidableEq γ] [DecidableEq α] [DecidableEq ε]

theorem Inv.changes (h : s.Inv) (hst : Changes c s t) : t.Inv := by
  induction hst with
  | refl => exact h
  | tail _ hst ih => exact ⟨ih.linked.change ih.family hst,ih.family.change hst⟩

omit [DecidableEq γ] [DecidableEq α] [DecidableEq ε] in
/-- A queue is enabled or disabled: it is not in an EO, or it is and has the state then. -/
theorem queueStateSet_cases (newState : QueueState) (hnew : Active newState) (q : ι) :
    ¬Active (s.tbl.elem q).state ∧ s.queueStateSet newState q = (s,.badState) ∨
      Active (s.tbl.elem q).state ∧ (s.tbl.elem q).state = newState ∧
        s.queueStateSet newState q = (s,.ok) ∨
      Active (s.tbl.elem q).state ∧ s.queueStateSet newState q = (s.setQueueState q newState,.ok) := by
  unfold queueStateSet
  rcases hnew with rfl | rfl <;> cases hq : (s.tbl.elem q).state <;>
    simp [Active, queueStateChangeCheck, QueueState.code]

theorem queueStateSet_changes {newState : QueueState} (hnew : Active newState)
    (hquiet : c.quiet = true → newState = .bind)
    (halloc : (s.tbl.elem q).allocated = true) (htype : ofEo (s.tbl.elem q).type = true) :
    Changes c s (s.queueStateSet newState q).1 := by
  rcases s.queueStateSet_cases newState hnew q with ⟨-,heq⟩ | ⟨-,-,heq⟩ | ⟨hq,heq⟩
  · rw [heq]
  · rw [heq]
  · rw [heq]
    exact .single (.setState halloc htype hq hnew hquiet)

omit [DecidableEq γ] [DecidableEq α] [DecidableEq ε] in
theorem queueStateSet_eoElem (newState : QueueState) (q : ι) :
    (s.queueStateSet newState q).1.eoElem = s.eoElem := by
  simp only [queueStateSet]
  split
  · rfl
  · split <;> rfl

omit [DecidableEq γ] [DecidableEq α] [DecidableEq ε] in
theorem queueStateSet_binding (newState : QueueState) (q : ι) :
    (s.queueStateSet newState q).1.binding = s.binding := by
  simp only [queueStateSet]
  split
  · rfl
  · split <;> rfl

omit [DecidableEq γ] [DecidableEq α] [DecidableEq ε] in
theorem queueDisable_binding (q : ι) : (s.queueDisable q).1.binding = s.binding := by
  unfold queueDisable
  split
  · rfl
  · exact queueStateSet_binding _ _

theorem queueStateChangeAll_changes {newState : QueueState} (h : s.Inv) (hnew : Active newState)
    (hquiet : c.quiet = true → newState = .bind) : Changes c s (s.queueStateChangeAll e newState).1 := by
  refine (forEach_steps (I := fun t => t.Inv ∧ t.eoElem = s.eoElem) ?_ ⟨h,rfl⟩).1
  rintro t ⟨ht,heo⟩ q hq
  rw [← heo] at hq
  obtain ⟨htype,hactive⟩ := (ht.linked.bound q).1 ⟨e,(ht.linked.mem e q).1 hq⟩
  have hst : Changes c t (t.queueStateSet newState q).1 :=
    queueStateSet_changes hnew hquiet (ht.linked.allocated hactive) htype
  exact ⟨hst,ht.changes hst,(queueStateSet_eoElem newState q).trans heo⟩

theorem queueEnable_changes (hquiet : c.quiet = false) (htype : ofEo (s.tbl.elem q).type = true) :
    Changes c s (s.queueEnable q).1 := by
  unfold queueEnable
  split
  · exact .refl
  · exact queueStateSet_changes (.inr rfl) (fun hc => nomatch hquiet.symm.trans hc) (by simp_all) htype

theorem queueDisable_changes (htype : ofEo (s.tbl.elem q).type = true) :
    Changes c s (s.queueDisable q).1 := by
  unfold queueDisable
  split
  · exact .refl
  · exact queueStateSet_changes (.inl rfl) (fun _ => rfl) (by simp_all) htype

theorem queueEnableAll_changes (h : s.Inv) (hquiet : c.quiet = false) : Changes c s (s.queueEnableAll e).1 := by
  unfold queueEnableAll
  split
  · exact .refl
  · exact queueStateChangeAll_changes h (.inr rfl) fun hc => nomatch hquiet.symm.trans hc

theorem queueDisableAll_changes (h : s.Inv) : Changes c s (s.queueDisableAll e).1 := by
  unfold queueDisableAll
  split
  · exact .refl
  · exact queueStateChangeAll_changes h (.inl rfl) fun _ => rfl

theorem eoRemQueue_changes (hown : c.own = true → (s.tbl.elem q).state = .bind →
    (s.binding q).eoElem = some e) : Changes c s (s.eoRemQueue e q).1 := by
  by_cases hq : (s.tbl.elem q).state = .bind
  · exact .single (.removeQueue hq fun ho => hown ho hq)
  · rw [eoRemQueue_failed hq]

/-- The queues of the list are bound to the EO if they are bound. -/
def BoundTo (s : State ι γ α ε ρ) (e : ε) (xs : List ι) : Prop :=
  ∀ q ∈ xs, ofEo (s.tbl.elem q).type = true ∧
    (Active (s.tbl.elem q).state → (s.binding q).eoElem = some e)

omit [DecidableEq ι] [DecidableEq γ] [DecidableEq α] [DecidableEq ε] in
theorem Linked.boundTo (h : s.Linked) (e : ε) : s.BoundTo e (s.eoElem e).queueList := by
  intro q hq
  have helem := (h.mem e q).1 hq
  exact ⟨((h.bound q).1 ⟨e,helem⟩).1,fun _ => helem⟩

omit [DecidableEq γ] [DecidableEq α] in
theorem BoundTo.eoRemQueue {xs : List ι} (h : s.BoundTo e xs) (q : ι) :
    (s.eoRemQueue e q).1.BoundTo e xs := by
  intro r hr
  by_cases hq : (s.tbl.elem q).state = .bind
  · rw [eoRemQueue_ok hq]
    by_cases hrq : r = q
    · subst hrq
      simp [(h r hr).1, Active]
    · simpa [hrq] using h r hr
  · rw [eoRemQueue_failed hq]
    exact h r hr

omit [DecidableEq ε] in
/-- A delete frees a queue or leaves its state. -/
theorem queueDelete_state (hr : ofEo (s.tbl.elem r).type = true) (destroyOk : ι → Bool) :
    ((s.queueDelete q destroyOk).1.tbl.elem r).type = (s.tbl.elem r).type ∧
      (((s.queueDelete q destroyOk).1.tbl.elem r).state = (s.tbl.elem r).state ∨
        ((s.queueDelete q destroyOk).1.tbl.elem r).state = .invalid) := by
  rcases s.tbl.queueDelete_deleted q (destroyOk q) with ⟨-,argsEvent,helem⟩ | ⟨-,-,hdel⟩
  · have he := congrFun helem r
    change (s.queueDelete q destroyOk).1.tbl.elem r = _ at he
    rw [he]
    by_cases hrq : r = q
    · rw [hrq, Function.update_self]
      exact ⟨rfl,.inl rfl⟩
    · rw [Function.update_of_ne hrq]
      exact ⟨rfl,.inl rfl⟩
  · by_cases hrq : r = q
    · subst hrq
      exact ⟨hdel.type,.inr hdel.state⟩
    · rcases hdel.aggrOrOther r hrq with hsame | ⟨-,haggr⟩
      · exact ⟨congrArg _ hsame,.inl (congrArg _ hsame)⟩
      · rw [haggr] at hr
        cases hr

omit [DecidableEq ε] in
theorem BoundTo.queueDelete {xs : List ι} (h : s.BoundTo e xs) (q : ι) (destroyOk : ι → Bool) :
    (s.queueDelete q destroyOk).1.BoundTo e xs := by
  intro r hr
  obtain ⟨htype,helem⟩ := h r hr
  obtain ⟨htype',hstate⟩ := queueDelete_state (q := q) htype destroyOk
  refine ⟨htype'.symm ▸ htype,fun hactive => helem ?_⟩
  rcases hstate with hsame | hinvalid
  · exact hsame ▸ hactive
  · rw [hinvalid] at hactive
    rcases hactive with hc | hc <;> cases hc

theorem eoRemDeleteQueue_changes (hown : c.own = true → (s.tbl.elem q).state = .bind →
    (s.binding q).eoElem = some e) (destroyOk : ι → Bool) :
    Changes c s (s.eoRemDeleteQueue e q destroyOk).1 := by
  simp only [eoRemDeleteQueue]
  split
  · exact eoRemQueue_changes hown
  · exact (eoRemQueue_changes hown).tail (.deleteQueue _ q destroyOk)

theorem removeAll_changes (h : s.Inv) (deleteQueues : Bool) (destroyOk : ι → Bool) :
    Changes c s (s.removeAll e deleteQueues destroyOk).1 := by
  have hbound : ∀ t : State ι γ α ε ρ, t.BoundTo e (s.eoElem e).queueList →
      ∀ q ∈ (s.eoElem e).queueList, c.own = true → (t.tbl.elem q).state = .bind →
        (t.binding q).eoElem = some e := by
    intro t ht q hq _ hstate
    exact (ht q hq).2 (.inl hstate)
  unfold removeAll
  split
  · refine (forEach_steps (I := fun t => t.BoundTo e (s.eoElem e).queueList) (fun t ht q hq => ?_)
      (h.linked.boundTo e)).1
    refine ⟨eoRemDeleteQueue_changes (hbound t ht q hq) destroyOk,?_⟩
    simp only [eoRemDeleteQueue]
    split
    · exact ht.eoRemQueue q
    · exact (ht.eoRemQueue q).queueDelete q destroyOk
  · refine (forEach_steps (I := fun t => t.BoundTo e (s.eoElem e).queueList) (fun t ht q hq => ?_)
      (h.linked.boundTo e)).1
    exact ⟨eoRemQueue_changes (hbound t ht q hq),ht.eoRemQueue q⟩

theorem setEoState_changes (hquiet : c.quiet = false) (s : State ι γ α ε ρ) (e : ε)
    (state : EoState) : Changes c s (s.setEoState e state) :=
  have hsame : (s.eoElem e).SameFields { s.eoElem e with state } := ⟨rfl,rfl,rfl,rfl,rfl,rfl⟩
  .single (.setEo rfl (.inr rfl) (fun _ => hsame) hquiet fun _ => hsame)

theorem eoRemDeleteQueue_eoElem (e : ε) (q : ι) (destroyOk : ι → Bool) :
    (s.eoRemDeleteQueue e q destroyOk).1.eoElem = (s.eoRemQueue e q).1.eoElem := by
  simp only [eoRemDeleteQueue]
  split
  · rfl
  · rfl

/-- `eo_delete_queue_all` has removed all queues when it succeeds. -/
theorem eoDeleteQueueAll_ok {destroyOk : ι → Bool} (hok : (s.eoDeleteQueueAll e destroyOk).2 = .ok) :
    ((s.eoDeleteQueueAll e destroyOk).1.eoElem e).queueList = [] := by
  have hloop := forEach_good (I := fun ys t => ∀ zs, (s.eoElem e).queueList = ys ++ zs →
    (t.eoElem e).queueList = zs) (fun zs hzs => hzs) ?_ hok
  · exact hloop [] (List.append_nil _).symm
  · intro ys y zs t hxs ht hy zs' hzs'
    have hlist := ht (y :: zs) hxs
    rw [hxs, ← List.singleton_append, ← List.append_assoc] at hzs'
    rw [← List.append_cancel_left hzs', eoRemDeleteQueue_eoElem]
    by_cases hq : (t.tbl.elem y).state = .bind
    · rw [eoRemQueue_ok hq]
      simp [hlist]
    · simp [eoRemDeleteQueue, eoRemQueue_failed hq] at hy

theorem emEoDelete_changes (hquiet : c.quiet = false) (hfixed : c.fixed = false) (h : s.Inv)
    (destroyOk : ι → Bool) :
    Changes c s (s.emEoDelete e destroyOk).1 := by
  have hdel : Changes c s (s.eoDeleteQueueAll e destroyOk).1 :=
    removeAll_changes h true destroyOk
  simp only [emEoDelete]
  split
  · exact .refl
  split
  · exact .refl
  split
  · exact hdel
  · rename_i hok
    have hnil := eoDeleteQueueAll_ok (not_not.1 hok)
    exact hdel.tail (.setEo rfl (.inr rfl) (fun hne => absurd hnil hne) hquiet fun hc =>
      absurd (hfixed.symm.trans hc) Bool.false_ne_true)

/-- A new EO has no queues. -/
theorem initEo_changes {x : EoElem ι ρ} (hquiet : c.quiet = false) (hfixed : c.fixed = false)
    (h : s.Inv) (he : (s.eoElem e).allocated = false) (p : EoParam ρ) (hx : x.queueList = [] ∧ x.numQueues = 0) :
    Changes c s ((s.initEo e p).setEo e x) := by
  have hnil : (s.eoElem e).queueList = [] := by
    refine Decidable.by_contra fun hne => ?_
    cases he.symm.trans (h.linked.eo e hne)
  have hinit : ((s.initEo e p).eoElem e).queueList = [] := by
    simp [initEo, State.setEo]
  have hnot {P : Prop} (hc : c.fixed = true) : P := absurd (hfixed.symm.trans hc) Bool.false_ne_true
  refine .tail (.single (.setEo hnil.symm (.inl rfl) (fun hne => absurd rfl hne) hquiet hnot))
    (.setEo (hx.1.trans hinit.symm) (.inl ?_) (fun hne => absurd hx.1 hne) hquiet hnot)
  rw [hx.1, hx.2]
  rfl

theorem eoCreate_changes (hquiet : c.quiet = false) (hfixed : c.fixed = false) (h : s.Inv)
    (he : (s.eoElem e).allocated = false) (p : EoParam ρ) :
    Changes c s (s.eoCreate e p).1 := by
  simp only [eoCreate]
  split
  · exact .refl
  split
  · exact .refl
  split
  · exact .refl
  · refine initEo_changes hquiet hfixed h he p ?_
    simp [initEo, State.setEo]

theorem emEoCreateMultircv_changes (hquiet : c.quiet = false) (hfixed : c.fixed = false) (h : s.Inv)
    (he : (s.eoElem e).allocated = false) (p : EoParam ρ) (maxEvents : BitVec 32) :
    Changes c s (s.emEoCreateMultircv e p maxEvents).1 := by
  simp only [emEoCreateMultircv]
  split
  · exact .refl
  split
  · exact .refl
  · refine initEo_changes hquiet hfixed h he p ?_
    simp [initEo, State.setEo]

theorem eoAddQueueEscope_changes (hquiet : c.quiet = false) (notifTblOk notifsOk : Bool) :
    Changes c s (s.eoAddQueueEscope e q notifTblOk notifsOk).1 := by
  simp only [eoAddQueueEscope]
  split
  · exact .refl
  rename_i halloc
  split
  · exact .refl
  rename_i htype
  split
  · exact .refl
  by_cases hq : (s.tbl.elem q).state = .init
  · simp only [Bool.or_eq_true, Bool.not_eq_true', not_or, Bool.not_eq_false] at halloc htype
    have hadd : Changes c s (s.eoAddQueue e q).1 :=
      .single (.addQueue halloc.1 halloc.2 htype hq)
    have htype' : ofEo ((s.eoAddQueue e q).1.tbl.elem q).type = true := by
      rw [eoAddQueue_ok hq]
      simpa using htype
    have henable : Changes c s ((s.eoAddQueue e q).1.queueEnable q).1 :=
      hadd.trans (queueEnable_changes hquiet htype')
    split
    · exact hadd
    split
    · split
      · exact henable
      split
      · exact henable
      · exact henable
    · split
      · exact hadd
      exact hadd
  · rw [eoAddQueue_failed hq]
    exact .refl

theorem emEoRemoveQueue_changes (notifTblOk : Bool) (reqsSent : ReqsSent) :
    Changes c s (s.emEoRemoveQueue e q notifTblOk reqsSent).1 := by
  simp only [emEoRemoveQueue]
  generalize hr : (if (s.tbl.elem q).state = .ready then s.queueDisable q else (s,.ok)) = r
  split
  · exact .refl
  split
  · exact .refl
  rename_i htype
  simp only [Bool.not_eq_true', Bool.not_eq_false] at htype
  split
  · exact .refl
  split
  · exact .refl
  rename_i helem
  obtain ⟨hst,hbinding⟩ : Changes c s r.1 ∧ r.1.binding = s.binding := by
    rw [← hr]
    split
    · exact ⟨queueDisable_changes htype,queueDisable_binding q⟩
    · exact ⟨.refl,rfl⟩
  split
  · exact hst
  cases reqsSent with
  | failed => exact hst
  | zero =>
    refine hst.trans (eoRemQueue_changes fun _ _ => ?_)
    rw [hbinding]
    exact not_not.1 helem
  | some => exact hst.tail (.pending _ _ fun _ => .append rfl _)

theorem emEoRemoveQueueAll_changes (h : s.Inv) (deleteQueues notifTblOk : Bool) (reqsSent : ReqsSent)
    (destroyOk : ι → Bool) :
    Changes c s (s.emEoRemoveQueueAll e deleteQueues notifTblOk reqsSent destroyOk).1 := by
  have hst : Changes c s (s.queueDisableAll e).1 := queueDisableAll_changes h
  simp only [emEoRemoveQueueAll]
  split
  · exact .refl
  split
  · exact .refl
  split
  · exact hst
  cases reqsSent with
  | failed => exact hst
  | zero => exact hst.trans (removeAll_changes (h.changes hst) deleteQueues destroyOk)
  | some => exact hst.tail (.pending _ _ fun _ => .append rfl _)

theorem emEoStart_changes (hquiet : c.quiet = false) (sync notifTblOk stashOk : Bool) :
    Changes c s (s.emEoStart e sync notifTblOk stashOk).1 := by
  have hst : Changes c s (s.setEoState e .starting) := setEoState_changes hquiet s e _
  simp only [emEoStart]
  split
  · exact .refl
  split
  · exact .refl
  split
  · exact .refl
  split
  · exact hst.trans (setEoState_changes hquiet _ _ _)
  · exact hst.tail (.pending _ _ fun hc => nomatch hquiet.symm.trans hc)

theorem startRunning_changes (hquiet : c.quiet = false) (h : s.Inv) (sync notifsOk : Bool) :
    Changes c s (s.startRunning e sync notifsOk).1 := by
  have hst : Changes c s (s.queueEnableAll e).1 := queueEnableAll_changes h hquiet
  simp only [startRunning]
  split
  · exact hst.trans (setEoState_changes hquiet _ _ _)
  have hrunning : Changes c s ((s.queueEnableAll e).1.setEoState e .running) :=
    hst.trans (setEoState_changes hquiet _ _ _)
  split
  · exact hrunning.trans (setEoState_changes hquiet _ _ _)
  · exact hrunning

theorem startFuncDone_changes (hquiet : c.quiet = false) (h : s.Inv) (sync startOk : Bool) (reqsSent : ReqsSent)
    (notifsOk : Bool) : Changes c s (s.startFuncDone e sync startOk reqsSent notifsOk).1 := by
  unfold startFuncDone
  split
  · exact setEoState_changes hquiet _ _ _
  split
  · cases reqsSent with
    | failed => exact setEoState_changes hquiet _ _ _
    | zero => exact startRunning_changes hquiet h sync notifsOk
    | some => exact .single (.pending _ _ fun hc => nomatch hquiet.symm.trans hc)
  · exact startRunning_changes hquiet h sync notifsOk

theorem eoStartDoneCallback_changes (hquiet : c.quiet = false) (h : s.Inv) (localOk : Bool) :
    Changes c s (s.eoStartDoneCallback e localOk) := by
  have hst : Changes c s (s.queueEnableAll e).1 := queueEnableAll_changes h hquiet
  simp only [eoStartDoneCallback]
  split
  · split
    · exact hst.trans (setEoState_changes hquiet _ _ _)
    · exact hst
  · exact .refl

theorem emEoStop_changes (hquiet : c.quiet = false) (h : s.Inv) (sync notifTblOk : Bool) (reqsSent : ReqsSent) :
    Changes c s (s.emEoStop e sync notifTblOk reqsSent).1 := by
  have hstop : Changes c s (s.setEoState e .stopping) := setEoState_changes hquiet s e _
  have hst : Changes c s ((s.setEoState e .stopping).queueDisableAll e).1 :=
    hstop.trans (queueDisableAll_changes (h.changes hstop))
  simp only [emEoStop]
  split
  · exact .refl
  split
  · exact .refl
  split
  · exact .refl
  split
  · exact hst
  cases reqsSent with
  | failed => exact hst.trans (setEoState_changes hquiet _ _ _)
  | zero => exact hst.trans (setEoState_changes hquiet _ _ _)
  | some => exact hst.tail (.pending _ _ fun hc => nomatch hquiet.symm.trans hc)

/-- The done callback of a removed queue is called when the queue is in another EO. -/
def Foreign (s : State ι γ α ε ρ) : Label ι γ α ε ρ → Prop
  | .done (.removeQueue e q) _ _ _ _ =>
    (s.tbl.elem q).state = .bind ∧ (s.binding q).eoElem ≠ some e
  | _ => False

instance (s : State ι γ α ε ρ) (l : Label ι γ α ε ρ) : Decidable (s.Foreign l) := by
  unfold Foreign
  split <;> infer_instance

theorem done_changes (hquiet : c.quiet = false) (h : s.Inv) (p : Pending ι ε) (ok : Bool)
    (reqsSent : ReqsSent) (notifsOk : Bool) (destroyOk : ι → Bool)
    (hown : c.own = true → ¬s.Foreign (.done p ok reqsSent notifsOk destroyOk)) :
    Changes c s (s.done p ok reqsSent notifsOk destroyOk) := by
  have hp : Changes c s { s with pending := s.pending.erase p } :=
    .single (.pending _ _ fun hc => nomatch hquiet.symm.trans hc)
  have hinv := h.changes hp
  refine hp.trans ?_
  cases p with
  | startFunc e sync => exact startFuncDone_changes hquiet hinv sync ok reqsSent notifsOk
  | startLocal e => exact eoStartDoneCallback_changes hquiet hinv ok
  | stopLocal e => exact setEoState_changes hquiet _ _ _
  | removeQueue e q =>
    refine eoRemQueue_changes fun ho hstate => ?_
    exact Decidable.by_contra fun hne => hown ho ⟨hstate,hne⟩
  | removeQueueAll e deleteQueues => exact removeAll_changes hinv deleteQueues destroyOk

/-- A queue group is deleted that a queue has. -/
def DeletesUsedGroup (s : State ι γ α ε ρ) : Label ι γ α ε ρ → Prop
  | .deleteGroup g => ∃ q, (s.tbl.elem q).allocated = true ∧ (s.tbl.elem q).queueGroup = some g
  | _ => False

instance [Fintype ι] (s : State ι γ α ε ρ) (l : Label ι γ α ε ρ) : Decidable (s.DeletesUsedGroup l) := by
  unfold DeletesUsedGroup
  split <;> infer_instance

/-- An EO is created or deleted. -/
def CreatesOrDeletes : Label ι γ α ε ρ → Prop
  | .createEo .. | .createEoMultircv .. | .deleteEo .. => True
  | _ => False

/-- Every step is made of changes. -/
theorem step_changes (c : Limits) {l : Label ι γ α ε ρ} (h : s.Inv) (hst : s.step l = some t)
    (hown : c.own = true → ¬s.Foreign l) (hkeep : c.keep = true → ¬s.DeletesUsedGroup l)
    (hquiet : c.quiet = false) (hfixed : c.fixed = true → ¬CreatesOrDeletes l) : Changes c s t := by
  have hfree (hl : CreatesOrDeletes l) : c.fixed = false :=
    Bool.eq_false_of_not_eq_true fun hc => hfixed hc hl
  cases l with
  | createQueue q p =>
    simp only [step] at hst
    split at hst <;> cases hst
    cases hcheck : s.tbl.queueCreateCheckArgs p with
    | true => exact .single (.createQueue ‹_› hcheck)
    | false =>
      simp only [queueCreate, hcheck]
      exact .refl
  | deleteQueue q destroyOk =>
    cases hst
    exact .single (.deleteQueue s q destroyOk)
  | pktinQueue q type g contextSetOk =>
    simp only [step] at hst
    split at hst <;> cases hst
    rename_i hc
    exact .single (.pktinQueue contextSetOk hc.1 hc.2.1 hc.2.2)
  | createGroup g =>
    obtain ⟨tbl,htbl,rfl⟩ := Option.map_eq_some_iff.1 hst
    exact .single (.createGroup htbl)
  | deleteGroup g =>
    obtain ⟨tbl,htbl,rfl⟩ := Option.map_eq_some_iff.1 hst
    exact .single (.deleteGroup htbl fun hk q halloc hq => hkeep hk ⟨q,halloc,hq⟩)
  | createEo e p =>
    simp only [step] at hst
    split at hst <;> cases hst
    exact eoCreate_changes hquiet (hfree trivial) h (Bool.eq_false_of_not_eq_true ‹_›) p
  | createEoMultircv e p maxEvents =>
    simp only [step] at hst
    split at hst <;> cases hst
    exact emEoCreateMultircv_changes hquiet (hfree trivial) h (Bool.eq_false_of_not_eq_true ‹_›) p maxEvents
  | deleteEo e destroyOk =>
    cases hst
    exact emEoDelete_changes hquiet (hfree trivial) h destroyOk
  | addQueue e q notifTblOk notifsOk =>
    cases hst
    exact eoAddQueueEscope_changes hquiet notifTblOk notifsOk
  | removeQueue e q notifTblOk reqsSent =>
    cases hst
    exact emEoRemoveQueue_changes notifTblOk reqsSent
  | removeQueueAll e deleteQueues notifTblOk reqsSent destroyOk =>
    cases hst
    exact emEoRemoveQueueAll_changes h deleteQueues notifTblOk reqsSent destroyOk
  | start e sync notifTblOk stashOk =>
    cases hst
    exact emEoStart_changes hquiet sync notifTblOk stashOk
  | stop e sync notifTblOk reqsSent =>
    cases hst
    exact emEoStop_changes hquiet h sync notifTblOk reqsSent
  | done p ok reqsSent notifsOk destroyOk =>
    simp only [step] at hst
    split at hst <;> cases hst
    exact done_changes hquiet h p ok reqsSent notifsOk destroyOk hown
  | enable q =>
    simp only [step] at hst
    split at hst <;> cases hst
    exact queueEnable_changes hquiet ‹_›
  | disable q =>
    simp only [step] at hst
    split at hst <;> cases hst
    exact queueDisable_changes ‹_›
  | enableAll e =>
    cases hst
    exact queueEnableAll_changes h hquiet
  | disableAll e =>
    cases hst
    exact queueDisableAll_changes h

theorem reachable_inv (h : (machine ι γ α ε ρ).Reachable s) : s.Inv := by
  refine h.invariant (I := Inv) (fun _ hi => ⟨Initial.linked hi,Initial.family hi⟩) fun s l t hs hst _ => ?_
  exact hs.changes (step_changes {} hs hst nofun nofun rfl nofun)

end State

/-- The state after initialization -/
def emptyState : State ι γ α ε ρ where
  tbl := emptyTable
  binding _ := {}
  eoElem _ := {}
  pending := []

theorem emptyState_initial : State.Initial (emptyState : State ι γ α ε ρ) :=
  ⟨emptyTable_initial,fun _ => rfl,fun _ => rfl,fun _ => rfl,rfl⟩

/-- The functions of an EO, for the checks of its creation -/
def eoParam : EoParam Unit where
  start := some ()
  stop := some ()
  receive := some ()

end EmOdp.EoQueues
