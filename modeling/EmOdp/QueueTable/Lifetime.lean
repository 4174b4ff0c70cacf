import EmOdp.QueueTable.FailedDelete

/-! The elements of a queue and its aggregator queues after its creation and after its delete. -/
namespace EmOdp.QueueTable
open Lib
variable {ι γ α : Type}

/-- `e` is the element of an aggregator queue of `q`. -/
structure QueueElem.AggrOf (e : QueueElem ι γ α) (q : ι) : Prop where
  allocated : e.allocated = true
  type : e.type = .aggr
  parentQueue : e.parentQueue = some q
  odpQueue : e.odpQueue = true
  aggrQueues : e.aggrQueues = []

/-- The state in which a queue of the type is created. -/
def QueueType.initialState : QueueType → QueueState
  | .unscheduled | .output => .unscheduled
  | _ => .init

/-- The elements after a call of `queue_create`: the queue, if it is there, and its aggregator
queues are new, and no other element is touched. -/
structure Created (f f' : ι → QueueElem ι γ α) (q : ι) (p : Create ι γ α) : Prop where
  type : (f' q).type = p.type
  other : ∀ r, r ≠ q → r ∉ (f' q).aggrQueues → f' r = f r
  aggr : ∀ r ∈ (f' q).aggrQueues, (f r).allocated = false ∧ r ≠ q ∧ (f' r).AggrOf q ∧
    (f' r).state = (f' q).state
  aggrParent : (f' q).aggrQueues ≠ [] → (f' q).odpQueue = true ∧
    (p.type.scheduled = true ∨ p.type = .unscheduled)
  result : ((f' q).allocated = true ∧ (f' q).state = p.type.initialState ∧
      (f' q).queueGroup = if p.type.scheduled then p.queueGroup else none) ∨
    ((f' q).allocated = false ∧ (f' q).state = .invalid ∧ (f' q).aggrQueues = [])

/-- The elements after a delete of `q` that succeeds: the queue and its aggregator queues are
freed. -/
structure Deleted (f f' : ι → QueueElem ι γ α) (q : ι) : Prop where
  type : (f' q).type = (f q).type
  allocated : (f' q).allocated = false
  state : (f' q).state = .invalid
  aggr : ∀ r, r ≠ q → r ∈ (f q).aggrQueues → (f r).AggrOf q →
    f' r = { f r with allocated := false, state := .invalid, parentQueue := none }
  other : ∀ r, r ≠ q → ¬(r ∈ (f q).aggrQueues ∧ (f r).type = .aggr ∧ (f r).parentQueue = some q) →
    f' r = f r
  aggrOrOther : ∀ r, r ≠ q → f' r = f r ∨
    f' r = { f r with allocated := false, state := .invalid, parentQueue := none } ∧ (f r).type = .aggr

namespace State
variable {s t : State ι γ α} {q r : ι} {p : Create ι γ α} [DecidableEq ι]

private theorem created_freed {f : ι → QueueElem ι γ α} {e : QueueElem ι γ α} (htype : e.type = p.type)
    (haggr : e.aggrQueues = []) (halloc : e.allocated = false) (hstate : e.state = .invalid) :
    Created f (Function.update f q e) q p := by
  have hq : Function.update f q e q = e := Function.update_self ..
  constructor
  · rw [hq, htype]
  · exact fun r hr _ => Function.update_of_ne hr _ _
  · rw [hq, haggr]
    exact fun r hr => nomatch hr
  · rw [hq]
    exact fun hne => absurd haggr hne
  · rw [hq]
    exact .inr ⟨halloc,hstate,haggr⟩

private theorem created_plain {f : ι → QueueElem ι γ α} {e : QueueElem ι γ α} (htype : e.type = p.type)
    (haggr : e.aggrQueues = []) (halloc : e.allocated = true)
    (hstate : e.state = p.type.initialState)
    (hgroup : e.queueGroup = if p.type.scheduled then p.queueGroup else none) :
    Created f (Function.update f q e) q p := by
  have hq : Function.update f q e q = e := Function.update_self ..
  constructor
  · rw [hq, htype]
  · exact fun r hr _ => Function.update_of_ne hr _ _
  · rw [hq, haggr]
    exact fun r hr => nomatch hr
  · rw [hq]
    exact fun hne => absurd haggr hne
  · rw [hq]
    exact .inl ⟨halloc,hstate,hgroup⟩

private theorem created_setupAggr {f : ι → QueueElem ι γ α} {aggrQueues : List ι}
    (hs : ∀ r, r ≠ q → s.elem r = f r) (htype : (s.elem q).type = p.type)
    (hfree : ∀ r ∈ aggrQueues, (f r).allocated = false ∧ r ≠ q) (hodp : (s.elem q).odpQueue = true)
    (halloc : (s.elem q).allocated = true) (hstate : (s.elem q).state = p.type.initialState)
    (hgroup : (s.elem q).queueGroup = if p.type.scheduled then p.queueGroup else none)
    (hparent : p.type.scheduled = true ∨ p.type = .unscheduled) :
    Created f (s.setupAggr q aggrQueues).elem q p := by
  have hqmem : q ∉ aggrQueues := fun hc => (hfree q hc).2 rfl
  have hq : (s.setupAggr q aggrQueues).elem q = { s.elem q with aggrQueues } := by
    simp only [setupAggr, if_neg hqmem, if_true]
  constructor
  · rw [hq]
    exact htype
  · intro r hr hmem
    rw [hq] at hmem
    simp only [setupAggr, if_neg hmem, if_neg hr]
    exact hs r hr
  · intro r hr
    rw [hq] at hr ⊢
    refine ⟨(hfree r hr).1,(hfree r hr).2,?_,?_⟩
    · simp only [setupAggr, if_pos hr]
      exact ⟨rfl,rfl,rfl,rfl,rfl⟩
    · simp only [setupAggr, if_pos hr]
  · rw [hq]
    exact fun _ => ⟨hodp,hparent⟩
  · rw [hq]
    exact .inl ⟨halloc,hstate,hgroup⟩

/-- What a setup function leaves of the elements: those of a created queue, or only the queue's
own element has been touched. -/
def SetUp (f f' : ι → QueueElem ι γ α) (q : ι) (p : Create ι γ α) (b : Bool) : Prop :=
  (b = true → Created f f' q p) ∧
    (b = false → ∃ e, f' = Function.update f q e ∧ e.type = p.type ∧ e.aggrQueues = [])

private theorem SetUp.failed {f : ι → QueueElem ι γ α} {e : QueueElem ι γ α} (htype : e.type = p.type)
    (haggr : e.aggrQueues = []) : SetUp f (Function.update f q e) q p false :=
  ⟨fun hb => (nomatch hb),fun _ => ⟨e,rfl,htype,haggr⟩⟩

private theorem setUp_queueSetupOutputArgs {f : ι → QueueElem ι γ α} (htype : p.type = .output)
    (hf : ∀ r, r ≠ q → s.elem r = f r) (he : (s.elem q).type = p.type)
    (haggr : (s.elem q).aggrQueues = []) (halloc : (s.elem q).allocated = true)
    (hstate : (s.elem q).state = .unscheduled) (hgroup : (s.elem q).queueGroup = none) :
    SetUp f (s.queueSetupOutputArgs q p).1.elem q p (s.queueSetupOutputArgs q p).2 := by
  have hs : s.elem = Function.update f q (s.elem q) := by
    funext r
    by_cases hr : r = q
    · rw [hr, Function.update_self]
    · rw [Function.update_of_ne hr, hf r hr]
  generalize s.elem q = e at *
  have hinit : e.state = p.type.initialState := by rw [hstate, htype]; rfl
  have hnone : e.queueGroup = if p.type.scheduled then p.queueGroup else none := by
    rw [hgroup, htype]
    rfl
  simp only [queueSetupOutputArgs, errorDecCnt]
  split
  · split
    · simp only [elem_setElem, hs, Function.update_self, Function.update_idem]
      exact .failed he haggr
    · split
      · simp only [elem_setElem, hs, Function.update_self, Function.update_idem]
        exact .failed he haggr
      · simp only [elem_setElem, hs, Function.update_self, Function.update_idem]
        exact ⟨fun _ => created_plain he haggr halloc hinit hnone,fun h => by cases h⟩
  · split
    · simp only [elem_setElem, hs, Function.update_self, Function.update_idem]
      exact .failed he haggr
    · simp only [elem_setElem, hs, Function.update_self, Function.update_idem]
      exact ⟨fun _ => created_plain he haggr halloc hinit hnone,fun h => by cases h⟩

private theorem setUp_queueSetupOutput {s : State ι γ α} (htype : p.type = .output) :
    SetUp s.elem ((s.queueSetupCommon q p).queueSetupOutput q p).1.elem q p
      ((s.queueSetupCommon q p).queueSetupOutput q p).2 := by
  simp only [queueSetupOutput]
  split
  · exact .failed rfl rfl
  split
  · simp only [errorDecCnt, queueSetupCommon, elem_setElem, Function.update_self, Function.update_idem]
    exact .failed rfl rfl
  unfold takeIdx
  split
  · refine setUp_queueSetupOutputArgs htype (fun r hr => ?_) ?_ ?_ ?_ ?_ ?_
    · simp [queueSetupCommon, hr]
    all_goals simp [queueSetupCommon]
  · refine setUp_queueSetupOutputArgs htype (fun r hr => ?_) ?_ ?_ ?_ ?_ ?_
    · simp [queueSetupCommon, hr]
    all_goals simp [queueSetupCommon]

section
variable [DecidableEq γ]

private theorem setUp_queueSetupScheduled {s : State ι γ α} (htype : p.type.scheduled = true)
    (hfree : ∀ r ∈ p.aggrQueues.getD [], (s.elem r).allocated = false ∧ r ≠ q) :
    SetUp s.elem ((s.queueSetupCommon q p).queueSetupScheduled q p).1.elem q p
      ((s.queueSetupCommon q p).queueSetupScheduled q p).2 := by
  have hstate : p.type.initialState = .init := by
    cases ht : p.type <;> rw [ht] at htype <;> first | rfl | cases htype
  simp only [queueSetupScheduled, queueSetupCommon]
  split
  · exact .failed rfl rfl
  rename_i g hg
  split
  · simp only [elem_setElem, Function.update_self, Function.update_idem]
    exact .failed rfl rfl
  split
  · simp only [elem_setElem, Function.update_self, Function.update_idem]
    exact .failed rfl rfl
  rename_i aggrQueues haggr
  rw [haggr] at hfree
  refine ⟨fun _ => ?_,fun h => by cases h⟩
  refine created_setupAggr (fun r hr => ?_) ?_ hfree ?_ ?_ ?_ ?_ (.inl htype)
  · simp [hr]
  · simp
  · simp
  · simp
  · simp [hstate]
  · simp [htype, hg]

omit [DecidableEq γ] in
private theorem setUp_queueSetupUnscheduled {s : State ι γ α} (htype : p.type = .unscheduled)
    (hfree : ∀ r ∈ p.aggrQueues.getD [], (s.elem r).allocated = false ∧ r ≠ q) :
    SetUp s.elem ((s.queueSetupCommon q p).queueSetupUnscheduled q p).1.elem q p
      ((s.queueSetupCommon q p).queueSetupUnscheduled q p).2 := by
  simp only [queueSetupUnscheduled, queueSetupCommon]
  split
  · simp only [elem_setElem, Function.update_self, Function.update_idem]
    exact .failed rfl rfl
  split
  · simp only [elem_setElem, Function.update_self, Function.update_idem]
    exact .failed rfl rfl
  rename_i aggrQueues haggr
  rw [haggr] at hfree
  refine ⟨fun _ => ?_,fun h => by cases h⟩
  refine created_setupAggr (fun r hr => ?_) ?_ hfree ?_ ?_ ?_ ?_ (.inr htype)
  · simp [hr]
  · simp
  · simp
  · simp
  · simp [htype, QueueType.initialState]
  · simp [htype, QueueType.scheduled]

private theorem setUp_queueSetup {s : State ι γ α} (hcheck : s.queueCreateCheckArgs p = true)
    (hfree : ∀ r ∈ p.aggrQueues.getD [], (s.elem r).allocated = false ∧ r ≠ q) :
    SetUp s.elem (s.queueSetup q p).1.elem q p (s.queueSetup q p).2 := by
  unfold queueSetup
  split
  · exact setUp_queueSetupScheduled (by rw [‹p.type = _›]; rfl) hfree
  · exact setUp_queueSetupScheduled (by rw [‹p.type = _›]; rfl) hfree
  · exact setUp_queueSetupScheduled (by rw [‹p.type = _›]; rfl) hfree
  · exact setUp_queueSetupUnscheduled ‹_› hfree
  · rename_i htype
    refine ⟨fun _ => ?_,fun hb => (nomatch hb)⟩
    simp only [queueSetupLocal, queueSetupCommon, elem_setElem, Function.update_self,
      Function.update_idem]
    refine created_plain rfl rfl rfl ?_ ?_
    · simp [htype, QueueType.initialState]
    · simp [htype, QueueType.scheduled]
  · exact setUp_queueSetupOutput ‹_›
  · rename_i htype
    simp [queueCreateCheckArgs, htype] at hcheck
  · rename_i htype
    simp [queueCreateCheckArgs, htype] at hcheck

theorem queueCreate_created [DecidableEq α] {s : State ι γ α} (h : s.Fresh q p)
    (hcheck : s.queueCreateCheckArgs p = true) : Created s.elem (s.queueCreate q p).1.elem q p := by
  have hsetup := setUp_queueSetup hcheck h.2.1
  rcases s.queueCreate_cases q p with ⟨hno,-⟩ | ⟨t,ht,heq⟩ | ⟨t,-,ht,heq⟩
  · rw [hcheck] at hno
    cases hno
  · rw [ht] at hsetup
    obtain ⟨e,he,htype,haggr⟩ := hsetup.2 rfl
    have he : t.elem = Function.update s.elem q e := he
    rw [heq]
    simp only [queueFree, elem_setElem, he, Function.update_self, Function.update_idem]
    exact created_freed htype haggr rfl rfl
  · rw [ht] at hsetup
    rcases heq with heq | ⟨a,heq⟩
    · rw [heq]
      exact hsetup.1 rfl
    · rw [heq]
      exact hsetup.1 rfl

end

private theorem queueRelease_elem [DecidableEq γ] (h : s.queueRelease q = some t) :
    ∃ argsEvent, t.elem = Function.update s.elem q { s.elem q with argsEvent } := by
  rcases queueRelease_cases h with ⟨-,g,-,-,rfl⟩ | ⟨-,rfl⟩ | ⟨-,rfl⟩
  · refine ⟨(s.elem q).argsEvent,?_⟩
    rw [Function.update_eq_self]
    unfold queueGroupRemQueueList
    split <;> rfl
  · exact ⟨none,rfl⟩
  · exact ⟨(t.elem q).argsEvent,(Function.update_eq_self _ _).symm⟩

private theorem atomicGroupRemoveQueue_elem [DecidableEq α] (s : State ι γ α) (q : ι) :
    ∃ atomicGroup, (s.atomicGroupRemoveQueue q).elem =
      Function.update s.elem q { s.elem q with atomicGroup } := by
  unfold atomicGroupRemoveQueue
  split
  · exact ⟨(s.elem q).atomicGroup,(Function.update_eq_self _ _).symm⟩
  · refine ⟨none,?_⟩
    unfold atomicGroupRemQueueList
    split <;> rfl

/-- `queue_delete` from `odp_queue_destroy` on. -/
private theorem queueDestroy_deleted [DecidableEq α] (destroyOk : Bool) (hq : (s.elem q).type ≠ .aggr) :
    ((s.queueDestroy q destroyOk).2 ≠ .ok ∧ (s.queueDestroy q destroyOk).1 = s) ∨
      ((s.queueDestroy q destroyOk).2 = .ok ∧ Deleted s.elem (s.queueDestroy q destroyOk).1.elem q) := by
  unfold queueDestroy
  split
  · exact .inl ⟨fun hne => (nomatch hne),rfl⟩
  refine .inr ⟨rfl,?_⟩
  obtain ⟨atomicGroup,hatomic⟩ := atomicGroupRemoveQueue_elem
    ((s.setElem q { s.elem q with odpQueue := false }).queueFreeAggrAll q) q
  have hself : ((s.setElem q { s.elem q with odpQueue := false }).queueFreeAggrAll q).elem q =
      { s.elem q with odpQueue := false, aggrQueues := [] } := by
    simp [queueFreeAggrAll, hq]
  have hne : ∀ r, r ≠ q →
      ((s.setElem q { s.elem q with odpQueue := false }).queueFreeAggrAll q).elem r =
        if r ∈ (s.elem q).aggrQueues ∧ (s.elem r).allocated ∧ (s.elem r).type = .aggr ∧
            (s.elem r).parentQueue = some q then
          { s.elem r with allocated := false, state := .invalid, parentQueue := none }
        else s.elem r := fun r hr => by
    simp [queueFreeAggrAll, hr]
  dsimp only
  simp only [queueFree, elem_setElem, hatomic, Function.update_self, Function.update_idem, hself]
  constructor
  · simp
  · simp
  · simp
  · intro r hr hmem haggr
    rw [Function.update_of_ne hr, hne r hr, if_pos ⟨hmem,haggr.allocated,haggr.type,haggr.parentQueue⟩]
  · intro r hr hno
    rw [Function.update_of_ne hr, hne r hr, if_neg fun hc => hno ⟨hc.1,hc.2.2.1,hc.2.2.2⟩]
  · intro r hr
    rw [Function.update_of_ne hr, hne r hr]
    split
    · rename_i hc
      exact .inr ⟨rfl,hc.2.2.1⟩
    · exact .inl rfl

/-- A delete fails and leaves all elements, but for the arguments of an output queue, or it
passes its checks and succeeds. -/
theorem queueDelete_deleted [DecidableEq γ] [DecidableEq α] (s : State ι γ α) (q : ι) (destroyOk : Bool) :
    ((s.queueDelete q destroyOk).2 ≠ .ok ∧ ∃ argsEvent, (s.queueDelete q destroyOk).1.elem =
        Function.update s.elem q { s.elem q with argsEvent }) ∨
      ((s.queueDelete q destroyOk).2 = .ok ∧ s.DeleteChecked q ∧
        Deleted s.elem (s.queueDelete q destroyOk).1.elem q) := by
  rcases s.queueDelete_cases q destroyOk with ⟨heq,hne,-⟩ | ⟨t,hcheck,hrelease,heq⟩
  · refine .inl ⟨hne,(s.elem q).argsEvent,?_⟩
    rw [heq, Function.update_eq_self]
  · obtain ⟨argsEvent,helem⟩ := queueRelease_elem hrelease
    have hq : (t.elem q).type ≠ .aggr := by
      rw [helem, Function.update_self]
      exact hcheck.2.1
    rw [heq]
    rcases queueDestroy_deleted destroyOk hq with ⟨hne,hsame⟩ | ⟨hok,hdel⟩
    · exact .inl ⟨hne,argsEvent,by rw [hsame, helem]⟩
    · refine .inr ⟨hok,hcheck,?_⟩
      have hother : ∀ r, r ≠ q → t.elem r = s.elem r := fun r hr => by
        rw [helem, Function.update_of_ne hr]
      have haggr : (t.elem q).aggrQueues = (s.elem q).aggrQueues := by
        rw [helem, Function.update_self]
      constructor
      · rw [hdel.type, helem, Function.update_self]
      · exact hdel.allocated
      · exact hdel.state
      · intro r hr hmem hof
        rw [← hother r hr] at hof ⊢
        exact hdel.aggr r hr (haggr ▸ hmem) hof
      · intro r hr hno
        rw [← hother r hr] at hno ⊢
        exact hdel.other r hr fun hc => hno ⟨haggr ▸ hc.1,hc.2⟩
      · intro r hr
        rw [← hother r hr]
        exact hdel.aggrOrOther r hr

omit [DecidableEq ι] in
/-- A scheduled queue is created in a queue group that exists. -/
theorem queueCreateCheckArgs_group {s : State ι γ α} (hcheck : s.queueCreateCheckArgs p = true)
    (hsched : p.type.scheduled = true) :
    ∃ g, p.queueGroup = some g ∧ s.groupAllocated g = true := by
  unfold queueCreateCheckArgs at hcheck
  cases hp : p.type <;> rw [hp] at hcheck hsched <;> cases hsched
  · exact (Option.any_eq_true _ _).1 hcheck
  · exact (Option.any_eq_true _ _).1 (Bool.and_eq_true_iff.1 hcheck).1
  · exact (Option.any_eq_true _ _).1 (Bool.and_eq_true_iff.1 hcheck).1

theorem queueCreate_groupAllocated [DecidableEq γ] [DecidableEq α] (s : State ι γ α) (q : ι)
    (p : Create ι γ α) : (s.queueCreate q p).1.groupAllocated = s.groupAllocated := by
  have hsetup : (s.queueSetup q p).1.groupAllocated = s.groupAllocated := by
    simp only [queueSetup, queueSetupScheduled, queueSetupUnscheduled, queueSetupLocal,
      queueSetupOutput, queueSetupOutputArgs, takeIdx, errorDecCnt]
    repeat' split
    all_goals rfl
  rcases s.queueCreate_cases q p with ⟨-,heq⟩ | ⟨t,ht,heq⟩ | ⟨t,-,ht,heq | ⟨a,heq⟩⟩
  · rw [heq]
  all_goals
    rw [ht] at hsetup
    rw [heq]
    exact hsetup

theorem queueDelete_groupAllocated [DecidableEq γ] [DecidableEq α] (s : State ι γ α) (q : ι)
    (destroyOk : Bool) : (s.queueDelete q destroyOk).1.groupAllocated = s.groupAllocated := by
  rcases s.queueDelete_cases q destroyOk with ⟨heq,-⟩ | ⟨t,-,hrelease,heq⟩
  · rw [heq]
  · have ht : t.groupAllocated = s.groupAllocated := by
      rcases queueRelease_cases hrelease with ⟨-,g,-,-,rfl⟩ | ⟨-,rfl⟩ | ⟨-,rfl⟩
      · unfold queueGroupRemQueueList
        split <;> rfl
      · rfl
      · rfl
    rw [heq, ← ht]
    simp only [queueDestroy, atomicGroupRemoveQueue, atomicGroupRemQueueList]
    repeat' split
    all_goals rfl

/-- A queue that passes its checks is deleted when it is released and its ODP queue destroyed. -/
theorem queueDelete_ok_iff [DecidableEq γ] [DecidableEq α] {destroyOk : Bool}
    (hcheck : s.DeleteChecked q) : (s.queueDelete q destroyOk).2 = .ok ↔
      s.queueRelease q ≠ none ∧ (s.destroysOdpQueue q = true → destroyOk = true) := by
  rcases s.queueDelete_cases q destroyOk with ⟨-,hne,hnone⟩ | ⟨t,-,hrelease,heq⟩
  · exact iff_of_false hne fun hc => hc.1 (hnone hcheck)
  · rw [heq, hrelease, ← destroysOdpQueue_release hrelease]
    simp only [queueDestroy]
    split <;> simp_all

end State
end EmOdp.QueueTable
