import EmOdp.EoQueues.Changes

/-! The aggregator queues and their parents. -/
namespace EmOdp.EoQueues
open Lib QueueTable
variable {ι γ α ε ρ : Type}

/-- The states in which a send is accepted or refused the same way. -/
structure SameAccess (state parent : QueueState) : Prop where
  ready : state = .ready ↔ parent = .ready
  unscheduled : state = .unscheduled ↔ parent = .unscheduled

theorem SameAccess.refl (state : QueueState) : SameAccess state state := ⟨Iff.rfl,Iff.rfl⟩

namespace State

/-- `r` is an aggregator queue of `q`. -/
structure Child (s : State ι γ α ε ρ) (q r : ι) : Prop where
  elem : (s.tbl.elem r).AggrOf q
  state : SameAccess (s.tbl.elem r).state (s.tbl.elem q).state
  binding : s.binding r = { scheduled := (s.binding q).scheduled }

/-- The queue exists and is no aggregator queue. -/
def IsParent (s : State ι γ α ε ρ) (q : ι) : Prop := (s.tbl.elem q).Live

/-- Parents and aggregator queues know of each other. -/
structure Family (s : State ι γ α ε ρ) : Prop where
  child : ∀ q r, s.IsParent q → r ∈ (s.tbl.elem q).aggrQueues → s.Child q r
  parent : ∀ r, (s.tbl.elem r).allocated = true → (s.tbl.elem r).type = .aggr →
    ∃ q, (s.tbl.elem r).parentQueue = some q ∧ s.IsParent q ∧ r ∈ (s.tbl.elem q).aggrQueues
  aggrParent : ∀ q, s.IsParent q → (s.tbl.elem q).aggrQueues ≠ [] → (s.tbl.elem q).odpQueue = true ∧
    ((s.tbl.elem q).type.scheduled = true ∨ (s.tbl.elem q).type = .unscheduled)

variable {s t : State ι γ α ε ρ} {q r : ι}

/-- The same queue with the same relatives. -/
structure SameKin (s t : State ι γ α ε ρ) (q : ι) : Prop where
  allocated : (t.tbl.elem q).allocated = (s.tbl.elem q).allocated
  type : (t.tbl.elem q).type = (s.tbl.elem q).type
  aggrQueues : (t.tbl.elem q).aggrQueues = (s.tbl.elem q).aggrQueues
  parentQueue : (t.tbl.elem q).parentQueue = (s.tbl.elem q).parentQueue
  odpQueue : (t.tbl.elem q).odpQueue = (s.tbl.elem q).odpQueue
  scheduled : (t.binding q).scheduled = (s.binding q).scheduled

theorem SameKin.of_eq (helem : t.tbl.elem q = s.tbl.elem q) (hbinding : t.binding q = s.binding q) :
    SameKin s t q :=
  ⟨congrArg _ helem,congrArg _ helem,congrArg _ helem,congrArg _ helem,congrArg _ helem,
    congrArg _ hbinding⟩

theorem SameKin.isParent (h : SameKin s t q) : t.IsParent q ↔ s.IsParent q := by
  simp only [IsParent, QueueElem.Live, h.allocated, h.type]

theorem SameKin.aggrOf (h : SameKin s t r) (hr : (s.tbl.elem r).AggrOf q) :
    (t.tbl.elem r).AggrOf q :=
  ⟨h.allocated.trans hr.allocated,h.type.trans hr.type,h.parentQueue.trans hr.parentQueue,
    h.odpQueue.trans hr.odpQueue,h.aggrQueues.trans hr.aggrQueues⟩

/-- No queue comes or goes. -/
theorem Family.congr (h : s.Family) (hkin : ∀ q, SameKin s t q)
    (hstate : ∀ q r, s.IsParent q → s.Child q r → r ∈ (s.tbl.elem q).aggrQueues →
      SameAccess (t.tbl.elem r).state (t.tbl.elem q).state)
    (hbinding : ∀ q r, s.Child q r → t.binding r = s.binding r) : t.Family := by
  constructor
  · intro q r hq hr
    rw [(hkin q).isParent] at hq
    rw [(hkin q).aggrQueues] at hr
    have hchild := h.child q r hq hr
    refine ⟨(hkin r).aggrOf hchild.elem,hstate q r hq hchild hr,?_⟩
    rw [hbinding q r hchild, hchild.binding, (hkin q).scheduled]
  · intro r halloc htype
    rw [(hkin r).allocated] at halloc
    rw [(hkin r).type] at htype
    obtain ⟨q,hparent,hq,hr⟩ := h.parent r halloc htype
    refine ⟨q,(hkin r).parentQueue.trans hparent,(hkin q).isParent.2 hq,?_⟩
    rw [(hkin q).aggrQueues]
    exact hr
  · intro q hq haggr
    rw [(hkin q).isParent] at hq
    rw [(hkin q).aggrQueues] at haggr
    rw [(hkin q).odpQueue, (hkin q).type]
    exact h.aggrParent q hq haggr

/-- A parent is no aggregator queue. -/
theorem IsParent.ne (hq : s.IsParent q) (hr : (s.tbl.elem r).type = .aggr) : r ≠ q := by
  rintro rfl
  exact hq.2 hr

/-- A queue and its aggregator queues are new, or an element is replaced that was free. -/
theorem Family.add (h : s.Family) (hfree : (s.tbl.elem q).allocated = false)
    (htype : (t.tbl.elem q).type ≠ .aggr)
    (haggr : ∀ r ∈ (t.tbl.elem q).aggrQueues, (s.tbl.elem r).allocated = false ∧ t.Child q r)
    (halloc : (t.tbl.elem q).aggrQueues ≠ [] →
      (t.tbl.elem q).allocated = true ∧ (t.tbl.elem q).odpQueue = true ∧
        ((t.tbl.elem q).type.scheduled = true ∨ (t.tbl.elem q).type = .unscheduled))
    (hother : ∀ r, r ≠ q → r ∉ (t.tbl.elem q).aggrQueues →
      t.tbl.elem r = s.tbl.elem r ∧ t.binding r = s.binding r) : t.Family := by
  have hold : ∀ r, (s.tbl.elem r).allocated = true →
      t.tbl.elem r = s.tbl.elem r ∧ t.binding r = s.binding r := by
    intro r hr
    refine hother r ?_ fun hmem => ?_
    · rintro rfl
      cases hr.symm.trans hfree
    · cases hr.symm.trans (haggr r hmem).1
  have hparent : ∀ q', q' ≠ q → t.IsParent q' → t.tbl.elem q' = s.tbl.elem q' ∧
      t.binding q' = s.binding q' := by
    intro q' hne hq'
    exact hother q' hne fun hmem => hq'.2 (haggr q' hmem).2.elem.type
  constructor
  · intro q' r hq' hr
    by_cases hqq : q' = q
    · subst hqq
      exact (haggr r hr).2
    · obtain ⟨he,hb⟩ := hparent q' hqq hq'
      rw [IsParent, he] at hq'
      rw [he] at hr
      have hchild := h.child q' r hq' hr
      obtain ⟨her,hbr⟩ := hold r hchild.elem.allocated
      exact ⟨her ▸ hchild.elem,by rw [her, he]; exact hchild.state,by rw [hbr, hb]; exact hchild.binding⟩
  · intro r hralloc hrtype
    by_cases hmem : r ∈ (t.tbl.elem q).aggrQueues
    · exact ⟨q,(haggr r hmem).2.elem.parentQueue,⟨(halloc (List.ne_nil_of_mem hmem)).1,htype⟩,hmem⟩
    · have hne : r ≠ q := by
        rintro rfl
        exact htype hrtype
      obtain ⟨her,-⟩ := hother r hne hmem
      rw [her] at hralloc hrtype
      obtain ⟨q',hpq,hq',hr⟩ := h.parent r hralloc hrtype
      obtain ⟨he,-⟩ := hold q' hq'.1
      refine ⟨q',by rw [her, hpq],?_,by rw [he]; exact hr⟩
      rw [IsParent, he]
      exact hq'
  · intro q' hq' hne
    by_cases hqq : q' = q
    · subst hqq
      exact (halloc hne).2
    · obtain ⟨he,-⟩ := hparent q' hqq hq'
      rw [IsParent, he] at hq'
      rw [he] at hne ⊢
      exact h.aggrParent q' hq' hne

variable [DecidableEq ι] [DecidableEq γ] [DecidableEq α] [DecidableEq ε]

omit [DecidableEq ε] in
theorem queueCreate_eq {p : Create ι γ α} (hcheck : s.tbl.queueCreateCheckArgs p = true) :
    s.queueCreate q p = { s with
      tbl := (s.tbl.queueCreate q p).1
      binding := fun r =>
        if r = q ∨ r ∈ ((s.tbl.queueCreate q p).1.elem q).aggrQueues then
          { scheduled := p.type.scheduled }
        else s.binding r } := by
  simp [queueCreate, hcheck]

omit [DecidableEq ε] in
theorem Family.queueCreate {p : Create ι γ α} (h : s.Family) (hfresh : s.tbl.Fresh q p)
    (hcheck : s.tbl.queueCreateCheckArgs p = true) : (s.queueCreate q p).Family := by
  have hcreated := QueueTable.State.queueCreate_created hfresh hcheck
  rw [queueCreate_eq hcheck]
  refine h.add hfresh.1 ?_ (fun r hr => ?_) (fun hne => ⟨?_,?_⟩) fun r hne hr =>
    ⟨hcreated.other r hne hr,if_neg (not_or.2 ⟨hne,hr⟩)⟩
  · rw [hcreated.type]
    intro haggr
    simp [QueueTable.State.queueCreateCheckArgs, haggr] at hcheck
  · obtain ⟨hfree,-,haggr,hstate⟩ := hcreated.aggr r hr
    refine ⟨hfree,haggr,?_,?_⟩
    · change SameAccess ((s.tbl.queueCreate q p).1.elem r).state _
      rw [hstate]
      exact .refl _
    · exact (if_pos (.inr hr)).trans (by simp)
  · rcases hcreated.result with ⟨ha,-⟩ | ⟨-,-,hnil⟩
    · exact ha
    · exact absurd hnil hne
  · rw [show ((s.tbl.queueCreate q p).1.elem q).type = p.type from hcreated.type]
    exact hcreated.aggrParent hne

omit [DecidableEq γ] [DecidableEq α] [DecidableEq ε] in
theorem Family.pktinEventQueue2em {type : QueueType} {g : γ} (h : s.Family) (contextSetOk : Bool)
    (hq : (s.tbl.elem q).allocated = false) (htype : type.scheduled = true) :
    (s.pktinEventQueue2em q type g contextSetOk).Family := by
  have helem : ((s.pktinEventQueue2em q type g contextSetOk).tbl.elem q).type = type ∧
      ((s.pktinEventQueue2em q type g contextSetOk).tbl.elem q).aggrQueues = [] := by
    cases contextSetOk <;> simp [State.pktinEventQueue2em, QueueTable.State.pktinEventQueue2em,
      QueueTable.State.queueSetupCommon, QueueTable.State.queueFree]
  refine h.add hq ?_ (fun r hr => ?_) (fun hne => absurd helem.2 hne) fun r hne _ =>
    ⟨?_,Function.update_of_ne hne _ _⟩
  · rw [helem.1]
    rintro rfl
    cases htype
  · rw [helem.2] at hr
    cases hr
  · cases contextSetOk <;> simp [State.pktinEventQueue2em, QueueTable.State.pktinEventQueue2em,
      QueueTable.State.queueSetupCommon, QueueTable.State.queueFree, hne]

omit [DecidableEq ε] in
/-- A parent takes its aggregator queues with it. -/
theorem Family.queueDelete (h : s.Family) (q : ι) (destroyOk : ι → Bool) :
    (s.queueDelete q destroyOk).1.Family := by
  rcases s.tbl.queueDelete_deleted q (destroyOk q) with ⟨-,argsEvent,helem⟩ | ⟨-,hcheck,hdel⟩
  · have hr : ∀ r, (s.queueDelete q destroyOk).1.tbl.elem r =
        Function.update s.tbl.elem q { s.tbl.elem q with argsEvent } r := congrFun helem
    have hsame : ∀ r, SameKin s (s.queueDelete q destroyOk).1 r ∧
        ((s.queueDelete q destroyOk).1.tbl.elem r).state = (s.tbl.elem r).state := by
      intro r
      by_cases hrq : r = q
      · subst hrq
        rw [hr, Function.update_self]
        refine ⟨?_,rfl⟩
        constructor <;> first | rw [hr, Function.update_self] | rfl
      · have he := (hr r).trans (Function.update_of_ne hrq _ _)
        exact ⟨.of_eq he rfl,congrArg _ he⟩
    refine h.congr (fun r => (hsame r).1) (fun q' r _ hchild _ => ?_) fun _ _ _ => rfl
    rw [(hsame r).2, (hsame q').2]
    exact hchild.state
  · have hq : s.IsParent q := ⟨hcheck.1,hcheck.2.1⟩
    -- the queues that are still there have not changed
    have hkept : ∀ r, r ≠ q → ((s.queueDelete q destroyOk).1.tbl.elem r).allocated = true →
        (s.queueDelete q destroyOk).1.tbl.elem r = s.tbl.elem r := by
      intro r hne halloc
      rcases hdel.aggrOrOther r hne with hsame | ⟨hfreed,-⟩
      · exact hsame
      · cases (congrArg QueueElem.allocated hfreed).symm.trans halloc
    have hself : ∀ r, ((s.queueDelete q destroyOk).1.tbl.elem r).allocated = true → r ≠ q := by
      rintro r halloc rfl
      cases hdel.allocated.symm.trans halloc
    constructor
    · intro q' r hq' hr
      have he := hkept q' (hself q' hq'.1) hq'.1
      have hp : s.IsParent q' := by
        rw [IsParent, he] at hq'
        exact hq'
      rw [he] at hr
      have hchild := h.child q' r hp hr
      have her : (s.queueDelete q destroyOk).1.tbl.elem r = s.tbl.elem r := by
        refine hdel.other r (hq.ne hchild.elem.type) fun hc => hself q' hq'.1 ?_
        exact Option.some.inj (hchild.elem.parentQueue.symm.trans hc.2.2)
      exact ⟨by rw [her]; exact hchild.elem,by rw [her, he]; exact hchild.state,hchild.binding⟩
    · intro r halloc htype
      have her := hkept r (hself r halloc) halloc
      obtain ⟨q',hparent,hq',hr⟩ := h.parent r (her ▸ halloc) (her ▸ htype)
      have hne : q' ≠ q := by
        rintro rfl
        have hfreed := hdel.aggr r (hself r halloc) hr (h.child q' r hq' hr).elem
        cases (congrArg QueueElem.allocated hfreed).symm.trans halloc
      have he : (s.queueDelete q destroyOk).1.tbl.elem q' = s.tbl.elem q' :=
        hdel.other q' hne fun hc => hq'.2 hc.2.1
      refine ⟨q',by rw [her]; exact hparent,?_,by rw [he]; exact hr⟩
      rw [IsParent, he]
      exact hq'
    · intro q' hq' hne
      have he := hkept q' (hself q' hq'.1) hq'.1
      rw [IsParent, he] at hq'
      rw [he] at hne ⊢
      exact h.aggrParent q' hq' hne

omit [DecidableEq γ] [DecidableEq α] [DecidableEq ε] in
/-- `queue_state_set` sets the state of the aggregator queues too. -/
theorem Family.setQueueState (h : s.Family) (state : QueueState) (hq : s.IsParent q) :
    (s.setQueueState q state).Family := by
  have helem : ∀ r, (s.setQueueState q state).tbl.elem r =
      if r = q ∨ r ∈ (s.tbl.elem q).aggrQueues then { s.tbl.elem r with state } else s.tbl.elem r :=
    fun _ => rfl
  refine h.congr (fun r => ?_) (fun q' r hq' hchild hr => ?_) fun _ _ _ => rfl
  · constructor
    all_goals first | rfl | (rw [helem]; split <;> rfl)
  · by_cases hqq : q' = q
    · subst hqq
      rw [helem, helem, if_pos (.inr hr), if_pos (.inl rfl)]
      exact .refl _
    · -- the aggregator queues of another parent
      have hno : ¬(r = q ∨ r ∈ (s.tbl.elem q).aggrQueues) := by
        rintro (rfl | hmem)
        · exact hq.2 hchild.elem.type
        · exact hqq (Option.some.inj (hchild.elem.parentQueue.symm.trans
            (h.child q r hq hmem).elem.parentQueue))
      have hno' : ¬(q' = q ∨ q' ∈ (s.tbl.elem q).aggrQueues) := by
        rintro (rfl | hmem)
        · exact hqq rfl
        · exact hq'.2 (h.child q q' hq hmem).elem.type
      rw [helem, helem, if_neg hno, if_neg hno']
      exact hchild.state

omit [DecidableEq γ] [DecidableEq α] [DecidableEq ε] in
/-- The state of a queue changes between two in which nothing is sent to it. -/
theorem Family.setClosed (h : s.Family) (q : ι) (state : QueueState)
    (hold : (s.tbl.elem q).state ≠ .ready ∧ (s.tbl.elem q).state ≠ .unscheduled)
    (hnew : state ≠ .ready ∧ state ≠ .unscheduled)
    (helem : t.tbl.elem = Function.update s.tbl.elem q { s.tbl.elem q with state })
    (hscheduled : ∀ r, (t.binding r).scheduled = (s.binding r).scheduled)
    (hbinding : ∀ p r, s.Child p r → t.binding r = s.binding r) : t.Family := by
  have hstate : ∀ r, SameAccess (t.tbl.elem r).state (s.tbl.elem r).state := by
    intro r
    by_cases hrq : r = q
    · subst hrq
      rw [helem, Function.update_self]
      exact ⟨iff_of_false hnew.1 hold.1,iff_of_false hnew.2 hold.2⟩
    · rw [helem, Function.update_of_ne hrq]
      exact .refl _
  refine h.congr (fun r => ?_) (fun p r _ hchild _ => ?_) hbinding
  · constructor
    case scheduled => exact hscheduled r
    all_goals
      rw [helem]
      by_cases hrq : r = q
      · rw [hrq, Function.update_self]
      · rw [Function.update_of_ne hrq]
  · exact ⟨(hstate r).ready.trans (hchild.state.ready.trans (hstate p).ready.symm),
      (hstate r).unscheduled.trans (hchild.state.unscheduled.trans (hstate p).unscheduled.symm)⟩

omit [DecidableEq γ] [DecidableEq α] in
theorem Family.eoAddQueue {e : ε} (h : s.Family) (htype : ofEo (s.tbl.elem q).type = true)
    (hstate : (s.tbl.elem q).state = .init) : (s.eoAddQueue e q).1.Family := by
  rw [eoAddQueue_ok hstate]
  refine h.setClosed q .bind ?_ ⟨by decide,by decide⟩ rfl (fun r => ?_) fun p r hchild => ?_
  · rw [hstate]
    exact ⟨by decide,by decide⟩
  · by_cases hrq : r = q
    · subst hrq
      dsimp only
      rw [Function.update_self]
    · exact congrArg _ (Function.update_of_ne hrq _ _)
  · have hrq : r ≠ q := by
      rintro rfl
      rw [hchild.elem.type] at htype
      cases htype
    exact Function.update_of_ne hrq _ _

omit [DecidableEq γ] [DecidableEq α] in
theorem Family.eoRemQueue {e : ε} (h : s.Family) (hstate : (s.tbl.elem q).state = .bind) :
    (s.eoRemQueue e q).1.Family := by
  rw [eoRemQueue_ok hstate]
  refine h.setClosed q .init ?_ ⟨by decide,by decide⟩ rfl (fun r => ?_) fun p r hchild => ?_
  · rw [hstate]
    exact ⟨by decide,by decide⟩
  · by_cases hrq : r = q
    · subst hrq
      dsimp only
      rw [Function.update_self]
    · exact congrArg _ (Function.update_of_ne hrq _ _)
  · by_cases hrq : r = q
    · subst hrq
      refine (Function.update_self ..).trans ?_
      change ({ s.binding r with eo := none, eoElem := none } : Binding ε ρ) = s.binding r
      rw [hchild.binding]
    · exact Function.update_of_ne hrq _ _

theorem Family.change {c : Limits} (h : s.Family) (hst : Change c s t) : t.Family := by
  have hsame : ∀ u : State ι γ α ε ρ, u.tbl.elem = s.tbl.elem → u.binding = s.binding → u.Family := by
    intro u helem hbinding
    refine h.congr (fun r => .of_eq (congrFun helem r) (congrFun hbinding r))
      (fun p r _ hchild _ => ?_) fun _ r _ => congrFun hbinding r
    rw [helem]
    exact hchild.state
  cases hst with
  | createQueue hfresh hcheck => exact h.queueCreate hfresh hcheck
  | pktinQueue contextSetOk hq htype => exact h.pktinEventQueue2em contextSetOk hq htype
  | deleteQueue q destroyOk => exact h.queueDelete q destroyOk
  | createGroup hstep => exact hsame _ (createGroup_tbl hstep).1 rfl
  | deleteGroup hstep => exact hsame _ (deleteGroup_tbl hstep).1 rfl
  | setState halloc htype =>
    refine h.setQueueState _ ⟨halloc,?_⟩
    intro haggr
    rw [haggr] at htype
    cases htype
  | addQueue _ _ htype hstate => exact h.eoAddQueue htype hstate
  | removeQueue hstate => exact h.eoRemQueue hstate
  | setEo => exact hsame _ rfl rfl
  | pending => exact hsame _ rfl rfl

omit [DecidableEq ι] [DecidableEq γ] [DecidableEq α] [DecidableEq ε] in
theorem Initial.family (hi : Initial s) : s.Family := by
  have hno : ∀ q, (s.tbl.elem q).allocated ≠ true := fun q hq => by
    cases (hi.tbl.elem q).symm.trans hq
  exact ⟨fun q _ hq => absurd hq.1 (hno q),fun r hr => absurd hr (hno r),
    fun q hq => absurd hq.1 (hno q)⟩

end State
end EmOdp.EoQueues
