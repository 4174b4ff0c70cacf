import EmOdp.EoQueues.Records

/-! Queues are enabled in EOs that run only. -/
namespace EmOdp.EoQueues
open Lib QueueTable
open EoStart (EoState)
variable {ι γ α ε ρ : Type}

namespace State
variable {s t u : State ι γ α ε ρ} {e d : ε} {q r : ι} {c : Limits} {strict : Bool}

/-- No EO changes its state, and no queue is enabled. -/
structure Quiet (s t : State ι γ α ε ρ) : Prop where
  eo : ∀ e, (t.eoElem e).allocated = (s.eoElem e).allocated ∧ (t.eoElem e).state = (s.eoElem e).state
  startLocalFunc : ∀ e, (t.eoElem e).startLocalFunc = (s.eoElem e).startLocalFunc
  calls : SameCalls s.pending t.pending
  queues : ∀ e, ∀ q ∈ (t.eoElem e).queueList, (t.tbl.elem q).state = .bind ∨
    q ∈ (s.eoElem e).queueList ∧ (t.tbl.elem q).state = (s.tbl.elem q).state

theorem Quiet.refl (s : State ι γ α ε ρ) : s.Quiet s :=
  ⟨fun _ => ⟨rfl,rfl⟩,fun _ => rfl,.refl _,fun _ _ hq => .inr ⟨hq,rfl⟩⟩

theorem Quiet.trans (h : s.Quiet t) (h' : t.Quiet u) : s.Quiet u := by
  refine ⟨fun e => ?_,fun e => (h'.startLocalFunc e).trans (h.startLocalFunc e),
    h.calls.trans h'.calls,fun e q hq => ?_⟩
  · rw [(h'.eo e).1, (h'.eo e).2]
    exact h.eo e
  · rcases h'.queues e q hq with hbind | ⟨hmem,hsame⟩
    · exact .inl hbind
    · rw [hsame]
      exact h.queues e q hmem

/-- The queues in the lists of the EOs have not changed. -/
theorem Quiet.of_elem (heo : t.eoElem = s.eoElem) (hpending : t.pending = s.pending)
    (helem : ∀ e, ∀ q ∈ (s.eoElem e).queueList, (t.tbl.elem q).state = (s.tbl.elem q).state) :
    s.Quiet t := by
  refine ⟨fun e => by rw [heo]; exact ⟨rfl,rfl⟩,fun e => by rw [heo],hpending ▸ .refl _,
    fun e q hq => .inr ?_⟩
  rw [heo] at hq
  exact ⟨hq,helem e q hq⟩

theorem Linked.active_of_mem (h : s.Linked) (hq : q ∈ (s.eoElem e).queueList) :
    ofEo (s.tbl.elem q).type = true ∧ Active (s.tbl.elem q).state :=
  (h.bound q).1 ⟨e,(h.mem e q).1 hq⟩

theorem Linked.eq_of_mem (h : s.Linked) (he : q ∈ (s.eoElem e).queueList)
    (hd : q ∈ (s.eoElem d).queueList) : d = e :=
  Option.some.inj (((h.mem d q).1 hd).symm.trans ((h.mem e q).1 he))

variable [DecidableEq ι] [DecidableEq γ] [DecidableEq α] [DecidableEq ε]

theorem Change.isQuiet (hc : c.quiet = true) (h : s.Inv) (hst : Change c s t) : s.Quiet t := by
  have halloc : ∀ e, ∀ q ∈ (s.eoElem e).queueList, (s.tbl.elem q).allocated = true := fun e q hq =>
    h.linked.allocated (h.linked.active_of_mem hq).2
  cases hst with
  | @createQueue q p hfresh hcheck =>
    have hcreated := QueueTable.State.queueCreate_created hfresh hcheck
    rw [queueCreate_eq hcheck]
    refine .of_elem rfl rfl fun e r hr => congrArg _ (hcreated.other r ?_ fun hmem => ?_)
    · rintro rfl
      cases hfresh.1.symm.trans (halloc e r hr)
    · cases (hcreated.aggr r hmem).1.symm.trans (halloc e r hr)
  | @pktinQueue q type g contextSetOk hq =>
    refine .of_elem rfl rfl fun e r hr => ?_
    have hrq : r ≠ q := by
      rintro rfl
      cases hq.symm.trans (halloc e r hr)
    cases contextSetOk <;> simp [State.pktinEventQueue2em, QueueTable.State.pktinEventQueue2em,
      QueueTable.State.queueSetupCommon, QueueTable.State.queueFree, hrq]
  | deleteQueue q destroyOk =>
    refine .of_elem rfl rfl fun e r hr => ?_
    have hactive := h.linked.active_of_mem hr
    rcases s.tbl.queueDelete_deleted q (destroyOk q) with ⟨-,argsEvent,helem⟩ | ⟨-,hcheck,hdel⟩
    · have he : (s.queueDelete q destroyOk).1.tbl.elem r =
          Function.update s.tbl.elem q { s.tbl.elem q with argsEvent } r := congrFun helem r
      rw [he]
      by_cases hrq : r = q
      · rw [hrq, Function.update_self]
      · rw [Function.update_of_ne hrq]
    · have hrq : r ≠ q := by
        rintro rfl
        exact DeleteChecked.not_active hcheck hactive
      rcases hdel.aggrOrOther r hrq with hsame | ⟨-,haggr⟩
      · exact congrArg _ hsame
      · rw [haggr] at hactive
        cases hactive.1
  | createGroup hstep =>
    refine .of_elem rfl rfl fun e r _ => ?_
    rw [(createGroup_tbl hstep).1]
  | deleteGroup hstep =>
    refine .of_elem rfl rfl fun e r _ => ?_
    rw [(deleteGroup_tbl hstep).1]
  | @setState q state _ _ _ _ hquiet =>
    refine ⟨fun _ => ⟨rfl,rfl⟩,fun _ => rfl,.refl _,fun e r hr => ?_⟩
    simp only [State.setQueueState]
    split
    · exact .inl (hquiet hc)
    · exact .inr ⟨hr,rfl⟩
  | @addQueue e q _ _ _ hstate =>
    rw [eoAddQueue_ok hstate]
    refine ⟨fun d => ?_,fun d => ?_,.refl _,fun d r hr => ?_⟩
    · by_cases hd : d = e
      · subst hd
        simp
      · simp [hd]
    · by_cases hd : d = e
      · subst hd
        simp
      · simp [hd]
    · by_cases hrq : r = q
      · subst hrq
        simp
      · have hmem : r ∈ (s.eoElem d).queueList := by
          by_cases hd : d = e
          · subst hd
            simpa [hrq] using hr
          · simpa [hd] using hr
        simp [hrq, hmem]
  | @removeQueue e q hstate =>
    rw [eoRemQueue_ok hstate]
    refine ⟨fun _ => ⟨rfl,rfl⟩,fun _ => rfl,.refl _,fun d r hr => ?_⟩
    obtain ⟨hrq,hmem⟩ := (h.linked.nodup d).mem_erase_iff.1 hr
    simp [hrq, hmem]
  | setEo _ _ _ hquiet => cases hc.symm.trans hquiet
  | pending _ hquiet => exact ⟨fun _ => ⟨rfl,rfl⟩,fun _ => rfl,hquiet hc,fun _ _ hq => .inr ⟨hq,rfl⟩⟩

theorem Changes.isQuiet (hc : c.quiet = true) (h : s.Inv) (hst : Changes c s t) : s.Quiet t := by
  induction hst with
  | refl => exact .refl s
  | tail hst hlast ih => exact ih.trans (Change.isQuiet hc (h.changes hst) hlast)

/-- Every EO but `e` is started or stopped by one call at a time, of which its state tells, and,
if `strict`, it has disabled queues only unless it runs. -/
structure ClosedBut (s : State ι γ α ε ρ) (e : ε) (strict : Bool) : Prop where
  queues : strict = true → ∀ d, d ≠ e → (s.eoElem d).state ≠ .running →
    ∀ q ∈ (s.eoElem d).queueList, (s.tbl.elem q).state = .bind
  phases : ∀ p ∈ s.pending.filterMap Pending.phase,
    p.1 ≠ e ∧ (s.eoElem p.1).allocated = true ∧ (s.eoElem p.1).state = p.2
  nodup : ((s.pending.filterMap Pending.phase).map Prod.fst).Nodup

structure Closed (s : State ι γ α ε ρ) (strict : Bool) : Prop where
  queues : strict = true → ∀ e, (s.eoElem e).state ≠ .running →
    ∀ q ∈ (s.eoElem e).queueList, (s.tbl.elem q).state = .bind
  phases : ∀ p ∈ s.pending.filterMap Pending.phase,
    (s.eoElem p.1).allocated = true ∧ (s.eoElem p.1).state = p.2
  nodup : ((s.pending.filterMap Pending.phase).map Prod.fst).Nodup

omit [DecidableEq ι] [DecidableEq γ] [DecidableEq α] [DecidableEq ε]

theorem Closed.quiet (h : s.Closed strict) (hst : s.Quiet t) : t.Closed strict := by
  refine ⟨fun hstrict e he q hq => ?_,?_,?_⟩
  · rw [(hst.eo e).2] at he
    rcases hst.queues e q hq with hbind | ⟨hmem,hsame⟩
    · exact hbind
    · exact hsame.trans (h.queues hstrict e he q hmem)
  · rw [hst.calls.phases]
    intro p hp
    rw [(hst.eo p.1).1, (hst.eo p.1).2]
    exact h.phases p hp
  · rw [hst.calls.phases]
    exact h.nodup

/-- No call that starts or stops the EO is pending. -/
theorem Closed.but (h : s.Closed strict) (he : ∀ p ∈ s.pending.filterMap Pending.phase, p.1 ≠ e) :
    s.ClosedBut e strict :=
  ⟨fun hstrict d _ => h.queues hstrict d,fun p hp => ⟨he p hp,h.phases p hp⟩,h.nodup⟩

/-- An EO in another state is not started or stopped. -/
theorem Closed.but_of_state (h : s.Closed strict) (hstarting : (s.eoElem e).state ≠ .starting)
    (hstopping : (s.eoElem e).state ≠ .stopping) : s.ClosedBut e strict := by
  refine h.but fun p hp hpe => ?_
  have hstate := (h.phases p hp).2
  obtain ⟨pend,-,hphase⟩ := List.mem_filterMap.1 hp
  rw [hpe] at hstate
  cases pend with
  | startFunc => cases hphase; exact hstarting hstate
  | startLocal => cases hphase; exact hstarting hstate
  | stopLocal => cases hphase; exact hstopping hstate
  | removeQueue => cases hphase
  | removeQueueAll => cases hphase

theorem ClosedBut.close (h : s.ClosedBut e strict) (he : strict = true →
    (s.eoElem e).state ≠ .running → ∀ q ∈ (s.eoElem e).queueList, (s.tbl.elem q).state = .bind) :
    s.Closed strict := by
  refine ⟨fun hstrict d hd => ?_,fun p hp => (h.phases p hp).2,h.nodup⟩
  by_cases hde : d = e
  · subst hde
    exact he hstrict hd
  · exact h.queues hstrict d hde hd

theorem ClosedBut.setEo [DecidableEq ε] (h : s.ClosedBut e strict) (x : EoElem ι ρ) :
    (s.setEo e x).ClosedBut e strict := by
  have hne : ∀ d, d ≠ e → (s.setEo e x).eoElem d = s.eoElem d := fun d hd =>
    Function.update_of_ne hd _ _
  refine ⟨fun hstrict d hd => ?_,fun p hp => ?_,h.nodup⟩
  · rw [hne d hd]
    exact h.queues hstrict d hd
  · rw [hne p.1 (h.phases p hp).1]
    exact h.phases p hp

/-- The queues of the EO are switched. -/
theorem ClosedBut.switched {state : QueueState} (h : s.ClosedBut e strict) (hl : s.Linked)
    (hst : s.Switched t (s.eoElem e).queueList state) : t.ClosedBut e strict := by
  refine ⟨fun hstrict d hd hrun q hq => ?_,?_,?_⟩
  · rw [hst.eoElem] at hrun hq
    have hno : q ∉ (s.eoElem e).queueList := fun hmem => hd (hl.eq_of_mem hmem hq)
    rw [hst.other q (hl.active_of_mem hq).1 hno]
    exact h.queues hstrict d hd hrun q hq
  · rw [hst.pending, hst.eoElem]
    exact h.phases
  · rw [hst.pending]
    exact h.nodup

/-- A call that starts or stops the EO is pending. -/
theorem ClosedBut.add {p : Pending ι ε} {state : EoState} (h : s.ClosedBut e strict)
    (hp : p.phase = some (e,state)) (halloc : (s.eoElem e).allocated = true)
    (hstate : (s.eoElem e).state = state)
    (he : strict = true → ∀ q ∈ (s.eoElem e).queueList, (s.tbl.elem q).state = .bind) :
    (s.add p).Closed strict := by
  have hphases : (s.add p).pending.filterMap Pending.phase =
      s.pending.filterMap Pending.phase ++ [(e,state)] := by
    simp [State.add, hp]
  refine ⟨(h.close fun hstrict _ => he hstrict).queues,?_,?_⟩
  · rw [hphases]
    intro p' hp'
    rcases List.mem_append.1 hp' with hmem | hmem
    · exact (h.phases p' hmem).2
    · rw [List.mem_singleton.1 hmem]
      exact ⟨halloc,hstate⟩
  · rw [hphases, List.map_append]
    refine List.nodup_append.2 ⟨h.nodup,List.nodup_singleton _,fun x hx y hy => ?_⟩
    obtain ⟨p',hp',rfl⟩ := List.mem_map.1 hx
    rw [List.mem_singleton.1 hy]
    exact (h.phases p' hp').1

/-- The call that starts or stops the EO goes on. -/
theorem Closed.erase [DecidableEq ι] [DecidableEq ε] {p : Pending ι ε} {state : EoState} (h : s.Closed strict)
    (hmem : p ∈ s.pending) (hp : p.phase = some (e,state)) :
    ClosedBut { s with pending := s.pending.erase p } e strict ∧ (s.eoElem e).allocated = true ∧
      (s.eoElem e).state = state := by
  have hperm : (s.pending.filterMap Pending.phase).Perm
      ((e,state) :: (s.pending.erase p).filterMap Pending.phase) := by
    have hcons := (List.perm_cons_erase hmem).filterMap Pending.phase
    rwa [List.filterMap_cons_some hp] at hcons
  have hnodup := (hperm.map Prod.fst).nodup_iff.1 h.nodup
  rw [List.map_cons, List.nodup_cons] at hnodup
  refine ⟨⟨fun hstrict d _ => h.queues hstrict d,fun p' hp' => ⟨?_,?_⟩,hnodup.2⟩,?_⟩
  · rintro rfl
    have hfst := List.mem_map_of_mem (f := Prod.fst) hp'
    exact hnodup.1 hfst
  · exact h.phases p' (hperm.mem_iff.2 (List.mem_cons_of_mem _ hp'))
  · exact h.phases (e,state) (hperm.mem_iff.2 List.mem_cons_self)

end State
end EmOdp.EoQueues
