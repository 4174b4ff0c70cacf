import EmOdp.EoQueues.Calls
import EmOdp.Send.Calls

/-! Sends to an aggregator queue and to its parent. -/
namespace EmOdp.EoQueues
open Lib QueueTable
open EventState (EvstateError)
open Send (Config Core Results Event SentOne Sent)
variable {ι γ α ε ρ δ : Type}

/-- The type of a queue as a send sees it -/
def sendType : QueueType → Send.QueueType
  | .undef => .undef
  | .atomic => .atomic
  | .parallel => .parallel
  | .ordered => .parallelOrdered
  | .unscheduled => .unscheduled
  | .local_ => .local
  | .output => .output
  | .aggr => .aggr

def sendState : QueueState → Send.QueueState
  | .ready => .ready
  | .unscheduled => .unscheduled
  | _ => .other

/-- The fields of `queue_elem_t` that a send looks at -/
def State.sendElem (s : State ι γ α ε ρ) (q : ι) : Send.QueueElem where
  type := sendType (s.tbl.elem q).type
  state := sendState (s.tbl.elem q).state
  allocated := (s.tbl.elem q).allocated
  scheduled := (s.binding q).scheduled
  hasAggr := !(s.tbl.elem q).aggrQueues.isEmpty
  odpQueue := (s.tbl.elem q).odpQueue

/-- The event is sent. -/
def AcceptedOne (r : Except EvstateError (SentOne δ)) : Prop := ∃ sent, r = .ok sent ∧ sent.stat = .ok

/-- All events are sent. -/
def AcceptedMulti (r : Except EvstateError (Sent δ)) : Prop :=
  ∃ sent, r = .ok sent ∧ sent.numSent = sent.tbl.length

/-- The state of the queue is not looked at, or events may be sent in it. -/
def Accepts (cfg : Config) (x : Send.QueueElem) : Prop :=
  cfg.checkLevel = 0 ∨ x.state = .ready ∨ x.state = .unscheduled

section Sends
variable {cfg : Config} {core : Core} {x y : Send.QueueElem} {res : Results}

/-- The elements of an aggregator queue and of its parent. -/
structure AggrPair (x y : Send.QueueElem) : Prop where
  aggr : x.type = .aggr
  parent : (y.type = .atomic ∨ y.type = .parallel ∨ y.type = .parallelOrdered) ∧ y.state ≠ .unscheduled ∨
    y.type = .unscheduled ∧ y.state = .unscheduled ∧ y.hasAggr = true
  state : x.state = y.state
  allocated : x.allocated = true ∧ y.allocated = true
  scheduled : x.scheduled = y.scheduled
  odpQueue : x.odpQueue = true ∧ y.odpQueue = true

theorem sendAggr_accepted {event : Event δ} (hx : x.odpQueue = true) (hvec : event.table = none)
    (henq : res.enq = 0) : AcceptedOne (Send.sendAggr cfg x res event) ↔ Accepts cfg x := by
  unfold Send.sendAggr AcceptedOne Accepts
  cases hs : x.state <;> by_cases h0 : cfg.checkLevel = 0 <;>
    simp [hx, hvec, henq, h0, Nat.pos_iff_ne_zero]

theorem parent_accepted {event : Event δ} (h : AggrPair x y)
    (henq : res.enq = 0) : AcceptedOne (Send.sendType cfg y res event) ↔ Accepts cfg x := by
  have hodp := h.odpQueue.2
  rw [Accepts, h.state]
  rcases h.parent with ⟨htype,hstate⟩ | ⟨htype,hstate,haggr⟩
  · have hsched : AcceptedOne (Send.sendSched cfg y res event) ↔
        cfg.checkLevel = 0 ∨ y.state = .ready ∨ y.state = .unscheduled := by
      unfold Send.sendSched AcceptedOne
      cases hs : y.state <;> by_cases h0 : cfg.checkLevel = 0 <;> cases hesv : cfg.esvEnabled <;>
        simp_all [Send.enqVector, Nat.pos_iff_ne_zero]
    rcases htype with htype | htype | htype <;> simpa only [Send.sendType, htype] using hsched
  · unfold Send.sendType AcceptedOne
    cases hesv : cfg.esvEnabled <;>
      simp [htype, Send.queueUnschedEnqueue, hodp, hstate, haggr, henq, hesv, Send.enqVector]

theorem markedSend_accepted {event : Event δ}
    {send : Event δ → Except EvstateError (SentOne δ)} :
    AcceptedOne (Send.markedSend cfg event send) ↔
      ∃ event', event.evstateUsr2em cfg .single = .ok event' ∧ AcceptedOne (send event') := by
  unfold Send.markedSend
  cases hmark : event.evstateUsr2em cfg .single with
  | error e => exact iff_of_false (fun ⟨_,h,_⟩ => nomatch h) fun ⟨_,h,_⟩ => nomatch h
  | ok event' =>
    cases hsend : send event' with
    | error e =>
      refine iff_of_false (fun ⟨_,h,_⟩ => ?_) fun ⟨_,h,hacc⟩ => ?_
      · simp [hsend, bind, Except.bind] at h
      · cases h
        obtain ⟨_,hc,_⟩ := hacc
        cases hsend.symm.trans hc
    | ok sent =>
      have hiff : AcceptedOne (send event') ↔ sent.stat = .ok := by
        simp [AcceptedOne, hsend]
      rw [show (∃ e, Except.ok event' = (Except.ok e : Except EvstateError (Event δ)) ∧
        AcceptedOne (send e)) ↔ AcceptedOne (send event') by simp, hiff]
      simp only [hsend, bind, Except.bind, AcceptedOne]
      by_cases hok : sent.stat = .ok
      · simp [hok, pure, Except.pure]
      · rw [if_neg hok]
        cases hrev : sent.event.evstateUsr2emRevert cfg .single <;> simp [hok, pure, Except.pure]

theorem evstateUsr2em_table {v : EventState.Variant} {event event' : Event δ}
    (h : event.evstateUsr2em cfg v = .ok event') : event'.table = event.table := by
  unfold Event.evstateUsr2em at h
  split at h
  · cases hmark : EventState.evstateUsr2em v event.hdl event.hdr with
    | error e =>
      rw [hmark] at h
      cases h
    | ok hdr =>
      rw [hmark] at h
      cases h
      rfl
  · cases h
    rfl

theorem emSend_pair {event : Event δ} (h : AggrPair x y) (hvec : event.table = none)
    (henq : res.enq = 0) :
    AcceptedOne (Send.emSend cfg core x res event) ↔ AcceptedOne (Send.emSend cfg core y res event) := by
  have hout : y.type ≠ .output := by
    rintro hc
    rcases h.parent with ⟨hp | hp | hp,-⟩ | ⟨hp,-⟩ <;> cases hp.symm.trans hc
  unfold Send.emSend
  split
  · exact Iff.rfl
  unfold Send.sendInternal
  simp only [h.allocated.1, h.allocated.2, h.scheduled, h.aggr, hout]
  split
  · exact Iff.rfl
  split
  · exact Iff.rfl
  simp only [reduceCtorEq, if_false]
  rw [markedSend_accepted, markedSend_accepted]
  refine exists_congr fun event' => and_congr_right fun hmark => ?_
  have hvec' : event'.table = none := (evstateUsr2em_table hmark).trans hvec
  have hacc : AcceptedOne (Send.sendAggr cfg x res event') ↔ Accepts cfg x :=
    sendAggr_accepted h.odpQueue.1 hvec' henq
  rw [parent_accepted h henq, ← hacc]
  simp only [Send.sendType, h.aggr]

private theorem zero_eq_length {tbl : List (Event δ)} : (0 : Int) = tbl.length ↔ tbl = [] := by
  rw [eq_comm, Int.natCast_eq_zero, List.length_eq_zero_iff]

theorem sendAggrMulti_accepted {tbl : List (Event δ)} (hx : x.odpQueue = true)
    (hvec : ∀ event ∈ tbl, event.table = none) (henq : res.enqMulti = tbl.length) :
    AcceptedMulti (Send.sendAggrMulti cfg x res tbl) ↔ Accepts cfg x ∨ tbl = [] := by
  have hany : tbl.any (·.table.isSome) = false := by
    rw [List.any_eq_false]
    intro event hevent
    rw [hvec event hevent]
    exact Bool.false_ne_true
  unfold Send.sendAggrMulti AcceptedMulti Accepts
  cases hs : x.state <;> by_cases h0 : cfg.checkLevel = 0 <;> cases hesv : cfg.esvEnabled <;>
    simp [hx, hany, henq, h0, Nat.pos_iff_ne_zero, zero_eq_length]

theorem parent_acceptedMulti {tbl : List (Event δ)} (h : AggrPair x y)
    (henq : res.enqMulti = tbl.length) :
    AcceptedMulti (Send.sendTypeMulti cfg y res tbl) ↔ Accepts cfg x ∨ tbl = [] := by
  have hodp := h.odpQueue.2
  rw [Accepts, h.state]
  rcases h.parent with ⟨htype,hstate⟩ | ⟨htype,hstate,haggr⟩
  · have hsched : AcceptedMulti (Send.sendSchedMulti cfg y res tbl) ↔
        (cfg.checkLevel = 0 ∨ y.state = .ready ∨ y.state = .unscheduled) ∨ tbl = [] := by
      unfold Send.sendSchedMulti AcceptedMulti
      cases hs : y.state <;> by_cases h0 : cfg.checkLevel = 0 <;> cases hesv : cfg.esvEnabled <;>
        simp_all [Send.enqVectorsMulti, Nat.pos_iff_ne_zero, zero_eq_length]
    rcases htype with htype | htype | htype <;> simpa only [Send.sendTypeMulti, htype] using hsched
  · unfold Send.sendTypeMulti AcceptedMulti
    cases hesv : cfg.esvEnabled <;>
      simp [htype, Send.queueUnschedEnqueueMulti, hodp, hstate, haggr, henq, hesv,
        Send.enqVectorsMulti]

theorem markedSendMulti_accepted {tbl : List (Event δ)}
    {send : List (Event δ) → Except EvstateError (Sent δ)} :
    AcceptedMulti (Send.markedSendMulti cfg tbl send) ↔
      ∃ tbl', tbl.mapM (Event.evstateUsr2em cfg .multi) = .ok tbl' ∧ AcceptedMulti (send tbl') := by
  unfold Send.markedSendMulti
  cases hmark : tbl.mapM (Event.evstateUsr2em cfg .multi) with
  | error e => exact iff_of_false (fun ⟨_,h,_⟩ => nomatch h) fun ⟨_,h,_⟩ => nomatch h
  | ok tbl' =>
    cases hsend : send tbl' with
    | error e =>
      refine iff_of_false (fun ⟨_,h,_⟩ => ?_) fun ⟨_,h,hacc⟩ => ?_
      · simp [hsend, bind, Except.bind] at h
      · cases h
        obtain ⟨_,hc,_⟩ := hacc
        cases hsend.symm.trans hc
    | ok sent =>
      have hiff : AcceptedMulti (send tbl') ↔ sent.numSent = sent.tbl.length := by
        simp [AcceptedMulti, hsend]
      rw [show (∃ e, Except.ok tbl' = (Except.ok e : Except EvstateError (List (Event δ))) ∧
        AcceptedMulti (send e)) ↔ AcceptedMulti (send tbl') by simp, hiff]
      simp only [hsend, bind, Except.bind, AcceptedMulti, Send.revertUnsent]
      split
      · rename_i hc
        refine iff_of_false (fun ⟨sent',hrev,hnum⟩ => ?_) hc.1
        cases hmap : Batch.mapFrom (Event.evstateUsr2emRevert cfg .multi) sent.numSent.toNat sent.tbl with
        | error e =>
          rw [hmap] at hrev
          cases hrev
        | ok rest =>
          rw [hmap] at hrev
          cases hrev
          exact hc.1 (hnum.trans (congrArg _ (Batch.mapFrom_length hmap)))
      · simp

theorem emSendMulti_pair {tbl : List (Event δ)} (h : AggrPair x y)
    (hvec : ∀ event ∈ tbl, event.table = none) (henq : res.enqMulti = tbl.length) :
    AcceptedMulti (Send.emSendMulti cfg core x res tbl) ↔
      AcceptedMulti (Send.emSendMulti cfg core y res tbl) := by
  have hout : y.type ≠ .output := by
    rintro hc
    rcases h.parent with ⟨hp | hp | hp,-⟩ | ⟨hp,-⟩ <;> cases hp.symm.trans hc
  simp only [Send.emSendMulti]
  generalize (if 0 < cfg.checkLevel then tbl.takeWhile (!·.timerInd) else tbl) = good
  split
  · exact Iff.rfl
  split
  · unfold Send.sendInternalMulti
    simp only [h.allocated.1, h.allocated.2, h.scheduled, h.aggr, hout]
    split
    · exact Iff.rfl
    split
    · exact Iff.rfl
    simp only [reduceCtorEq, if_false]
    rw [markedSendMulti_accepted, markedSendMulti_accepted]
    refine exists_congr fun tbl' => and_congr_right fun hmark => ?_
    have hlen : tbl'.length = tbl.length := by
      rw [← (Batch.forall₂_mapM hmark).length_eq, List.length_map]
    have henq' : res.enqMulti = tbl'.length := by rw [henq, hlen]
    have hvec' : ∀ event ∈ tbl', event.table = none := by
      intro event hevent
      obtain ⟨event',hmem,hone⟩ := Batch.mapM_mem hmark hevent
      obtain ⟨event'',hmem'',rfl⟩ := List.mem_map.1 hmem
      rw [evstateUsr2em_table hone]
      exact hvec event'' hmem''
    have hacc : AcceptedMulti (Send.sendAggrMulti cfg x res tbl') ↔ Accepts cfg x ∨ tbl' = [] :=
      sendAggrMulti_accepted h.odpQueue.1 hvec' henq'
    rw [parent_acceptedMulti h henq', ← hacc]
    simp only [Send.sendTypeMulti, h.aggr]
  · exact Iff.rfl

end Sends

namespace State
variable {s t : State ι γ α ε ρ} {q r : ι}

/-- Queues that are not scheduled are created in their only state. -/
def Plain (s : State ι γ α ε ρ) : Prop :=
  ∀ q, (s.tbl.elem q).allocated = true → (s.tbl.elem q).type = .unscheduled →
    (s.tbl.elem q).state = .unscheduled

variable [DecidableEq ι] [DecidableEq γ] [DecidableEq α] [DecidableEq ε]

theorem Plain.change {c : Limits} (h : s.Plain) (hf : s.Family) (hst : Change c s t) :
    t.Plain := by
  cases hst with
  | @createQueue q p hfresh hcheck =>
    have hcreated := QueueTable.State.queueCreate_created hfresh hcheck
    rw [queueCreate_eq hcheck]
    intro r halloc htype
    by_cases hrq : r = q
    · subst hrq
      rcases hcreated.result with ⟨-,hstate,-⟩ | ⟨hfree,-⟩
      · rw [hcreated.type] at htype
        rw [hstate, htype]
        rfl
      · cases hfree.symm.trans halloc
    · by_cases hmem : r ∈ ((s.tbl.queueCreate q p).1.elem q).aggrQueues
      · cases (hcreated.aggr r hmem).2.2.1.type.symm.trans htype
      · have hsame := hcreated.other r hrq hmem
        dsimp only at halloc htype ⊢
        rw [hsame] at halloc htype ⊢
        exact h r halloc htype
  | @pktinQueue q type g contextSetOk hq hsched =>
    intro r halloc htype
    by_cases hrq : r = q
    · subst hrq
      have hr : ((s.pktinEventQueue2em r type g contextSetOk).tbl.elem r).type = type := by
        cases contextSetOk <;> simp [State.pktinEventQueue2em, QueueTable.State.pktinEventQueue2em,
          QueueTable.State.queueSetupCommon, QueueTable.State.queueFree]
      rw [hr.symm.trans htype] at hsched
      cases hsched
    · have hsame : (s.pktinEventQueue2em q type g contextSetOk).tbl.elem r = s.tbl.elem r := by
        cases contextSetOk <;> simp [State.pktinEventQueue2em, QueueTable.State.pktinEventQueue2em,
          QueueTable.State.queueSetupCommon, QueueTable.State.queueFree, hrq]
      rw [hsame] at halloc htype ⊢
      exact h r halloc htype
  | deleteQueue q destroyOk =>
    intro r halloc htype
    rcases s.tbl.queueDelete_deleted q (destroyOk q) with ⟨-,argsEvent,helem⟩ | ⟨-,-,hdel⟩
    · have hr : (s.queueDelete q destroyOk).1.tbl.elem r =
          Function.update s.tbl.elem q { s.tbl.elem q with argsEvent } r := congrFun helem r
      rw [hr] at halloc htype ⊢
      by_cases hrq : r = q
      · subst hrq
        rw [Function.update_self] at halloc htype ⊢
        exact h r halloc htype
      · rw [Function.update_of_ne hrq] at halloc htype ⊢
        exact h r halloc htype
    · have hrq : r ≠ q := by
        rintro rfl
        cases hdel.allocated.symm.trans halloc
      rcases hdel.aggrOrOther r hrq with hsame | ⟨hfreed,-⟩
      · have hr : (s.queueDelete q destroyOk).1.tbl.elem r = s.tbl.elem r := hsame
        rw [hr] at halloc htype ⊢
        exact h r halloc htype
      · cases (congrArg QueueElem.allocated hfreed).symm.trans halloc
  | createGroup hstep =>
    intro r
    rw [(createGroup_tbl hstep).1]
    exact h r
  | deleteGroup hstep =>
    intro r
    rw [(deleteGroup_tbl hstep).1]
    exact h r
  | @setState q state halloc htype =>
    intro r hr hr'
    have hq := IsParent.of_ofEo halloc htype
    simp only [State.setQueueState] at hr hr' ⊢
    split at hr'
    · rename_i hmem
      rcases hmem with rfl | hmem
      · dsimp only at hr'
        rw [hr'] at htype
        cases htype
      · cases (hf.child q r hq hmem).elem.type.symm.trans hr'
    · rename_i hmem
      rw [if_neg hmem] at hr ⊢
      exact h r hr hr'
  | @addQueue e q he hq htype hstate =>
    rw [eoAddQueue_ok hstate]
    intro r hr hr'
    by_cases hrq : r = q
    · subst hrq
      simp only [QueueTable.State.elem_setElem, Function.update_self] at hr'
      rw [hr'] at htype
      cases htype
    · simp only [QueueTable.State.elem_setElem, Function.update_of_ne hrq] at hr hr' ⊢
      exact h r hr hr'
  | @removeQueue e q hstate =>
    rw [eoRemQueue_ok hstate]
    intro r hr hr'
    by_cases hrq : r = q
    · subst hrq
      simp only [QueueTable.State.elem_setElem, Function.update_self] at hr hr'
      cases hstate.symm.trans (h r hr hr')
    · simp only [QueueTable.State.elem_setElem, Function.update_of_ne hrq] at hr hr' ⊢
      exact h r hr hr'
  | setEo => exact h
  | pending => exact h

theorem Plain.changes {c : Limits} (h : s.Plain) (hinv : s.Inv) (hst : Changes c s t) :
    t.Plain ∧ t.Inv := by
  induction hst with
  | refl => exact ⟨h,hinv⟩
  | tail _ hst ih => exact ⟨ih.1.change ih.2.family hst,ih.2.changes (.single hst)⟩

theorem reachable_plain (h : (machine ι γ α ε ρ).Reachable s) : s.Plain ∧ s.Inv := by
  refine h.invariant (I := fun s => s.Plain ∧ s.Inv) (fun s hi => ?_) fun s l t hs hst _ => ?_
  · refine ⟨fun q hq => ?_,Initial.linked hi,Initial.family hi⟩
    cases (hi.tbl.elem q).symm.trans hq
  · exact hs.1.changes hs.2 (step_changes {} hs.2 hst nofun nofun rfl nofun)

omit [DecidableEq ι] [DecidableEq γ] [DecidableEq α] [DecidableEq ε] in
/-- An aggregator queue and its parent, as sends see them. -/
theorem aggrPair (h : s.Inv) (hplain : s.Plain) (hq : s.IsParent q)
    (hr : r ∈ (s.tbl.elem q).aggrQueues) : AggrPair (s.sendElem r) (s.sendElem q) := by
  have hchild := h.family.child q r hq hr
  obtain ⟨hodp,htype⟩ := h.family.aggrParent q hq (List.ne_nil_of_mem hr)
  refine ⟨congrArg sendType hchild.elem.type,?_,?_,⟨hchild.elem.allocated,hq.1⟩,?_,
    ⟨hchild.elem.odpQueue,hodp⟩⟩
  · rcases htype with hsched | hun
    · left
      have hof : ofEo (s.tbl.elem q).type = true := by
        cases ht : (s.tbl.elem q).type <;> rw [ht] at hsched <;> first | rfl | cases hsched
      constructor
      · cases ht : (s.tbl.elem q).type <;> simp_all [sendElem, sendType, QueueType.scheduled]
      · have hstate := h.linked.state q hq.1 hof
        intro hc
        cases hs : (s.tbl.elem q).state <;> rw [hs] at hstate <;> simp [sendElem, sendState, hs] at hc
        rcases hstate with hc | hc | hc <;> cases hc
    · right
      refine ⟨congrArg sendType hun,congrArg sendState (hplain q hq.1 hun),?_⟩
      simp [sendElem, List.ne_nil_of_mem hr]
  · have hready := hchild.state.ready
    have hun := hchild.state.unscheduled
    cases hs : (s.tbl.elem r).state <;> cases ht : (s.tbl.elem q).state <;>
      rw [hs, ht] at hready hun <;> simp_all [sendElem, sendState]
  · change (s.binding r).scheduled = (s.binding q).scheduled
    rw [hchild.binding]

/-- The aggregator queue `r` follows its parent `q`. -/
structure Follows (s : State ι γ α ε ρ) (q r : ι) : Prop where
  allocated : (s.tbl.elem r).allocated = true ∧ (s.tbl.elem q).allocated = true
  parentQueue : (s.tbl.elem r).parentQueue = some q
  access : SameAccess (s.tbl.elem r).state (s.tbl.elem q).state
  scheduled : (s.binding r).scheduled = (s.binding q).scheduled
  /-- the EO is the one of the parent -/
  eo : (s.binding r).eo = none ∧ (s.binding r).eoElem = none
  emSend : ∀ (δ : Type) (cfg : Config) (core : Core) (res : Results) (event : Event δ),
    event.table = none → res.enq = 0 →
    (AcceptedOne (Send.emSend cfg core (s.sendElem r) res event) ↔
      AcceptedOne (Send.emSend cfg core (s.sendElem q) res event))
  emSendMulti : ∀ (δ : Type) (cfg : Config) (core : Core) (res : Results) (tbl : List (Event δ)),
    (∀ event ∈ tbl, event.table = none) → res.enqMulti = tbl.length →
    (AcceptedMulti (Send.emSendMulti cfg core (s.sendElem r) res tbl) ↔
      AcceptedMulti (Send.emSendMulti cfg core (s.sendElem q) res tbl))

end State

/-- A queue with an aggregator queue, and an EO. -/
private def withAggr (labels : List (Label (Fin 2) Unit Unit Unit Unit)) :
    Option (State (Fin 2) Unit Unit Unit Unit) :=
  System.exec State.step (fun _ _ _ => true) emptyState
    ([.createGroup (),
      .createQueue 0 { type := .atomic, queueGroup := some (), aggrQueues := some [1] },
      .createEo () eoParam] ++ labels)

private theorem withAggr_reachable {labels : List (Label (Fin 2) Unit Unit Unit Unit)}
    (h : (withAggr labels).isSome = true) :
    (State.machine (Fin 2) Unit Unit Unit Unit).Reachable ((withAggr labels).get h) :=
  System.ReachableVia.exec (fun _ _ _ _ => trivial) (.start emptyState_initial)
    (Option.some_get h).symm

private theorem added_isSome : (withAggr [.addQueue () 0 true true]).isSome = true := by
  decide

private theorem started_isSome : (withAggr [.addQueue () 0 true true, .start () false true true,
    .done (.startFunc () false) true .zero true fun _ => true]).isSome = true := by
  decide

end EmOdp.EoQueues
