import EmOdp.EoQueues.Calls

/-! The records of EOs and queues agree, as long as no done callback removes a queue from the
list of another EO. -/
namespace EmOdp.EoQueues
open Lib QueueTable
open EoStart (EoState)
variable {ι γ α ε ρ : Type}

namespace State
variable {s t u : State ι γ α ε ρ} {e : ε} {q r : ι} {c : Limits}

/-- The queues of the list got the state, and nothing else has changed for the queues that an EO
can have. -/
structure Switched (s t : State ι γ α ε ρ) (xs : List ι) (state : QueueState) : Prop where
  eoElem : t.eoElem = s.eoElem
  binding : t.binding = s.binding
  pending : t.pending = s.pending
  groups : t.tbl.groupAllocated = s.tbl.groupAllocated
  same : ∀ q, ∃ state, t.tbl.elem q = { s.tbl.elem q with state }
  inList : ∀ q ∈ xs, (t.tbl.elem q).state = state
  other : ∀ q, ofEo (s.tbl.elem q).type = true → q ∉ xs → (t.tbl.elem q).state = (s.tbl.elem q).state

theorem Switched.refl (s : State ι γ α ε ρ) (state : QueueState) : s.Switched s [] state :=
  ⟨rfl,rfl,rfl,rfl,fun _ => ⟨_,rfl⟩,(fun _ hq => nomatch hq),fun _ _ _ => rfl⟩

theorem Switched.type {xs : List ι} {state : QueueState} (h : s.Switched t xs state) (q : ι) :
    (t.tbl.elem q).type = (s.tbl.elem q).type := by
  obtain ⟨_,hq⟩ := h.same q
  rw [hq]

theorem Switched.append {xs : List ι} {y : ι} {state : QueueState} (h : s.Switched t xs state)
    (hy : t.Switched u [y] state) (htype : ∀ q ∈ xs, ofEo (s.tbl.elem q).type = true) :
    s.Switched u (xs ++ [y]) state := by
  constructor
  · rw [hy.eoElem, h.eoElem]
  · rw [hy.binding, h.binding]
  · rw [hy.pending, h.pending]
  · rw [hy.groups, h.groups]
  · intro q
    obtain ⟨_,hst⟩ := h.same q
    obtain ⟨state,hu⟩ := hy.same q
    exact ⟨state,by rw [hu, hst]⟩
  · intro q hq
    by_cases hqy : q = y
    · exact hqy ▸ hy.inList y (List.mem_singleton_self y)
    · have hmem : q ∈ xs := by simpa [hqy] using hq
      rw [hy.other q (h.type q ▸ htype q hmem) (by simpa using hqy)]
      exact h.inList q hmem
  · intro q htype hq
    simp only [List.mem_append, not_or] at hq
    rw [hy.other q (h.type q ▸ htype) hq.2]
    exact h.other q htype hq.1

variable [DecidableEq ι] [DecidableEq γ] [DecidableEq α] [DecidableEq ε]

omit [DecidableEq γ] [DecidableEq α] [DecidableEq ε] in
theorem queueStateSet_switched {state : QueueState} (h : s.Inv) (hnew : Active state)
    (hactive : Active (s.tbl.elem q).state) (htype : ofEo (s.tbl.elem q).type = true) :
    (s.queueStateSet state q).2 = .ok ∧ s.Switched (s.queueStateSet state q).1 [q] state := by
  have hq := IsParent.of_ofEo (h.linked.allocated hactive) htype
  rcases s.queueStateSet_cases state hnew q with ⟨hno,-⟩ | ⟨-,hsame,heq⟩ | ⟨-,heq⟩
  · exact absurd hactive hno
  · rw [heq]
    refine ⟨rfl,rfl,rfl,rfl,rfl,fun _ => ⟨_,rfl⟩,fun r hr => ?_,fun _ _ _ => rfl⟩
    rw [List.mem_singleton.1 hr]
    exact hsame
  · have helem : ∀ r, (s.setQueueState q state).tbl.elem r =
        if r = q ∨ r ∈ (s.tbl.elem q).aggrQueues then { s.tbl.elem r with state } else s.tbl.elem r :=
      fun _ => rfl
    rw [heq]
    refine ⟨rfl,rfl,rfl,rfl,rfl,fun r => ?_,fun r hr => ?_,fun r hr hrq => ?_⟩
    · rw [helem]
      split <;> exact ⟨_,rfl⟩
    · rw [helem, if_pos (.inl (List.mem_singleton.1 hr))]
    · rw [helem, if_neg]
      rintro (hc | hmem)
      · exact hrq (List.mem_singleton.2 hc)
      · rw [(h.family.child q r hq hmem).elem.type] at hr
        cases hr

theorem queueStateChangeAll_switched {state : QueueState} (h : s.Inv) (hnew : Active state) :
    (s.queueStateChangeAll e state).2 = .ok ∧
      s.Switched (s.queueStateChangeAll e state).1 (s.eoElem e).queueList state := by
  have htype : ∀ q ∈ (s.eoElem e).queueList, ofEo (s.tbl.elem q).type = true := fun q hq =>
    ((h.linked.bound q).1 ⟨e,(h.linked.mem e q).1 hq⟩).1
  have hloop : (s.queueStateChangeAll e state).2 = .ok ∧
      (s.queueStateChangeAll e state).1.Inv ∧
        s.Switched (s.queueStateChangeAll e state).1 (s.eoElem e).queueList state := by
    refine forEach_complete (R := Status) (I := fun ys t => t.Inv ∧ s.Switched t ys state)
      ⟨h,Switched.refl s state⟩ ?_
    rintro ys y zs t hxs ⟨ht,hst⟩
    have hy : y ∈ (t.eoElem e).queueList := by
      rw [hst.eoElem, hxs]
      simp
    obtain ⟨htype',hactive⟩ := (ht.linked.bound y).1 ⟨e,(ht.linked.mem e y).1 hy⟩
    obtain ⟨hok,hset⟩ := queueStateSet_switched ht hnew hactive htype'
    have hchanges : Changes {} t (t.queueStateSet state y).1 :=
      queueStateSet_changes hnew nofun (ht.linked.allocated hactive) htype'
    refine ⟨hok,ht.changes hchanges,hst.append hset fun q hq => htype q ?_⟩
    rw [hxs]
    exact List.mem_append_left _ hq
  exact ⟨hloop.1,hloop.2.2⟩

theorem queueEnableAll_switched (h : s.Inv) (he : (s.eoElem e).allocated = true) :
    (s.queueEnableAll e).2 = .ok ∧ s.Switched (s.queueEnableAll e).1 (s.eoElem e).queueList .ready := by
  unfold queueEnableAll
  rw [he]
  exact queueStateChangeAll_switched h (.inr rfl)

theorem queueDisableAll_switched (h : s.Inv) (he : (s.eoElem e).allocated = true) :
    (s.queueDisableAll e).2 = .ok ∧ s.Switched (s.queueDisableAll e).1 (s.eoElem e).queueList .bind := by
  unfold queueDisableAll
  rw [he]
  exact queueStateChangeAll_switched h (.inl rfl)

/-- `num_queues` of each EO -/
def Counted (s : State ι γ α ε ρ) : Prop :=
  ∀ e, (s.eoElem e).numQueues = BitVec.ofNat 32 (s.eoElem e).queueList.length

/-- A queue is added and removed by its own EO. -/
theorem Counted.change (hc : c.own = true) (h : s.Counted) (hl : s.Linked) (hst : Change c s t) :
    t.Counted := by
  cases hst with
  | @createQueue q p _ hcheck =>
    rw [queueCreate_eq hcheck]
    exact h
  | pktinQueue => exact h
  | deleteQueue => exact h
  | createGroup => exact h
  | deleteGroup => exact h
  | setState => exact h
  | @addQueue e q _ _ _ hstate =>
    rw [eoAddQueue_ok hstate]
    intro d
    by_cases hd : d = e
    · subst hd
      simp only [Function.update_self, List.length_append, List.length_singleton, h d]
      rw [BitVec.ofNat_add]
      rfl
    · simp only [Function.update_of_ne hd]
      exact h d
  | @removeQueue e q hstate hown =>
    rw [eoRemQueue_ok hstate]
    intro d
    by_cases hd : d = e
    · subst hd
      have hmem := (hl.mem d q).2 (hown hc)
      have hlen := List.length_erase_of_mem hmem
      have hpos := List.length_pos_of_mem hmem
      simp only [if_true, h d, hlen]
      rw [show (s.eoElem d).queueList.length = ((s.eoElem d).queueList.length - 1) + 1 by omega,
        BitVec.ofNat_add, Nat.add_sub_cancel]
      exact BitVec.add_sub_cancel _ _
    · have hnot : q ∉ (s.eoElem d).queueList := fun hmem =>
        hd (Option.some.inj (((hl.mem d q).1 hmem).symm.trans (hown hc)))
      simp only [if_neg hd, List.erase_of_not_mem hnot]
      exact h d
  | @setEo e x hlist hnum =>
    intro d
    simp only [State.setEo]
    by_cases hd : d = e
    · rw [hd, Function.update_self]
      rcases hnum with hnum | hnum
      · exact hnum
      · rw [hnum, hlist]
        exact h e
    · rw [Function.update_of_ne hd]
      exact h d
  | pending => exact h

theorem Counted.changes (hc : c.own = true) (h : s.Counted) (hinv : s.Inv) (hst : Changes c s t) :
    t.Counted ∧ t.Inv := by
  induction hst with
  | refl => exact ⟨h,hinv⟩
  | tail _ hst ih => exact ⟨ih.1.change hc ih.2.linked hst,ih.2.changes (.single hst)⟩

/-- The queues of an EO are all switched to the state, or the call is refused. -/
def AllOrNone (s : State ι γ α ε ρ) (e : ε) (r : State ι γ α ε ρ × Status) (state : QueueState) :
    Prop :=
  (s.eoElem e).allocated = false ∧ r = (s,.badId) ∨
    r.2 = .ok ∧ r.1.eoElem = s.eoElem ∧ ∀ q ∈ (s.eoElem e).queueList, (r.1.tbl.elem q).state = state

/-- What the records of EOs and queues say of each other. -/
structure RecordsAgree (s : State ι γ α ε ρ) : Prop where
  states : ∀ q, ofEo (s.tbl.elem q).type = true → Active (s.tbl.elem q).state ∨
    (s.tbl.elem q).state = .init ∨ (s.tbl.elem q).state = .invalid
  linked : ∀ q, ofEo (s.tbl.elem q).type = true → Active (s.tbl.elem q).state →
    ∃ e, (s.eoElem e).allocated = true ∧ (s.binding q).To e (s.eoElem e) ∧
      ∀ d, (s.eoElem d).queueList.count q = if d = e then 1 else 0
  unlinked : ∀ q, ofEo (s.tbl.elem q).type = true →
    (s.tbl.elem q).state = .init ∨ (s.tbl.elem q).state = .invalid →
    ∀ e, q ∉ (s.eoElem e).queueList
  members : ∀ e, ∀ q ∈ (s.eoElem e).queueList, (s.tbl.elem q).allocated = true ∧
    ofEo (s.tbl.elem q).type = true ∧ Active (s.tbl.elem q).state
  numQueues : s.Counted
  enableAll : ∀ e, s.AllOrNone e (s.queueEnableAll e) .ready
  disableAll : ∀ e, s.AllOrNone e (s.queueDisableAll e) .bind

theorem Inv.recordsAgree (h : s.Inv) (hcount : s.Counted) : s.RecordsAgree := by
  constructor
  · intro q htype
    cases halloc : (s.tbl.elem q).allocated with
    | true => exact (h.linked.state q halloc htype).symm.imp_right .inl
    | false => exact .inr (.inr (h.linked.free q halloc))
  · intro q htype hactive
    obtain ⟨e,he⟩ := (h.linked.bound q).2 ⟨htype,hactive⟩
    have hmem := (h.linked.mem e q).2 he
    refine ⟨e,h.linked.eo e (List.ne_nil_of_mem hmem),h.linked.binding e q hmem,fun d => ?_⟩
    split
    · rename_i hd
      subst hd
      exact List.count_eq_one_of_mem (h.linked.nodup d) hmem
    · rename_i hd
      refine List.count_eq_zero_of_not_mem fun hmem' => hd ?_
      exact Option.some.inj (((h.linked.mem d q).1 hmem').symm.trans he)
  · intro q _ hstate e hmem
    have hactive := ((h.linked.bound q).1 ⟨e,(h.linked.mem e q).1 hmem⟩).2
    rcases hstate with hstate | hstate <;> rw [hstate] at hactive <;>
      rcases hactive with hc | hc <;> cases hc
  · intro e q hmem
    have hbound := (h.linked.bound q).1 ⟨e,(h.linked.mem e q).1 hmem⟩
    exact ⟨h.linked.allocated hbound.2,hbound⟩
  · exact hcount
  · intro e
    cases he : (s.eoElem e).allocated with
    | true =>
      obtain ⟨hok,hst⟩ := queueEnableAll_switched h he
      exact .inr ⟨hok,hst.eoElem,hst.inList⟩
    | false => exact .inl ⟨he,by simp [queueEnableAll, he]⟩
  · intro e
    cases he : (s.eoElem e).allocated with
    | true =>
      obtain ⟨hok,hst⟩ := queueDisableAll_switched h he
      exact .inr ⟨hok,hst.eoElem,hst.inList⟩
    | false => exact .inl ⟨he,by simp [queueDisableAll, he]⟩

/-- In runs in which done callbacks of removals find the queue in their own EO, if it is in one,
the records agree. -/
theorem records_agree (h : (machine ι γ α ε ρ).ReachableVia (fun s l _ => ¬s.Foreign l) s) :
    s.RecordsAgree := by
  have hboth := h.invariant (I := fun s => s.Counted ∧ s.Inv) (fun s hi => ?_) fun s l t hs hst hno => ?_
  · exact hboth.2.recordsAgree hboth.1
  · refine ⟨fun e => ?_,Initial.linked hi,Initial.family hi⟩
    rw [hi.eos]
    rfl
  · exact hs.1.changes rfl hs.2 (step_changes { own := true } hs.2 hst (fun _ => hno) nofun rfl nofun)

end State

/-- A queue is removed from an EO in two calls, the first is done, and the queue is added to
another EO. -/
private def removedTwice : List (Label (Fin 1) Unit Unit (Fin 2) Unit) :=
  [.createGroup (), .createQueue 0 { type := .atomic, queueGroup := some () },
    .createEo 0 eoParam, .createEo 1 eoParam, .addQueue 0 0 true true,
    .removeQueue 0 0 true .some, .removeQueue 0 0 true .some,
    .done (.removeQueue 0 0) true .zero true (fun _ => true), .addQueue 1 0 true true]

private def beforeCallback : Option (State (Fin 1) Unit Unit (Fin 2) Unit) :=
  System.exec State.step (fun s l _ => decide (¬s.Foreign l)) emptyState removedTwice

private theorem beforeCallback_isSome : beforeCallback.isSome = true := by decide

private theorem beforeCallback_reachable :
    (State.machine (Fin 1) Unit Unit (Fin 2) Unit).ReachableVia (fun s l _ => ¬s.Foreign l)
      (beforeCallback.get beforeCallback_isSome) :=
  System.ReachableVia.exec (fun _ _ _ => of_decide_eq_true) (.start emptyState_initial)
    (Option.some_get beforeCallback_isSome).symm

theorem records_agree_moved : ∃ s : State (Fin 1) Unit Unit (Fin 2) Unit,
    (s.binding 0).eo = some 1 ∧ Pending.removeQueue 0 0 ∈ s.pending ∧ s.RecordsAgree :=
  ⟨_,by decide,by decide,State.records_agree beforeCallback_reachable⟩

private theorem afterCallback_isSome : (System.exec State.step (fun _ _ _ => true) emptyState
    (removedTwice ++ [.done (.removeQueue 0 0) true .zero true (fun _ => true)])).isSome = true := by
  decide

/-- The second callback takes the queue out of the list of the other EO. -/
theorem second_callback_breaks_records : ¬∀ s : State (Fin 1) Unit Unit (Fin 2) Unit,
    (State.machine (Fin 1) Unit Unit (Fin 2) Unit).Reachable s → s.RecordsAgree := by
  intro hall
  have hcount := (hall _ (System.ReachableVia.exec (fun _ _ _ _ => trivial)
    (.start emptyState_initial) (Option.some_get afterCallback_isSome).symm)).numQueues 1
  revert hcount
  decide

end EmOdp.EoQueues
