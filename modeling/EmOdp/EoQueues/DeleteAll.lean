import EmOdp.EoQueues.Quiet

/-! The queues of an EO are deleted with it. -/
namespace EmOdp.EoQueues
open Lib QueueTable
variable {ι γ α ε ρ : Type}

namespace State
variable {s t : State ι γ α ε ρ} {e : ε} {q : ι} {destroyOk : ι → Bool}

/-- The queue group of the queue is there, and its ODP queue can be destroyed. -/
def Deletable (s : State ι γ α ε ρ) (q : ι) (destroyOk : ι → Bool) : Prop :=
  ((s.tbl.elem q).type = .local_ ∨
    ∃ g, (s.tbl.elem q).queueGroup = some g ∧ s.tbl.groupAllocated g = true) ∧
  (s.tbl.destroysOdpQueue q = true → destroyOk q = true)

variable [DecidableEq ι] [DecidableEq γ] [DecidableEq α] [DecidableEq ε]

/-- A queue that is disabled is removed from its EO and deleted. -/
structure RemDeleted (s : State ι γ α ε ρ) (r : State ι γ α ε ρ × Status) (q : ι)
    (destroyOk : ι → Bool) : Prop where
  ok : r.2 = .ok ↔ s.Deletable q destroyOk
  freed : r.2 = .ok → (r.1.tbl.elem q).allocated = false
  free : ∀ p, (s.tbl.elem p).allocated = false → (r.1.tbl.elem p).allocated = false
  other : ∀ p, p ≠ q → ofEo (s.tbl.elem p).type = true → r.1.tbl.elem p = s.tbl.elem p
  groups : r.1.tbl.groupAllocated = s.tbl.groupAllocated

theorem eoRemDeleteQueue_remDeleted (hinv : s.Inv) (hq : q ∈ (s.eoElem e).queueList)
    (hbind : (s.tbl.elem q).state = .bind) :
    s.RemDeleted (s.eoRemDeleteQueue e q destroyOk) q destroyOk := by
  obtain ⟨htype,hactive⟩ := hinv.linked.active_of_mem hq
  have halloc := hinv.linked.allocated hactive
  have hrem := eoRemQueue_ok (s := s) (e := e) hbind
  have heq : s.eoRemDeleteQueue e q destroyOk = (s.eoRemQueue e q).1.queueDelete q destroyOk := by
    simp [eoRemDeleteQueue, hrem]
  have helem : (s.eoRemQueue e q).1.tbl.elem = Function.update s.tbl.elem q
      { s.tbl.elem q with state := .init } := by
    rw [hrem]
    rfl
  have hgroups : (s.eoRemQueue e q).1.tbl.groupAllocated = s.tbl.groupAllocated := by
    rw [hrem]
    rfl
  generalize (s.eoRemQueue e q).1 = t at heq helem hgroups
  have hself : t.tbl.elem q = { s.tbl.elem q with state := .init } := by
    rw [helem, Function.update_self]
  have hcheck : t.tbl.DeleteChecked q := by
    refine ⟨by rw [hself]; exact halloc,?_,fun _ _ => ?_⟩
    · rw [hself]
      exact (IsParent.of_ofEo halloc htype).2
    · rw [hself]
      exact check_invalid.2 rfl
  have hrelease : t.tbl.queueRelease q ≠ none ↔ (s.tbl.elem q).type = .local_ ∨
      ∃ g, (s.tbl.elem q).queueGroup = some g ∧ s.tbl.groupAllocated g = true := by
    simp only [QueueTable.State.queueRelease, hself, hgroups]
    cases ht : (s.tbl.elem q).type <;> simp [ht, ofEo] at htype <;>
      cases hg : (s.tbl.elem q).queueGroup <;> simp
  have hok : (s.eoRemDeleteQueue e q destroyOk).2 = .ok ↔ s.Deletable q destroyOk := by
    rw [heq, Deletable, ← hrelease, show s.tbl.destroysOdpQueue q = t.tbl.destroysOdpQueue q by
      simp [QueueTable.State.destroysOdpQueue, hself], ← QueueTable.State.queueDelete_ok_iff hcheck]
    simp only [State.queueDelete]
    cases (t.tbl.queueDelete q (destroyOk q)).2 <;> simp [Status.ofQueue]
  have hother : ∀ p, p ≠ q → t.tbl.elem p = s.tbl.elem p := fun p hp => by
    rw [helem, Function.update_of_ne hp]
  have hdeleted := t.tbl.queueDelete_deleted q (destroyOk q)
  refine ⟨hok,fun hr => ?_,fun p hp => ?_,fun p hpq hp => ?_,?_⟩
  · rcases hdeleted with ⟨hne,-⟩ | ⟨-,-,hdel⟩
    · rw [heq] at hr
      simp only [State.queueDelete] at hr
      cases hs : (t.tbl.queueDelete q (destroyOk q)).2 <;> rw [hs] at hr hne <;>
        first | exact absurd rfl hne | cases hr
    · rw [heq]
      exact hdel.allocated
  · have hpq : p ≠ q := by
      rintro rfl
      cases hp.symm.trans halloc
    rw [heq]
    rcases hdeleted with ⟨-,argsEvent,hsame⟩ | ⟨-,-,hdel⟩
    · simp only [State.queueDelete, hsame, Function.update_of_ne hpq, hother p hpq]
      exact hp
    · rcases hdel.aggrOrOther p hpq with hsame | ⟨hfreed,-⟩
      · simp only [State.queueDelete, hsame, hother p hpq]
        exact hp
      · exact congrArg QueueElem.allocated hfreed
  · rw [heq]
    rcases hdeleted with ⟨-,argsEvent,hsame⟩ | ⟨-,-,hdel⟩
    · simp only [State.queueDelete, hsame, Function.update_of_ne hpq, hother p hpq]
    · rcases hdel.aggrOrOther p hpq with hsame | ⟨-,haggr⟩
      · simp only [State.queueDelete, hsame, hother p hpq]
      · rw [hother p hpq] at haggr
        rw [haggr] at hp
        cases hp
  · rw [heq, ← hgroups]
    exact QueueTable.State.queueDelete_groupAllocated _ _ _

omit [DecidableEq γ] [DecidableEq α] [DecidableEq ε] [DecidableEq ι]

/-- The queues `ys` of the EO have been deleted. -/
structure Deleting (s t : State ι γ α ε ρ) (e : ε) (ys : List ι) : Prop where
  inv : t.Inv
  rest : ∀ zs, (s.eoElem e).queueList = ys ++ zs → (t.eoElem e).queueList = zs ∧
    ∀ q ∈ zs, t.tbl.elem q = s.tbl.elem q
  groups : t.tbl.groupAllocated = s.tbl.groupAllocated
  freed : ∀ q ∈ ys, (t.tbl.elem q).allocated = false

theorem Deleting.start (h : s.Inv) (e : ε) : s.Deleting s e [] :=
  ⟨h,fun _ hzs => ⟨hzs,fun _ _ => rfl⟩,rfl,fun _ hq => absurd hq List.not_mem_nil⟩

variable [DecidableEq ι] [DecidableEq γ] [DecidableEq α] [DecidableEq ε]

theorem Deleting.queue {ys zs : List ι} {y : ι} (h : s.Deleting t e ys)
    (hbind : ∀ q ∈ (s.eoElem e).queueList, (s.tbl.elem q).state = .bind)
    (hxs : (s.eoElem e).queueList = ys ++ y :: zs) (destroyOk : ι → Bool) :
    ((t.eoRemDeleteQueue e y destroyOk).2 = .ok ↔ s.Deletable y destroyOk) ∧
      ((t.eoRemDeleteQueue e y destroyOk).2 = .ok →
        s.Deleting (t.eoRemDeleteQueue e y destroyOk).1 e (ys ++ [y])) := by
  obtain ⟨hlist,helem⟩ := h.rest (y :: zs) hxs
  have hy : y ∈ (t.eoElem e).queueList := hlist ▸ List.mem_cons_self
  have hys := helem y List.mem_cons_self
  have hybind : (t.tbl.elem y).state = .bind := by
    rw [hys]
    exact hbind y (hxs ▸ List.mem_append_right _ List.mem_cons_self)
  have hrem : t.RemDeleted (t.eoRemDeleteQueue e y destroyOk) y destroyOk :=
    eoRemDeleteQueue_remDeleted h.inv hy hybind
  have hnodup : (y :: zs).Nodup := hlist ▸ h.inv.linked.nodup e
  refine ⟨hrem.ok.trans ?_,fun hok => ⟨?_,fun zs' hzs' => ?_,hrem.groups.trans h.groups,fun q hq => ?_⟩⟩
  · simp only [Deletable, QueueTable.State.destroysOdpQueue, hys, h.groups]
  · have hst : Changes {} t (t.eoRemDeleteQueue e y destroyOk).1 :=
      eoRemDeleteQueue_changes (fun hc => absurd hc Bool.false_ne_true) destroyOk
    exact h.inv.changes hst
  · rw [hxs, ← List.singleton_append, ← List.append_assoc] at hzs'
    rw [← List.append_cancel_left hzs', eoRemDeleteQueue_eoElem, eoRemQueue_ok hybind]
    refine ⟨by simp [hlist],fun q hq => ?_⟩
    have hmem : q ∈ (t.eoElem e).queueList := hlist ▸ List.mem_cons_of_mem _ hq
    rw [hrem.other q ?_ (h.inv.linked.active_of_mem hmem).1, helem q (List.mem_cons_of_mem _ hq)]
    rintro rfl
    exact (List.nodup_cons.1 hnodup).1 hq
  · rcases List.mem_append.1 hq with hq | hq
    · exact hrem.free q (h.freed q hq)
    · rw [List.mem_singleton.1 hq]
      exact hrem.freed hok

/-- When the loop has come to its end, all queues are deleted. -/
theorem eoDeleteQueueAll_deleting (hinv : s.Inv)
    (hbind : ∀ q ∈ (s.eoElem e).queueList, (s.tbl.elem q).state = .bind)
    (hok : (s.eoDeleteQueueAll e destroyOk).2 = .ok) :
    s.Deleting (s.eoDeleteQueueAll e destroyOk).1 e (s.eoElem e).queueList :=
  forEach_good (R := Status) (I := fun ys t => s.Deleting t e ys) (.start hinv e)
    (fun _ _ _ _ hxs ht hgood => (ht.queue hbind hxs destroyOk).2 hgood) hok

theorem eoDeleteQueueAll_ok_iff (hinv : s.Inv)
    (hbind : ∀ q ∈ (s.eoElem e).queueList, (s.tbl.elem q).state = .bind) :
    (s.eoDeleteQueueAll e destroyOk).2 = .ok ↔
      ∀ q ∈ (s.eoElem e).queueList, s.Deletable q destroyOk := by
  constructor
  · intro hok
    refine forEach_good (R := Status) (I := fun ys t => s.Deleting t e ys ∧
      ∀ q ∈ ys, s.Deletable q destroyOk) ⟨.start hinv e,fun _ hq => absurd hq List.not_mem_nil⟩
      (fun ys y zs t hxs ht hgood => ?_) hok |>.2
    obtain ⟨hiff,hnext⟩ := ht.1.queue hbind hxs destroyOk
    refine ⟨hnext hgood,fun q hq => ?_⟩
    rcases List.mem_append.1 hq with hq | hq
    · exact ht.2 q hq
    · rw [List.mem_singleton.1 hq]
      exact hiff.1 hgood
  · intro hall
    refine (forEach_complete (R := Status) (I := fun ys t => s.Deleting t e ys) (.start hinv e)
      fun ys y zs t hxs ht => ?_).1
    obtain ⟨hiff,hnext⟩ := ht.queue hbind hxs destroyOk
    have hok := hiff.2 (hall y (hxs ▸ List.mem_append_right _ List.mem_cons_self))
    exact ⟨hok,hnext hok⟩

end State
end EmOdp.EoQueues
