import Mathlib.Tactic.Common
import EmOdp.QueueTable.Machine

/-! Which queue elements the creation and the delete of a queue change. -/
namespace EmOdp.QueueTable
open Lib
variable {ι γ α : Type}

/-- The element of a queue that is not an aggregator. -/
def QueueElem.Live (e : QueueElem ι γ α) : Prop := e.allocated = true ∧ e.type ≠ .aggr

variable {f g h : ι → QueueElem ι γ α} {e : QueueElem ι γ α} {q r : ι}

/-- No queue but `q` differs, aggregators apart. -/
def SameElems (f g : ι → QueueElem ι γ α) (q : ι) : Prop :=
  ∀ r, r ≠ q → g r = f r ∨ ¬(f r).Live ∧ ¬(g r).Live

theorem SameElems.refl (f : ι → QueueElem ι γ α) (q : ι) : SameElems f f q :=
  fun _ _ => .inl rfl

theorem SameElems.trans (hfg : SameElems f g q) (hgh : SameElems g h q) : SameElems f h q := by
  intro r hr
  rcases hfg r hr with he | ⟨hf,hg⟩
  · rw [← he]
    exact hgh r hr
  · rcases hgh r hr with he | ⟨-,hh⟩
    · exact .inr ⟨hf,by rwa [he]⟩
    · exact .inr ⟨hf,hh⟩

theorem SameElems.live_iff (hfg : SameElems f g q) (hr : r ≠ q) : (g r).Live ↔ (f r).Live := by
  rcases hfg r hr with he | ⟨hf,hg⟩
  · rw [he]
  · exact iff_of_false hg hf

theorem SameElems.eq_of_live (hfg : SameElems f g q) (hr : r ≠ q) (hf : (f r).Live) : g r = f r :=
  (hfg r hr).resolve_right fun hc => hc.1 hf

/-- The setup functions change `q` and the aggregators they allocate, and not the type. -/
structure SetsUp (f g : ι → QueueElem ι γ α) (q : ι) : Prop where
  elems : SameElems f g q
  type : (g q).type = (f q).type

theorem SetsUp.refl (f : ι → QueueElem ι γ α) (q : ι) : SetsUp f f q := ⟨.refl f q,rfl⟩

theorem SetsUp.trans (hfg : SetsUp f g q) (hgh : SetsUp g h q) : SetsUp f h q :=
  ⟨hfg.elems.trans hgh.elems,hgh.type.trans hfg.type⟩

variable [DecidableEq ι]

theorem SameElems.update (hfg : SameElems f g q) (e : QueueElem ι γ α) :
    SameElems f (Function.update g q e) q :=
  hfg.trans fun _ hr => .inl (Function.update_of_ne hr _ _)

theorem SetsUp.update (hfg : SetsUp f g q) (he : e.type = (g q).type) :
    SetsUp f (Function.update g q e) q :=
  ⟨hfg.elems.update e,by rw [Function.update_self, he, hfg.type]⟩

namespace State
variable {s t : State ι γ α} {p : Create ι γ α}

@[simp] theorem elem_setElem (s : State ι γ α) (q : ι) (e : QueueElem ι γ α) :
    (s.setElem q e).elem = Function.update s.elem q e := rfl

theorem setsUp_setupAggr {aggrQueues : List ι}
    (h : ∀ r ∈ aggrQueues, (s.elem r).allocated = false ∧ r ≠ q) :
    SetsUp s.elem (s.setupAggr q aggrQueues).elem q := by
  have hq : q ∉ aggrQueues := fun hq => (h q hq).2 rfl
  refine ⟨fun r hr => ?_,by simp [setupAggr, hq]⟩
  by_cases hmem : r ∈ aggrQueues
  · refine .inr ⟨fun hs => ?_,fun ht => ht.2 ?_⟩
    · exact Bool.noConfusion ((h r hmem).1.symm.trans hs.1)
    · simp only [setupAggr, if_pos hmem]
  · left
    simp only [setupAggr, if_neg hmem, if_neg hr]

theorem sameElems_queueFreeAggrAll (s : State ι γ α) (q : ι) :
    SameElems s.elem (s.queueFreeAggrAll q).elem q := by
  intro r hr
  simp only [queueFreeAggrAll, if_neg hr]
  split
  · rename_i hfreed
    exact .inr ⟨fun hs => hs.2 hfreed.2.2.1,fun ht => Bool.noConfusion ht.1⟩
  · exact .inl rfl

theorem setsUp_takeIdx (s : State ι γ α) (q : ι) : SetsUp s.elem (s.takeIdx q).elem q := by
  simp only [takeIdx]
  split
  · exact .refl _ q
  · exact (SetsUp.refl _ q).update rfl

theorem queueFree_not_allocated (s : State ι γ α) (q : ι) :
    ((s.queueFree q).elem q).allocated = false := by
  simp [queueFree]

theorem setsUp_queueSetupUnscheduled
    (h : ∀ r ∈ p.aggrQueues.getD [], (s.elem r).allocated = false ∧ r ≠ q) :
    SetsUp s.elem (s.queueSetupUnscheduled q p).1.elem q := by
  simp only [queueSetupUnscheduled]
  split
  · exact (SetsUp.refl _ q).update rfl
  split
  · exact (SetsUp.refl _ q).update rfl
  rename_i aggrQueues haggr
  rw [haggr] at h
  refine SetsUp.trans ?_ (setsUp_setupAggr fun r hr => ?_)
  · refine SetsUp.update (.update (.refl _ q) ?_) ?_ <;> rfl
  · simp [h r hr]

theorem setsUp_queueSetupOutputArgs (s : State ι γ α) (q : ι) (p : Create ι γ α) :
    SetsUp s.elem (s.queueSetupOutputArgs q p).1.elem q := by
  have hnone : SetsUp s.elem (Function.update s.elem q { s.elem q with argsEvent := none }) q :=
    (SetsUp.refl _ q).update rfl
  simp only [queueSetupOutputArgs, errorDecCnt]
  split
  · split
    · exact hnone
    · split
      · exact hnone.update rfl
      · refine SetsUp.update (.update hnone ?_) ?_ <;> rfl
  · split
    · exact hnone
    · exact hnone.update rfl

theorem setsUp_queueSetupOutput (s : State ι γ α) (q : ι) (p : Create ι γ α) :
    SetsUp s.elem (s.queueSetupOutput q p).1.elem q := by
  simp only [queueSetupOutput, errorDecCnt]
  split
  · exact .refl _ q
  split
  · exact (SetsUp.refl _ q).update rfl
  · refine SetsUp.trans ?_ (setsUp_queueSetupOutputArgs _ q p)
    refine SetsUp.trans ?_ (setsUp_takeIdx _ q)
    exact (SetsUp.refl _ q).update rfl

section
variable [DecidableEq γ]

theorem setsUp_queueSetupScheduled
    (h : ∀ r ∈ p.aggrQueues.getD [], (s.elem r).allocated = false ∧ r ≠ q) :
    SetsUp s.elem (s.queueSetupScheduled q p).1.elem q := by
  simp only [queueSetupScheduled]
  split
  · exact .refl _ q
  split
  · exact (SetsUp.refl _ q).update rfl
  split
  · exact (SetsUp.refl _ q).update rfl
  rename_i aggrQueues haggr
  rw [haggr] at h
  refine SetsUp.trans ?_ (setsUp_setupAggr fun r hr => ?_)
  · refine SetsUp.update (.update (.refl _ q) ?_) ?_ <;> rfl
  · simp [h r hr]

theorem sameElems_queueSetup
    (h : ∀ r ∈ p.aggrQueues.getD [], (s.elem r).allocated = false ∧ r ≠ q) :
    SameElems s.elem (s.queueSetup q p).1.elem q ∧
      ((s.queueSetup q p).1.elem q).type = p.type := by
  have hcommon : SameElems s.elem (s.queueSetupCommon q p).elem q := (SameElems.refl _ q).update _
  have htype : ((s.queueSetupCommon q p).elem q).type = p.type := by simp [queueSetupCommon]
  have hfree : ∀ r ∈ p.aggrQueues.getD [],
      ((s.queueSetupCommon q p).elem r).allocated = false ∧ r ≠ q := fun r hr => by
    simp [queueSetupCommon, h r hr]
  have hsetup : SetsUp (s.queueSetupCommon q p).elem (s.queueSetup q p).1.elem q := by
    simp only [queueSetup]
    split
    · exact setsUp_queueSetupScheduled hfree
    · exact setsUp_queueSetupScheduled hfree
    · exact setsUp_queueSetupScheduled hfree
    · exact setsUp_queueSetupUnscheduled hfree
    · exact (SetsUp.refl _ q).update rfl
    · exact setsUp_queueSetupOutput _ q p
    · exact .refl _ q
    · exact .refl _ q
  exact ⟨hcommon.trans hsetup.elems,hsetup.type.trans htype⟩

end

section
variable [DecidableEq γ] [DecidableEq α]

/-- The checks of `queue_delete` on the queue itself pass. -/
def DeleteChecked (s : State ι γ α) (q : ι) : Prop :=
  (s.elem q).allocated = true ∧ (s.elem q).type ≠ .aggr ∧
    ((s.elem q).type ≠ .unscheduled → (s.elem q).type ≠ .output →
      queueStateChangeCheck (s.elem q).state .invalid false = true)

/-- The delete is refused, or the queue is released and then its ODP queue is destroyed. -/
theorem queueDelete_cases (s : State ι γ α) (q : ι) (destroyOk : Bool) :
    ((s.queueDelete q destroyOk).1 = s ∧ (s.queueDelete q destroyOk).2 ≠ .ok ∧
        (s.DeleteChecked q → s.queueRelease q = none)) ∨
      ∃ t, s.DeleteChecked q ∧ s.queueRelease q = some t ∧
        s.queueDelete q destroyOk = t.queueDestroy q destroyOk := by
  simp only [queueDelete]
  split
  · rename_i halloc
    exact .inl ⟨rfl,by simp,fun hc => by simp [hc.1] at halloc⟩
  rename_i halloc
  split
  · exact .inl ⟨rfl,by simp,fun hc => absurd ‹_› hc.2.1⟩
  rename_i haggr
  split
  · rename_i hstate
    exact .inl ⟨rfl,by simp,fun hc => by simp [hc.2.2 hstate.1 hstate.2.1] at hstate⟩
  rename_i hstate
  cases hrelease : s.queueRelease q with
  | none => exact .inl ⟨rfl,by simp,fun _ => rfl⟩
  | some t =>
    refine .inr ⟨t,⟨by simpa using halloc,haggr,fun hu ho => ?_⟩,rfl,rfl⟩
    simpa [hu, ho] using hstate

/-- The creation is refused, its setup fails, or it succeeds. -/
theorem queueCreate_cases (s : State ι γ α) (q : ι) (p : Create ι γ α) :
    (s.queueCreateCheckArgs p = false ∧ (s.queueCreate q p).1 = s) ∨
      (∃ t, s.queueSetup q p = (t,false) ∧ (s.queueCreate q p).1 = t.queueFree q) ∨
      ∃ t, s.queueCreateCheckArgs p = true ∧ s.queueSetup q p = (t,true) ∧
        ((s.queueCreate q p).1 = t ∨
          ∃ a, (s.queueCreate q p).1 = t.atomicGroupAddQueueList a q) := by
  simp only [queueCreate]
  cases hcheck : s.queueCreateCheckArgs p with
  | false => exact .inl ⟨rfl,rfl⟩
  | true =>
    right
    simp only [Bool.not_true, Bool.false_eq_true, if_false]
    rcases hsetup : s.queueSetup q p with ⟨t,_ | _⟩
    · exact .inl ⟨t,rfl,rfl⟩
    · refine .inr ⟨t,trivial,rfl,?_⟩
      cases p.atomicGroup with
      | none => exact .inl rfl
      | some a =>
        cases p.createAg with
        | false => exact .inl rfl
        | true => exact .inr ⟨a,rfl⟩

end

section
variable [DecidableEq α] {destroyOk : Bool}

theorem sameElems_atomicGroupRemoveQueue (s : State ι γ α) (q : ι) :
    SameElems s.elem (s.atomicGroupRemoveQueue q).elem q := by
  simp only [atomicGroupRemoveQueue]
  split
  · exact .refl _ q
  · refine SameElems.update ?_ _
    simp only [atomicGroupRemQueueList]
    split <;> exact .refl _ q

theorem sameElems_queueDestroy (s : State ι γ α) (q : ι) (destroyOk : Bool) :
    SameElems s.elem (s.queueDestroy q destroyOk).1.elem q := by
  simp only [queueDestroy]
  split
  · exact .refl _ q
  · refine SameElems.update ?_ _
    refine SameElems.trans ?_ (sameElems_atomicGroupRemoveQueue _ q)
    refine SameElems.trans ?_ (sameElems_queueFreeAggrAll _ q)
    exact (SameElems.refl _ q).update _

/-- The queue is freed where its ODP queue is destroyed or there is none to destroy. -/
theorem destroyed_not_allocated (h : s.destroysOdpQueue q = true → destroyOk = true) :
    ((s.queueDestroy q destroyOk).1.elem q).allocated = false := by
  have hok : (s.destroysOdpQueue q && !destroyOk) = false := by
    cases hd : s.destroysOdpQueue q
    · rfl
    · simp [h hd]
  simp only [queueDestroy, hok, Bool.false_eq_true, if_false]
  exact queueFree_not_allocated _ q

end

end State

end EmOdp.QueueTable
