import EmOdp.QueueTable.GroupLists

/-! What a delete that fails has released. -/
namespace EmOdp.QueueTable
open Lib
variable {ι γ α : Type}

namespace State
variable {s t : State ι γ α} {q : ι} {destroyOk : Bool} [DecidableEq ι] [DecidableEq γ]

section Release

/-- The ODP queue of an output queue, or of a queue whose group's list is not empty, is to
be destroyed and is not. -/
def FailsAfterRelease (s : State ι γ α) (q : ι) (destroyOk : Bool) : Prop :=
  s.DeleteChecked q ∧ s.destroysOdpQueue q = true ∧ destroyOk = false ∧
    ((s.elem q).type = .output ∨
      ((s.elem q).type ≠ .unscheduled ∧ (s.elem q).type ≠ .local_ ∧ (s.elem q).type ≠ .output) ∧
        ∃ g ∈ (s.elem q).queueGroup, s.groupAllocated g = true ∧
          s.qgrpLinks.isEmpty (.inl g) = false)

instance (s : State ι γ α) (q : ι) (destroyOk : Bool) :
    Decidable (s.FailsAfterRelease q destroyOk) := by
  unfold FailsAfterRelease DeleteChecked
  infer_instance

/-- What is released, by the type of the queue. -/
theorem queueRelease_cases (hrelease : s.queueRelease q = some t) :
    (((s.elem q).type ≠ .unscheduled ∧ (s.elem q).type ≠ .local_ ∧ (s.elem q).type ≠ .output) ∧
        ∃ g, (s.elem q).queueGroup = some g ∧ s.groupAllocated g = true ∧
          t = s.queueGroupRemQueueList g q) ∨
      ((s.elem q).type = .output ∧ t = s.releaseOutput q) ∨
      (((s.elem q).type = .unscheduled ∨ (s.elem q).type = .local_) ∧ t = s) := by
  simp only [queueRelease] at hrelease
  split at hrelease
  · rename_i htype
    split at hrelease
    · cases hrelease
    · split at hrelease <;> cases hrelease
      exact .inl ⟨htype,_,‹_›,‹_›,rfl⟩
  · rename_i htype
    split at hrelease <;> cases hrelease
    · exact .inr (.inl ⟨‹_›,rfl⟩)
    · refine .inr (.inr ⟨?_,rfl⟩)
      by_contra hc
      rw [not_or] at hc
      exact htype ⟨hc.1,hc.2,‹_›⟩

theorem destroysOdpQueue_release (hrelease : s.queueRelease q = some t) :
    t.destroysOdpQueue q = s.destroysOdpQueue q := by
  rcases queueRelease_cases hrelease with ⟨-,g,-,-,rfl⟩ | ⟨-,rfl⟩ | ⟨-,rfl⟩
  · simp only [destroysOdpQueue, queueGroupRemQueueList]
    split <;> rfl
  · simp [destroysOdpQueue, releaseOutput]
  · rfl

private theorem sub_one_ne (n : BitVec 32) : n - 1 ≠ n := by
  bv_omega

private theorem queueGroupRemQueueList_eq_iff {g : γ} :
    s.queueGroupRemQueueList g q = s ↔ s.qgrpLinks.isEmpty (.inl g) = true := by
  simp only [queueGroupRemQueueList]
  split
  · exact iff_of_true rfl ‹_›
  · refine iff_of_false (fun he => ?_) ‹_›
    have hcount := congrFun (congrArg State.numQueues he) g
    dsimp only at hcount
    rw [Function.update_self] at hcount
    exact sub_one_ne _ hcount

omit [DecidableEq γ] in
private theorem releaseOutput_ne (s : State ι γ α) (q : ι) : s.releaseOutput q ≠ s := fun he =>
  sub_one_ne _ (congrArg State.outputQueueCount he)

/-- The state is as before the release unless something was there to be released. -/
private theorem release_eq_iff (hrelease : s.queueRelease q = some t) :
    t = s ↔ ¬((s.elem q).type = .output ∨
      ((s.elem q).type ≠ .unscheduled ∧ (s.elem q).type ≠ .local_ ∧ (s.elem q).type ≠ .output) ∧
        ∃ g ∈ (s.elem q).queueGroup, s.groupAllocated g = true ∧
          s.qgrpLinks.isEmpty (.inl g) = false) := by
  rcases queueRelease_cases hrelease with ⟨htype,g,hg,halloc,rfl⟩ | ⟨htype,rfl⟩ | ⟨htype,rfl⟩
  · rw [queueGroupRemQueueList_eq_iff]
    simp [htype.1, htype.2.1, htype.2.2, hg, halloc]
  · simp [htype, releaseOutput_ne]
  · rcases htype with htype | htype <;> simp [htype]

variable [DecidableEq α]

/-- A delete that returns an error leaves everything as it was, unless the ODP queue cannot
be destroyed after the queue was released. -/
theorem failed_delete_eq_iff (h : (s.queueDelete q destroyOk).2 ≠ .ok) :
    (s.queueDelete q destroyOk).1 = s ↔ ¬s.FailsAfterRelease q destroyOk := by
  rcases s.queueDelete_cases q destroyOk with ⟨he,-,hnone⟩ | ⟨t,hchecked,hrelease,he⟩
  · refine iff_of_true he fun hf => ?_
    have hnone := hnone hf.1
    simp only [queueRelease] at hnone
    rcases hf.2.2.2 with htype | ⟨htype,g,hg,halloc,-⟩
    · simp [htype] at hnone
    · rw [Option.mem_def] at hg
      simp [htype, hg, halloc] at hnone
  · rw [he] at h ⊢
    simp only [queueDestroy] at h ⊢
    split at h
    · rename_i hd
      rw [destroysOdpQueue_release hrelease] at hd
      rw [destroysOdpQueue_release hrelease, if_pos hd, release_eq_iff hrelease]
      simp only [Bool.and_eq_true, Bool.not_eq_true'] at hd
      simp only [FailsAfterRelease, hchecked, hd, true_and]
    · exact absurd rfl h

end Release

end State

end EmOdp.QueueTable
