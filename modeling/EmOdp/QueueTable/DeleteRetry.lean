import EmOdp.QueueTable.GroupRuns

/-! A delete that failed can be tried again. -/
namespace EmOdp.QueueTable
open Lib
variable {ι γ α : Type}

namespace State
variable {s t : State ι γ α} {q : ι} {destroyOk : Bool}
variable [DecidableEq ι] [DecidableEq γ] [DecidableEq α]

/-- The queue has been taken off the lists and out of the tables it was in, once. -/
structure DeletedOnce (s t : State ι γ α) (q : ι) : Prop where
  freed : (t.elem q).allocated = false
  groups : ∀ g xs, s.GroupList g xs → t.GroupList g (xs.erase q)
  atomicGroup : ∀ a, (s.elem q).atomicGroup = some a → s.agrpLinks.isEmpty (.inl a) = false →
    t.agrpLinks = s.agrpLinks.rem (.inr q) ∧
      t.agrpNumQueues = Function.update s.agrpNumQueues a (s.agrpNumQueues a - 1)
  output : (s.elem q).type = .output →
    t.outputQueueCount = s.outputQueueCount - 1 ∧
      t.outputQueueIdxFree = Function.update s.outputQueueIdxFree (s.elem q).idx true ∧
      t.argsEvents = (s.elem q).argsEvent.elim s.argsEvents s.argsEvents.erase
  others : (s.elem q).type ≠ .output → SameOutputs s t

omit [DecidableEq γ] in
private theorem removed_atomicGroup {a : α} (ha : (s.elem q).atomicGroup = some a)
    (hempty : s.agrpLinks.isEmpty (.inl a) = false) :
    (s.atomicGroupRemoveQueue q).agrpLinks = s.agrpLinks.rem (.inr q) ∧
      (s.atomicGroupRemoveQueue q).agrpNumQueues =
        Function.update s.agrpNumQueues a (s.agrpNumQueues a - 1) := by
  have hrem : s.atomicGroupRemoveQueue q =
      (s.atomicGroupRemQueueList a q).setElem q { s.elem q with atomicGroup := none } := by
    simp only [atomicGroupRemoveQueue, ha]
  rw [hrem]
  simp only [setElem, atomicGroupRemQueueList, hempty, Bool.false_eq_true, if_false, and_self]

omit [DecidableEq γ] in
private theorem destroyed_atomicGroup {a : α} (hok : (t.queueDestroy q destroyOk).2 = .ok)
    (ha : (t.elem q).atomicGroup = some a) (hempty : t.agrpLinks.isEmpty (.inl a) = false) :
    (t.queueDestroy q destroyOk).1.agrpLinks = t.agrpLinks.rem (.inr q) ∧
      (t.queueDestroy q destroyOk).1.agrpNumQueues =
        Function.update t.agrpNumQueues a (t.agrpNumQueues a - 1) := by
  simp only [queueDestroy] at hok ⊢
  split at hok
  · cases hok
  rename_i hd
  rw [if_neg hd]
  refine removed_atomicGroup (s := (t.setElem q { t.elem q with odpQueue := false }).queueFreeAggrAll
    q) ?_ hempty
  simp only [queueFreeAggrAll, elem_setElem, Function.update_self, if_true]
  split <;> exact ha

theorem deleted_once (h : s.GroupsOk) (hok : (s.queueDelete q destroyOk).2 = .ok) :
    DeletedOnce s (s.queueDelete q destroyOk).1 q := by
  rcases s.queueDelete_cases q destroyOk with ⟨-,hne,-⟩ | ⟨t,hchecked,hrelease,he⟩
  · exact absurd hok hne
  rw [he] at hok ⊢
  have hd : t.destroysOdpQueue q = true → destroyOk = true := fun hd => by
    by_contra hc
    rw [Bool.not_eq_true] at hc
    simp [queueDestroy, hd, hc] at hok
  have hfree := destroyed_not_allocated hd
  have hnot : ∀ g, ¬(t.queueDestroy q destroyOk).1.InGroup g q := fun g hc =>
    Bool.noConfusion (hfree.symm.trans hc.1)
  have hfreed := sameElems_queueDestroy t q destroyOk
  have hgroups := sameGroups_queueDestroy t q destroyOk
  have houtputs := sameOutputs_queueDestroy t q destroyOk
  have hatomic := fun a => destroyed_atomicGroup (a := a) hok
  -- a queue that is in no group is on no list
  have hkept (helems : SameElems s.elem (t.queueDestroy q destroyOk).1.elem q)
      (hsame : SameGroups s t) (hnone : ∀ g, ¬s.InGroup g q) :
      ∀ g xs, s.GroupList g xs → (t.queueDestroy q destroyOk).1.GroupList g (xs.erase q) := by
    intro g xs hxs
    rw [List.erase_of_not_mem fun hc => hnone g ((hxs.mem q).1 hc)]
    refine hxs.same (fun r => ?_) (hsame.trans hgroups)
    by_cases hr : r = q
    · subst hr
      exact iff_of_false (hnot g) (hnone g)
    · exact inGroup_iff helems hr
  rcases queueRelease_cases hrelease with ⟨htype,g,hg,-,rfl⟩ | ⟨htype,rfl⟩ | ⟨htype,rfl⟩
  · obtain ⟨hin,hempty⟩ := h.releases hchecked htype hg
    simp only [queueGroupRemQueueList, hempty, Bool.false_eq_true, if_false] at *
    refine ⟨hfree,fun g' xs hxs => ?_,hatomic,fun ho => absurd ho htype.2.2,fun _ => ?_⟩
    · exact hxs.erase h hin hnot hfreed hgroups.links hgroups.numQueues
    · exact ⟨houtputs.count,houtputs.idxFree,houtputs.argsEvents⟩
  · have helems := ((SameElems.refl s.elem q).update _).trans hfreed
    refine ⟨hfree,hkept helems ⟨rfl,rfl,rfl⟩ (not_inGroup (.inl htype)),fun a ha => ?_,
      fun _ => ?_,fun hne => absurd htype hne⟩
    · exact hatomic a (by simpa [releaseOutput] using ha)
    · exact ⟨houtputs.count,houtputs.idxFree,houtputs.argsEvents⟩
  · refine ⟨hfree,hkept hfreed (.refl t) (not_inGroup (.inr htype)),hatomic,fun ho => ?_,
      fun _ => houtputs⟩
    rcases htype with htype | htype <;> simp [htype] at ho

/-- A delete that returns an error leaves the queue table as it was unless it failed after
the release. In every state reached while no delete does, a group can be deleted exactly
when it has no queues, and a delete that is tried again removes the queue once. -/
theorem failed_delete_retry :
    (∀ (s : State ι γ α) (q : ι) (destroyOk : Bool), (s.queueDelete q destroyOk).2 ≠ .ok →
      ((s.queueDelete q destroyOk).1 = s ↔ ¬s.FailsAfterRelease q destroyOk)) ∧
    ∀ s : State ι γ α, (machine ι γ α).ReachableVia (fun s l _ => s.KeepsQueues l) s →
      (∀ g, s.queueGroupDeleteAccepted g = true ↔
        s.groupAllocated g = true ∧ ∀ q, ¬s.InGroup g q) ∧
      (∀ g, s.groupAllocated g = true → ∃ xs, s.GroupList g xs) ∧
      ∀ q first second, (s.queueDelete q first).2 ≠ .ok → ¬s.FailsAfterRelease q first →
        ((s.queueDelete q first).1.queueDelete q second).2 = .ok →
        DeletedOnce s ((s.queueDelete q first).1.queueDelete q second).1 q := by
  refine ⟨fun s q destroyOk hne => failed_delete_eq_iff hne,fun s hs => ?_⟩
  have hok := reachable_groupsOk hs
  refine ⟨fun g => hok.accepted_iff,hok.list,fun q first second hne hkeep => ?_⟩
  rw [(failed_delete_eq_iff hne).2 hkeep]
  exact deleted_once hok

end State

/-- A group with an atomic queue, and an unscheduled queue. -/
private def twoQueues : Option (State (Fin 2) Unit Unit) :=
  System.exec State.step (fun s l _ => decide (s.KeepsQueues l)) emptyTable
    [.createGroup (), .create 0 { type := .atomic, queueGroup := some () },
      .create 1 { type := .unscheduled }]

private theorem twoQueues_isSome : twoQueues.isSome = true := by decide

private theorem twoQueues_reachable :
    (machine (Fin 2) Unit Unit).ReachableVia (fun s l _ => s.KeepsQueues l)
      (twoQueues.get twoQueues_isSome) :=
  System.ReachableVia.exec (fun _ _ _ => of_decide_eq_true) (.start emptyTable_initial)
    (Option.some_get twoQueues_isSome).symm

theorem failed_delete_retry_unscheduled : ∃ s : State (Fin 2) Unit Unit,
    s.queueGroupDeleteAccepted () = false ∧ (s.queueDelete 1 false).1 = s ∧
      State.DeletedOnce s ((s.queueDelete 1 false).1.queueDelete 1 true).1 1 := by
  obtain ⟨hsame,hreach⟩ := @State.failed_delete_retry (Fin 2) Unit Unit _ _ _
  have hfail : ((twoQueues.get twoQueues_isSome).queueDelete 1 false).2 ≠ .ok := by decide
  have hkeep : ¬(twoQueues.get twoQueues_isSome).FailsAfterRelease 1 false := by decide
  refine ⟨twoQueues.get twoQueues_isSome,by decide,(hsame _ _ _ hfail).2 hkeep,?_⟩
  exact (hreach _ twoQueues_reachable).2.2 1 false true hfail hkeep (by decide)

/-- The only queue of a group is not deleted, but the group can be. -/
theorem failed_delete_loses_queue : ∃ s : State (Fin 2) Unit Unit,
    (machine (Fin 2) Unit Unit).Reachable s ∧ (s.queueDelete 0 false).2 = .libFailed ∧
      (s.queueDelete 0 false).1 ≠ s ∧ (s.queueDelete 0 false).1.InGroup () 0 ∧
      (s.queueDelete 0 false).1.queueGroupDeleteAccepted () = true := by
  refine ⟨twoQueues.get twoQueues_isSome,twoQueues_reachable.mono fun _ _ _ _ => trivial,
    by decide,fun he => ?_,?_,by decide⟩
  · have hcount := congrFun (congrArg State.numQueues he) ()
    revert hcount
    decide
  · refine ⟨?_,?_,?_⟩ <;> decide

end EmOdp.QueueTable
