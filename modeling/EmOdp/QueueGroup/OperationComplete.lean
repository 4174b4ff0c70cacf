import EmOdp.QueueGroup.OperationSteps

/-! When the operations on a queue group are complete as soon as they say so. -/
namespace EmOdp.QueueGroup.Operation
open Lib
variable {ι : Type} [DecidableEq ι] {m : CoreMap ι} {s t : State ι} {c d : ι}

/-- What one proper step preserves. -/
theorem inv_step {l : Label ι} (h : Inv s) (ht : s.step m l = some t) (hp : Proper m s l t) : Inv t := by
  cases l with
  | start c kind mask => exact inv_start h ht hp
  | send c => exact inv_send h ht
  | sendFails c => exact hp.elim
  | handle c => exact inv_handle h ht
  | handleShared c => exact inv_handleShared h ht
  | syncApi c => exact hp.elim
  | ret c => exact inv_ret h ht
  | queues n =>
    simp only [State.step] at ht
    split at ht
    · obtain rfl := Option.some.inj ht
      refine ⟨?_,h.counts⟩
      cases h.phase with
      | settled hs => exact .settled { hs with }
      | requested c op queued hr =>
        exact .requested c op queued { hr with only := { hr.only with } }
      | notified c op hn => exact .notified c op { hn with only := { hn.only with } }
    · cases ht

/-- In a run of proper steps, whatever is said to be complete is complete. -/
theorem operations_complete (m : CoreMap ι) (s : State ι)
    (h : (machine m).ReachableVia (Proper m) s) : Complete s :=
  (h.invariant (fun _ => inv_initial) fun _ _ _ hi hs hp => inv_step hi hs hp).complete

instance [Fintype ι] : Decidable (Idle s) :=
  decidable_of_iff ((∀ c, (s.calls c).isEmpty ∧ (s.ctrlQueue c).isEmpty) ∧ s.sharedQueue.isEmpty)
    ⟨fun h => ⟨fun c => List.isEmpty_iff.1 (h.1 c).1,fun c => List.isEmpty_iff.1 (h.1 c).2,
      List.isEmpty_iff.1 h.2⟩,fun h => by simp [h.calls, h.ctrlQueue, h.sharedQueue]⟩

instance [Fintype ι] (l : Label ι) : Decidable (Proper m s l t) := by
  cases l <;> simp only [Proper] <;> infer_instance

private theorem bothCores_nodup : [(0 : Fin 2),1].Nodup := by decide

private theorem bothCores_complete (c : Fin 2) : c ∈ [0,1] := by
  revert c
  decide

private def bothCores : CoreMap (Fin 2) := ⟨{0,1},[0,1],bothCores_nodup,bothCores_complete⟩

private def noGroup : State (Fin 2) where
  allocated := false
  ongoingDelete := false
  queues := 0
  coreMask := ∅
  schedGroup := ∅
  calls _ := []
  inProgress _ := false
  ctrlQueue _ := []
  sharedQueue := []
  evgrps _ := none
  fresh := 0

private theorem initial_noGroup : Initial noGroup := by constructor <;> intros <;> rfl

/-- Core 0 creates a group for itself and adds core 1 with a call that waits. -/
private def grown : Option (State (Fin 2)) :=
  System.exec (State.step · bothCores) (fun s l t => decide (Proper bothCores s l t)) noGroup
    [.start 0 .create {0}, .start 0 .modifySync {0,1}, .send 0, .handle 1, .handle 0]

private theorem grown_isSome : grown.isSome = true := by decide

theorem operations_complete_grown :
    (grown.get grown_isSome).schedGroup = {0,1} ∧ Complete (grown.get grown_isSome) :=
  ⟨by decide,operations_complete bothCores _ (System.ReachableVia.exec
    (fun _ _ _ => of_decide_eq_true) (.start initial_noGroup)
    (Option.some_get grown_isSome).symm)⟩

/-- `em_queue_group_create_sync` returns before core 1 has joined. -/
private def createdSync : Option (State (Fin 2)) :=
  System.exec (State.step · bothCores) (fun _ _ _ => true) noGroup
    [.start 0 .createSync {0,1}, .send 0]

private theorem createdSync_isSome : createdSync.isSome = true := by decide

/-- The mask of `em_queue_group_modify` is visible before a request is sent. -/
private def modified : Option (State (Fin 2)) :=
  System.exec (State.step · bothCores) (fun _ _ _ => true) noGroup
    [.start 0 .create {0}, .start 0 .modify {0,1}]

private theorem modified_isSome : modified.isSome = true := by decide

/-- Neither answer is right in every run. -/
theorem operations_incomplete :
    (∃ s, (machine bothCores).Reachable s ∧ ∃ c mask, Returns s c mask ∧ s.schedGroup ≠ mask) ∧
      ∃ s, (machine bothCores).Reachable s ∧ ∃ e g, s.evgrps e = some g ∧ g.kind = .modify ∧
        s.emQueueGroupMask = some g.newMask ∧ Outstanding s e := by
  refine ⟨⟨createdSync.get createdSync_isSome,System.ReachableVia.exec (fun _ _ _ _ => trivial)
      (.start initial_noGroup) (Option.some_get createdSync_isSome).symm,0,{0,1},
      ⟨⟨.createSync,{0,1},0,[]⟩,[],rfl,rfl,rfl,rfl,fun _ => rfl⟩,by decide⟩,
    ⟨modified.get modified_isSome,System.ReachableVia.exec (fun _ _ _ _ => trivial)
      (.start initial_noGroup) (Option.some_get modified_isSome).symm,0,⟨1,.modify,{0,1},0⟩,
      rfl,rfl,rfl,.inl ⟨0,⟨.modify,{0,1},0,[(1,.add)]⟩,?_,rfl,nofun⟩⟩⟩
  exact List.mem_cons_self

end EmOdp.QueueGroup.Operation
