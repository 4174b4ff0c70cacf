import EmOdp.QueueTable.OutputCreate

/-! The output queues over runs of creations and deletes. -/
namespace EmOdp.QueueTable
open Lib
variable {ι γ α : Type}

namespace State
variable {s t : State ι γ α} {q : ι}

private theorem ok_initial [Fintype ι] (hi : Initial s) : s.OutputsOk := by
  have hnone : ∀ q, ¬s.IsOutput q := fun q hc => by
    have := hc.1
    rw [hi.elem q] at this
    cases this
  have hfilter : Finset.univ.filter s.IsOutput = ∅ := by simp [hnone]
  refine ⟨?_,fun i => ?_,fun q _ hq => absurd hq (hnone q),fun e => ?_,
    fun q _ _ hq => absurd hq (hnone q)⟩
  · rw [hi.count, hfilter]
    rfl
  · refine iff_of_false (by simp [hi.idxFree i]) ?_
    rintro ⟨q,hq,-⟩
    exact hnone q hq
  · refine iff_of_false (by simp [hi.argsEvents]) ?_
    rintro ⟨q,hq,-⟩
    exact hnone q hq

section
variable [DecidableEq ι]

section Delete
variable [DecidableEq α] {destroyOk : Bool}

variable [DecidableEq γ]

private theorem ok_delete [Fintype ι] (h : s.OutputsOk)
    (hcond : s.IsOutput q → s.destroysOdpQueue q = true → destroyOk = true) :
    (s.queueDelete q destroyOk).1.OutputsOk := by
  rcases s.queueDelete_cases q destroyOk with ⟨he,-⟩ | ⟨t,hchecked,hrelease,he⟩
  · rw [he]
    exact h
  rw [he]
  have hsame := sameOutputs_queueDestroy t q destroyOk
  have hfreed := sameElems_queueDestroy t q destroyOk
  by_cases hout : (s.elem q).type = .output
  · -- the output queue is counted out and its index and arguments are released
    have hq : s.IsOutput q := ⟨hchecked.1,hout⟩
    obtain rfl : s.releaseOutput q = t := by simpa [queueRelease, hout] using hrelease
    have hnot : ¬((s.releaseOutput q).queueDestroy q destroyOk).1.IsOutput q := fun hc => by
      refine Bool.noConfusion ((destroyed_not_allocated fun hd => hcond hq ?_).symm.trans hc.1)
      simpa [destroysOdpQueue, releaseOutput] using hd
    refine h.remove hq hnot hsame.count (fun j => ?_) ?_ fun e => ?_
    · rw [hsame.idxFree]
      simp only [releaseOutput, Function.update_apply]
    · exact SameElems.trans ((SameElems.refl _ q).update _) hfreed
    · rw [hsame.argsEvents]
      cases hargs : (s.elem q).argsEvent with
      | none => simp [releaseOutput, hargs]
      | some e' => simp [releaseOutput, hargs, and_comm, eq_comm]
  · have hq : ¬s.IsOutput q := fun hc => hout hc.2
    have helem : t.elem = s.elem ∧ SameOutputs s t := by
      simp only [queueRelease] at hrelease
      repeat' split at hrelease
      all_goals cases hrelease
      · simp only [queueGroupRemQueueList]
        split
        · exact ⟨rfl,.refl s⟩
        · exact ⟨rfl,rfl,rfl,rfl⟩
      · exact ⟨rfl,.refl s⟩
    rw [helem.1] at hfreed
    refine h.same hq (fun hc => ?_) hfreed (helem.2.trans hsame)
    -- the type of a queue that is not freed is as before
    by_cases hd : t.destroysOdpQueue q = true → destroyOk = true
    · exact Bool.noConfusion ((destroyed_not_allocated hd).symm.trans hc.1)
    · rw [Classical.not_imp] at hd
      simp only [queueDestroy, hd.1, Bool.true_and] at hc
      rw [if_pos (by simpa using hd.2), IsOutput, helem.1] at hc
      exact hq hc

end Delete

section Run
variable [DecidableEq γ] [DecidableEq α]

/-- No creation of an output queue fails after its index is taken, and no ODP queue of an
output queue fails to be destroyed. -/
def OutputCalleesOk (s : State ι γ α) : Label ι γ α → Prop
  | .create _ p => p.type = .output → s.queueCreateCheckArgs p = true →
      s.outputQueueCount < BitVec.ofNat 32 emMaxOutputQueues → p.CalleesOk
  | .delete q destroyOk => s.IsOutput q → s.destroysOdpQueue q = true → destroyOk = true
  | _ => True

instance (s : State ι γ α) (l : Label ι γ α) : Decidable (s.OutputCalleesOk l) :=
  match l with
  | .create _ p => inferInstanceAs (Decidable (p.type = .output → _ → _ → p.CalleesOk))
  | .delete q _ => inferInstanceAs (Decidable (s.IsOutput q → _ → _))
  | .pktinQueue .. | .setState .. | .createGroup _ | .deleteGroup _ => inferInstanceAs (Decidable True)

private theorem ok_step [Fintype ι] {l : Label ι γ α} (h : s.OutputsOk) (ht : s.step l = some t)
    (hcond : s.OutputCalleesOk l) : t.OutputsOk := by
  cases l with
  | create q p =>
    simp only [step] at ht
    split at ht <;> cases ht
    rename_i hfresh
    by_cases hp : p.type = .output
    · exact h.createOutput hfresh hp (hcond hp)
    · exact h.createOther hp hfresh
  | delete q destroyOk =>
    cases ht
    exact ok_delete h hcond
  | pktinQueue q type g contextSetOk =>
    simp only [step] at ht
    split at ht <;> cases ht
    rename_i hc
    have hq : ¬s.IsOutput q := fun ho => Bool.noConfusion (hc.1.symm.trans ho.1)
    simp only [pktinEventQueue2em, queueSetupCommon]
    split
    · refine h.same hq (fun ho => ?_) (((SameElems.refl _ q).update _).update _) ⟨rfl,rfl,rfl⟩
      have htype : type = .output := by simpa using ho.2
      rw [htype] at hc
      exact Bool.noConfusion hc.2.1
    · exact h.same hq (queueFree_not_output _ q) ((((SameElems.refl _ q).update _).update _).update _)
        ⟨rfl,rfl,rfl⟩
  | setState q state =>
    simp only [step] at ht
    split at ht <;> cases ht
    rename_i hc
    have hq : ¬s.IsOutput q := fun ho => hc.2.1 ho.2
    refine h.same hq (fun ho => hc.2.1 ?_) ((SameElems.refl _ q).update _) ⟨rfl,rfl,rfl⟩
    simpa using ho.2
  | createGroup g =>
    simp only [step] at ht
    split at ht <;> cases ht
    exact ⟨h.count,h.idx,h.idxUnique,h.args,h.argsUnique⟩
  | deleteGroup g =>
    simp only [step] at ht
    split at ht <;> cases ht
    exact ⟨h.count,h.idx,h.idxUnique,h.args,h.argsUnique⟩

/-- An output queue without arguments whose callees succeed. -/
def outputCreate : Create ι γ α := { type := .output }

private theorem create_outputs [Fintype ι] (h : s.OutputsOk) (qs : List ι) (hnd : qs.Nodup)
    (hfree : ∀ q ∈ qs, (s.elem q).allocated = false)
    (hlen : (Finset.univ.filter s.IsOutput).card + qs.length ≤ emMaxOutputQueues) :
    ∃ t, System.Path (machine ι γ α) s (qs.map (.create · outputCreate)) t ∧
      ∀ q, t.IsOutput q ↔ q ∈ qs ∨ s.IsOutput q := by
  induction qs generalizing s with
  | nil => exact ⟨s,.nil s,by simp⟩
  | cons q qs ih =>
    obtain ⟨hq,hnd⟩ := List.nodup_cons.1 hnd
    simp only [List.length_cons] at hlen
    have hfresh : s.Fresh q outputCreate := ⟨hfree q (by simp),by simp [outputCreate],
      by simp [outputCreate]⟩
    obtain ⟨u,heq,hok,hu,helem⟩ := created_output h hfresh rfl rfl ⟨by simp [outputCreate],rfl,rfl⟩ (by omega)
    have hmem : ∀ r, u.IsOutput r ↔ r = q ∨ s.IsOutput r := fun r => by
      by_cases hr : r = q
      · subst hr
        exact iff_of_true hu (.inl rfl)
      · simp [IsOutput, helem r hr, hr]
    have hcard : (Finset.univ.filter u.IsOutput).card ≤
        (Finset.univ.filter s.IsOutput).card + 1 := by
      refine (Finset.card_le_card ?_).trans (Finset.card_insert_le q _)
      intro r hr
      simpa [hmem] using hr
    have hfree' : ∀ r ∈ qs, (u.elem r).allocated = false := fun r hr => by
      rw [helem r fun hc => hq (hc ▸ hr)]
      exact hfree r (List.mem_cons_of_mem _ hr)
    obtain ⟨t,hpath,ht⟩ := ih hok hnd hfree' (by omega)
    refine ⟨t,.cons ?_ hpath,fun r => ?_⟩
    · show s.step _ = _
      simp only [step, if_pos hfresh, heq]
    · rw [ht, hmem, List.mem_cons]
      tauto

/-- In every state reached while the callees of output queues succeed, the count, the
indexes and the argument events are those of the allocated output queues, and queues can
be created up to `EM_MAX_OUTPUT_QUEUES`. -/
theorem output_queues_consistent [Fintype ι] {s : State ι γ α}
    (h : (machine ι γ α).ReachableVia (fun s l _ => s.OutputCalleesOk l) s) :
    s.OutputsOk ∧ ∀ qs : List ι, qs.Nodup → (∀ q ∈ qs, (s.elem q).allocated = false) →
      (Finset.univ.filter s.IsOutput).card + qs.length ≤ emMaxOutputQueues →
      ∃ t, System.Path (machine ι γ α) s (qs.map (.create · outputCreate)) t ∧
        ∀ q, t.IsOutput q ↔ q ∈ qs ∨ s.IsOutput q := by
  have hok : s.OutputsOk :=
    h.invariant (I := State.OutputsOk) (fun _ hi => ok_initial hi) fun _ _ _ hs ht hcond =>
      ok_step hs ht hcond
  exact ⟨hok,create_outputs hok⟩

end Run

end

end State

/-- Two output queues are created and the first is deleted. -/
private def outputDeleted : Option (State (Fin 2) Unit Unit) :=
  System.exec State.step (fun s l _ => decide (s.OutputCalleesOk l)) emptyTable
    [.create 0 { type := .output, hasArgs := true, argsEvent := some 7 },
      .create 1 { type := .output }, .delete 0 true]

private theorem outputDeleted_isSome : outputDeleted.isSome = true := by decide

theorem output_queues_consistent_deleted : ∃ s : State (Fin 2) Unit Unit, s.OutputsOk ∧
    s.outputQueueIdxFree 0 = true ∧ s.outputQueueIdxFree 1 = false := by
  have h : (machine (Fin 2) Unit Unit).ReachableVia (fun s l _ => s.OutputCalleesOk l)
      (outputDeleted.get outputDeleted_isSome) :=
    System.ReachableVia.exec (fun _ _ _ => of_decide_eq_true) (.start emptyTable_initial)
      (Option.some_get outputDeleted_isSome).symm
  refine ⟨_,(State.output_queues_consistent h).1,?_,?_⟩
  · decide
  · decide

/-- The event for the arguments of an output queue cannot be allocated. -/
private def argsAllocFailed : Option (State (Fin 2) Unit Unit) :=
  System.exec State.step (fun _ _ _ => true) emptyTable
    [.create 0 { type := .output, hasArgs := true, argsEvent := none }]

private theorem argsAllocFailed_isSome : argsAllocFailed.isSome = true := by decide

/-- The index that a failed creation took is not free, and no output queue has it. -/
theorem failed_create_leaks_index : ∃ s : State (Fin 2) Unit Unit,
    (machine (Fin 2) Unit Unit).Reachable s ∧ s.outputQueueIdxFree 0 = false ∧
      (∀ q, ¬s.IsOutput q) ∧ ¬s.OutputsOk := by
  have hnone : ∀ q, ¬(argsAllocFailed.get argsAllocFailed_isSome).IsOutput q := by decide
  have hidx : (argsAllocFailed.get argsAllocFailed_isSome).outputQueueIdxFree 0 = false := by
    decide
  refine ⟨argsAllocFailed.get argsAllocFailed_isSome,?_,hidx,hnone,fun h => ?_⟩
  · exact System.ReachableVia.exec (fun _ _ _ _ => trivial) (.start emptyTable_initial)
      (Option.some_get argsAllocFailed_isSome).symm
  · obtain ⟨q,hq,-⟩ := (h.idx 0).1 hidx
    exact hnone q hq

end EmOdp.QueueTable
