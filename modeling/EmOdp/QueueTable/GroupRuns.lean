import EmOdp.QueueTable.FailedDelete

/-! The lists of the queue groups over runs of creations and deletes. -/
namespace EmOdp.QueueTable
open Lib
variable {ι γ α : Type}

namespace State
variable {s t u : State ι γ α} {q : ι} {destroyOk : Bool} [DecidableEq ι] [DecidableEq γ]

omit [DecidableEq γ] in
theorem sameGroups_queueDestroy [DecidableEq α] (s : State ι γ α) (q : ι) (destroyOk : Bool) :
    SameGroups s (s.queueDestroy q destroyOk).1 := by
  simp only [queueDestroy, atomicGroupRemoveQueue, atomicGroupRemQueueList]
  repeat' split
  all_goals exact ⟨rfl,rfl,rfl⟩

/-- The queue of a group that is deleted is on the list of its group. -/
theorem GroupsOk.releases (h : s.GroupsOk) (hchecked : s.DeleteChecked q)
    (htype : (s.elem q).type ≠ .unscheduled ∧ (s.elem q).type ≠ .local_ ∧
      (s.elem q).type ≠ .output) {g : γ} (hg : (s.elem q).queueGroup = some g) :
    s.InGroup g q ∧ s.qgrpLinks.isEmpty (.inl g) = false := by
  have hin : s.InGroup g q := by
    refine ⟨hchecked.1,?_,hg⟩
    have hundef := h.typed q hchecked.1
    have haggr := hchecked.2.1
    cases ht : (s.elem q).type <;> simp_all [QueueType.scheduled]
  obtain ⟨xs,hxs⟩ := h.list g (h.allocated g q hin)
  refine ⟨hin,?_⟩
  rw [← Bool.not_eq_true, hxs.ring.isEmpty_iff, List.map_eq_nil_iff]
  exact List.ne_nil_of_mem ((hxs.mem q).2 hin)

private theorem groupsOk_delete [DecidableEq α] (h : s.GroupsOk) (hkeep : ¬s.FailsAfterRelease q destroyOk) :
    (s.queueDelete q destroyOk).1.GroupsOk := by
  rcases s.queueDelete_cases q destroyOk with ⟨he,-⟩ | ⟨t,hchecked,hrelease,he⟩
  · rw [he]
    exact h
  rw [he]
  have hfreed := sameElems_queueDestroy t q destroyOk
  have hsame := sameGroups_queueDestroy t q destroyOk
  have hdestroys := destroysOdpQueue_release hrelease
  rcases queueRelease_cases hrelease with ⟨htype,g,hg,halloc,rfl⟩ | ⟨htype,rfl⟩ | ⟨htype,rfl⟩
  · -- the queue leaves the list of its group and is freed
    obtain ⟨hin,hempty⟩ := h.releases hchecked htype hg
    have hok : s.destroysOdpQueue q = true → destroyOk = true := fun hd => by
      by_contra hc
      rw [Bool.not_eq_true] at hc
      exact hkeep ⟨hchecked,hd,hc,.inr ⟨htype,g,hg,halloc,hempty⟩⟩
    have hnot := destroyed_not_allocated fun hd => hok (hdestroys.symm.trans hd)
    simp only [queueGroupRemQueueList, hempty, Bool.false_eq_true, if_false] at hfreed hsame hnot ⊢
    exact h.remove hin hnot hfreed hsame.links hsame.numQueues hsame.allocated
  · have hok : s.destroysOdpQueue q = true → destroyOk = true := fun hd => by
      by_contra hc
      rw [Bool.not_eq_true] at hc
      exact hkeep ⟨hchecked,hd,hc,.inl htype⟩
    have hnot := destroyed_not_allocated fun hd => hok (hdestroys.symm.trans hd)
    have hreleased : SameGroups s (s.releaseOutput q) := ⟨rfl,rfl,rfl⟩
    refine h.freed (not_inGroup (.inl htype)) hnot ?_ (hreleased.trans hsame)
    exact ((SameElems.refl _ q).update _).trans hfreed
  · by_cases hd : t.destroysOdpQueue q = true → destroyOk = true
    · exact h.freed (not_inGroup (.inr htype)) (destroyed_not_allocated hd) hfreed hsame
    · rw [Classical.not_imp, Bool.not_eq_true] at hd
      simpa only [queueDestroy, hd.1, hd.2, Bool.not_false, Bool.and_self, if_true] using h

/-- The setup of a scheduled queue that succeeds puts it on the list of its group. -/
private theorem queueSetupScheduled_groups {p : Create ι γ α} {b : Bool}
    (h : s.queueSetupScheduled q p = (t,b)) (hfree : ∀ r ∈ p.aggrQueues.getD [], r ≠ q) :
    (SameGroups s t ∧ b = false) ∨ (b = true ∧ ∃ g, p.queueGroup = some g ∧
      (t.elem q).allocated = (s.elem q).allocated ∧
      (t.elem q).queueGroup = (s.elem q).queueGroup ∧
      t.qgrpLinks = s.qgrpLinks.add (.inl g) (.inr q) ∧
      t.numQueues = Function.update s.numQueues g (s.numQueues g + 1) ∧
      t.groupAllocated = s.groupAllocated) := by
  simp only [queueSetupScheduled] at h
  split at h
  · cases h
    exact .inl ⟨.refl s,rfl⟩
  rename_i g hg
  split at h
  · cases h
    exact .inl ⟨⟨rfl,rfl,rfl⟩,rfl⟩
  split at h
  · cases h
    exact .inl ⟨⟨rfl,rfl,rfl⟩,rfl⟩
  rename_i aggrQueues haggr
  cases h
  rw [haggr] at hfree
  have hq : q ∉ aggrQueues := fun hc => hfree q hc rfl
  refine .inr ⟨rfl,g,hg,?_,?_,rfl,rfl,rfl⟩
  · simp [queueGroupAddQueueList, setupAggr, hq]
  · simp [queueGroupAddQueueList, setupAggr, hq]

private theorem sameGroups_queueSetup {p : Create ι γ α} (hp : p.type.scheduled = false) :
    SameGroups s (s.queueSetup q p).1 := by
  simp only [queueSetup, queueSetupUnscheduled, queueSetupLocal, queueSetupOutput,
    queueSetupOutputArgs, takeIdx, errorDecCnt]
  split
  case h_1 htype | h_2 htype | h_3 htype => simp [htype, QueueType.scheduled] at hp
  all_goals repeat' split
  all_goals exact ⟨rfl,rfl,rfl⟩

/-- The setup of a queue puts it on the list of its group if it is scheduled and the setup
succeeds. -/
private theorem queueSetup_groups {p : Create ι γ α} {b : Bool} (h : s.queueSetup q p = (t,b))
    (hfree : ∀ r ∈ p.aggrQueues.getD [], r ≠ q) :
    (SameGroups s t ∧ (b = true → p.type.scheduled = false)) ∨
      (b = true ∧ ∃ g, p.queueGroup = some g ∧ (t.elem q).allocated = true ∧
        (t.elem q).queueGroup = some g ∧ t.qgrpLinks = s.qgrpLinks.add (.inl g) (.inr q) ∧
        t.numQueues = Function.update s.numQueues g (s.numQueues g + 1) ∧
        t.groupAllocated = s.groupAllocated) := by
  cases hp : p.type.scheduled with
  | false =>
    have hsame := sameGroups_queueSetup (s := s) (q := q) hp
    rw [h] at hsame
    exact .inl ⟨hsame,fun _ => rfl⟩
  | true =>
    have hsched : (s.queueSetupCommon q p).queueSetupScheduled q p = (t,b) := by
      rw [← h]
      cases htype : p.type <;> simp_all [queueSetup, QueueType.scheduled]
    have hcommon : SameGroups s (s.queueSetupCommon q p) := ⟨rfl,rfl,rfl⟩
    rcases queueSetupScheduled_groups hsched hfree with
      ⟨hsame,rfl⟩ | ⟨rfl,g,hg,halloc,hgroup,hlinks,hcount,hgroups⟩
    · exact .inl ⟨hcommon.trans hsame,by decide⟩
    · refine .inr ⟨rfl,g,hg,?_,?_,hlinks,hcount,hgroups⟩
      · rw [halloc]
        simp [queueSetupCommon]
      · rw [hgroup]
        simpa [queueSetupCommon] using hg

private theorem groupsOk_create [DecidableEq α] {p : Create ι γ α} (h : s.GroupsOk)
    (hfresh : s.Fresh q p) : (s.queueCreate q p).1.GroupsOk := by
  have hq : ∀ g, ¬s.InGroup g q := fun g hc => Bool.noConfusion (hfresh.1.symm.trans hc.1)
  have hfree : ∀ r ∈ p.aggrQueues.getD [], r ≠ q := fun r hr => (hfresh.2.1 r hr).2
  obtain ⟨helems,htype⟩ := sameElems_queueSetup hfresh.2.1
  rcases s.queueCreate_cases q p with ⟨-,he⟩ | ⟨u,hu,he⟩ | ⟨u,hcheck,hu,he⟩
  · rw [he]
    exact h
  · rw [hu] at helems
    rw [he]
    rcases queueSetup_groups hu hfree with ⟨hsame,-⟩ | ⟨hb,-⟩
    · exact h.freed hq (queueFree_not_allocated u q) (helems.update _)
        (hsame.trans ⟨rfl,rfl,rfl⟩)
    · cases hb
  · rw [hu] at helems htype
    have hok : u.GroupsOk := by
      rcases queueSetup_groups hu hfree with
        ⟨hsame,hsched⟩ | ⟨-,g,hg,halloc,hgroup,hlinks,hcount,hgroups⟩
      · refine h.same (fun g r => ?_) ?_ hsame
        · by_cases hr : r = q
          · subst hr
            refine iff_of_false (fun hc => ?_) (hq g)
            have hs := hc.2.1
            rw [htype, hsched rfl] at hs
            cases hs
          · exact inGroup_iff helems hr
        · refine typed_of_sameElems h.typed (fun _ => ?_) helems
          rw [htype]
          intro hundef
          simp [queueCreateCheckArgs, hundef] at hcheck
      · have hsched : p.type.scheduled = true ∧ s.groupAllocated g = true := by
          cases hp : p.type <;>
            simp_all [queueCreateCheckArgs, QueueType.scheduled]
        have hin : u.InGroup g q := ⟨halloc,by rw [htype]; exact hsched.1,hgroup⟩
        exact h.add hq hsched.2 hin helems hlinks hcount hgroups
    rcases he with he | ⟨a,he⟩
    · rw [he]
      exact hok
    · rw [he]
      exact hok.same (fun _ _ => Iff.rfl) hok.typed ⟨rfl,rfl,rfl⟩

/-- No delete fails after the release, and no queue is made from an event queue of a packet
input. -/
def KeepsQueues (s : State ι γ α) : Label ι γ α → Prop
  | .delete q destroyOk => ¬s.FailsAfterRelease q destroyOk
  | .pktinQueue _ _ _ _ => False
  | _ => True

instance (s : State ι γ α) (l : Label ι γ α) : Decidable (s.KeepsQueues l) :=
  match l with
  | .delete q destroyOk => inferInstanceAs (Decidable ¬s.FailsAfterRelease q destroyOk)
  | .pktinQueue .. => inferInstanceAs (Decidable False)
  | .create .. | .setState .. | .createGroup _ | .deleteGroup _ => inferInstanceAs (Decidable True)

variable [DecidableEq α]

private theorem groupsOk_step {l : Label ι γ α} (h : s.GroupsOk) (ht : s.step l = some t)
    (hkeep : s.KeepsQueues l) : t.GroupsOk := by
  cases l with
  | create q p =>
    simp only [step] at ht
    split at ht <;> cases ht
    exact groupsOk_create h ‹_›
  | delete q destroyOk =>
    cases ht
    exact groupsOk_delete h hkeep
  | pktinQueue q type g contextSetOk => exact hkeep.elim
  | setState q state =>
    simp only [step] at ht
    split at ht <;> cases ht
    refine h.same (fun g r => ?_) (fun r => ?_) ⟨rfl,rfl,rfl⟩
    · by_cases hr : r = q
      · subst hr
        simp [InGroup]
      · exact inGroup_iff ((SameElems.refl _ q).update _) hr
    · by_cases hr : r = q
      · subst hr
        simpa using h.typed r
      · simpa [Function.update_of_ne hr] using h.typed r
  | createGroup g =>
    simp only [step] at ht
    split at ht <;> cases ht
    rename_i hg
    have hnone : ∀ q, ¬s.InGroup g q := fun q hc => hg (h.allocated g q hc)
    refine ⟨fun g' hg' => ?_,fun g' r hr => ?_,h.typed⟩
    · by_cases he : g' = g
      · subst he
        refine ⟨[],Links.ring_init _ _,fun q => ?_,by simp⟩
        exact iff_of_false (List.not_mem_nil) (hnone q)
      · dsimp only at hg'
        rw [Function.update_of_ne he] at hg'
        obtain ⟨xs,hxs⟩ := h.list g' hg'
        refine ⟨xs,Links.init_of_not_mem hxs.ring ?_,hxs.mem,?_⟩
        · simpa using Ne.symm he
        · rw [← hxs.count]
          exact Function.update_of_ne he _ _
    · dsimp only
      by_cases he : g' = g
      · rw [he, Function.update_self]
      · rw [Function.update_of_ne he]
        exact h.allocated g' r hr
  | deleteGroup g =>
    simp only [step] at ht
    split at ht <;> cases ht
    rename_i hacc
    have hnone := (h.accepted_iff.1 hacc).2
    refine ⟨fun g' hg' => ?_,fun g' r hr => ?_,h.typed⟩
    · have he : g' ≠ g := fun he => by simp [he] at hg'
      dsimp only at hg'
      rw [Function.update_of_ne he] at hg'
      obtain ⟨xs,hxs⟩ := h.list g' hg'
      exact ⟨xs,hxs.ring,hxs.mem,hxs.count⟩
    · have he : g' ≠ g := fun he => hnone r (he ▸ hr)
      dsimp only
      rw [Function.update_of_ne he]
      exact h.allocated g' r hr

omit [DecidableEq ι] [DecidableEq γ] [DecidableEq α] in
private theorem groupsOk_initial (hi : Initial s) : s.GroupsOk := by
  have hnone : ∀ q, (s.elem q).allocated ≠ true := fun q hc =>
    Bool.noConfusion ((hi.elem q).symm.trans hc)
  refine ⟨fun g hg => ?_,fun g q hq => absurd hq.1 (hnone q),fun q hq => absurd hq (hnone q)⟩
  rw [hi.groups g] at hg
  cases hg

theorem reachable_groupsOk
    (h : (machine ι γ α).ReachableVia (fun s l _ => s.KeepsQueues l) s) : s.GroupsOk :=
  h.invariant (I := State.GroupsOk) (fun _ hi => groupsOk_initial hi) fun _ _ _ hs ht hkeep =>
    groupsOk_step hs ht hkeep

end State

end EmOdp.QueueTable
