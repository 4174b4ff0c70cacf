import EmOdp.QueueGroup.Machine

/-! A core's last request decides whether it ends up joined. It agrees with the mask when
requests reach each core in the order in which the mask was updated. -/
namespace EmOdp.QueueGroup
open Lib
variable {ι : Type} [DecidableEq ι] {m : CoreMap ι} {s t : State ι} {c d : ι}

theorem mem_addMask {oldMask newMask : Finset ι} :
    d ∈ addMask oldMask newMask ↔ d ∈ newMask ∧ d ∉ oldMask := by
  simp only [addMask, Finset.mem_inter, Finset.mem_symmDiff]; tauto

theorem mem_remMask {oldMask newMask : Finset ι} :
    d ∈ remMask oldMask newMask ↔ d ∈ oldMask ∧ d ∉ newMask := by
  simp only [remMask, Finset.mem_inter, Finset.mem_symmDiff]; tauto

namespace CoreMap

theorem mem_toThreads {mask : Finset ι} : d ∈ m.toThreads mask ↔ d ∈ mask := by
  simp [toThreads, m.complete]

theorem mem_addremReqs {add rem : Finset ι} {req : Req} :
    (d,req) ∈ m.addremReqs add rem ↔ d ∈ rem ∧ req = .rem ∨ d ∈ add ∧ req = .add := by
  simp [addremReqs, mem_toThreads, eq_comm]

theorem map_addremReqs (add rem : Finset ι) :
    (m.addremReqs add rem).map Prod.fst = m.toThreads rem ++ m.toThreads add := by
  simp [addremReqs, Function.comp_def]

theorem nodup_addremReqs {add rem : Finset ι} (h : Disjoint add rem) :
    ((m.addremReqs add rem).map Prod.fst).Nodup := by
  rw [map_addremReqs]
  refine (m.nodup.filter _).append (m.nodup.filter _) fun d hr ha => ?_
  exact Finset.disjoint_left.1 h (mem_toThreads.1 ha) (mem_toThreads.1 hr)

end CoreMap

/-- A free element is created as an empty group is modified. -/
theorem State.create_eq_modify (hs : s.coreMask = ∅) (hg : s.schedGroup = ∅) (mask : Finset ι) :
    s.create m c mask = { s with allocated := true }.modify m c mask false := by
  have hadd : addMask ∅ mask = mask := by ext d; simp [mem_addMask]
  have hrem : remMask ∅ mask = ∅ := by ext d; simp [mem_remMask]
  by_cases hc : c ∈ mask <;>
    simp [State.create, State.modify, State.qGrpAddCore, hs, hg, hadd, hrem, hc]

/-- Membership of a core once the requests of its queue are handled. -/
def settle (joined : Bool) : List Req → Bool
  | [] => joined
  | req :: ctrlQueue => settle req.joins ctrlQueue

@[simp] theorem settle_concat (joined : Bool) (ctrlQueue : List Req) (req : Req) :
    settle joined (ctrlQueue ++ [req]) = req.joins := by
  induction ctrlQueue generalizing joined with
  | nil => rfl
  | cons _ _ ih => exact ih _

/-- The membership that the group's requests lead to, for cores to which all is sent. -/
structure Inv (s : State ι) : Prop where
  nodup : ∀ c, ((s.unsent c).map Prod.fst).Nodup
  sender : ∀ c c' d req req', (d,req) ∈ s.unsent c → (d,req') ∈ s.unsent c' → c = c'
  unsent : ∀ c d req, (d,req) ∈ s.unsent c → req.joins = decide (d ∈ s.coreMask)
  settled : ∀ d, (∀ c req, (d,req) ∉ s.unsent c) →
    settle (decide (d ∈ s.schedGroup)) (s.ctrlQueue d) = decide (d ∈ s.coreMask)
  free : s.allocated = false → Initial s

/-- The modify changes the membership of a core. -/
def Changes (s : State ι) (newMask : Finset ι) (d : ι) : Prop := ¬(d ∈ newMask ↔ d ∈ s.coreMask)

/-- If a modify by core `c` changes core `d`, then `d` is `c` and joins or leaves at once. -/
def AtOnce (c : ι) (newMask : Finset ι) (sync : Bool) (d : ι) : Prop :=
  d = c ∧ (d ∈ newMask ∨ sync = true)

instance (newMask : Finset ι) : Decidable (Changes s newMask d) := inferInstanceAs (Decidable ¬_)

instance (newMask : Finset ι) (sync : Bool) : Decidable (AtOnce c newMask sync d) :=
  inferInstanceAs (Decidable (_ ∧ _))

/-- Nothing fails, and a change of a core's membership does not overtake an earlier one:
no operation is still to send the core a request, and the calling core joins or leaves
at once only if no request is in its queue. -/
def InOrder (s : State ι) : Label ι → Prop
  | .modify c newMask sync => ∀ d, Changes s newMask d →
      (∀ c' req, (d,req) ∉ s.unsent c') ∧ (AtOnce c newMask sync d → s.ctrlQueue d = [])
  | .sendFails _ => False
  | .create .. | .send _ | .handle _ => True

instance [Fintype ι] (s : State ι) : (l : Label ι) → Decidable (InOrder s l)
  | .modify c newMask sync => inferInstanceAs (Decidable (∀ d, Changes s newMask d →
      (∀ c' req, (d,req) ∉ s.unsent c') ∧ (AtOnce c newMask sync d → s.ctrlQueue d = [])))
  | .sendFails _ => inferInstanceAs (Decidable False)
  | .create .. | .send _ | .handle _ => inferInstanceAs (Decidable True)

theorem inv_initial (h : Initial s) : Inv s := by
  refine ⟨fun c => ?_,fun c _ d req _ hm => ?_,fun c d req hm => ?_,fun d _ => ?_,fun _ => h⟩
  · simp [h.unsent]
  · simp [h.unsent] at hm
  · simp [h.unsent] at hm
  · simp [h.schedGroup, h.ctrlQueue, h.coreMask, settle]

section Modify
variable {newMask : Finset ι} {sync : Bool}

theorem mem_unsent_modify {c' : ι} {req : Req} :
    (d,req) ∈ (s.modify m c newMask sync).unsent c' ↔
      if c' = c then
        Changes s newMask d ∧ ¬AtOnce c newMask sync d ∧ req.joins = decide (d ∈ newMask)
      else (d,req) ∈ s.unsent c' := by
  by_cases hc : c' = c
  · subst hc
    have hu : (s.modify m c' newMask sync).unsent c' = m.addremReqs
        ((addMask s.coreMask newMask).erase c')
        (if sync then (remMask s.coreMask newMask).erase c' else remMask s.coreMask newMask) := by
      simp [State.modify]
    rw [hu, if_pos rfl, CoreMap.mem_addremReqs]
    cases sync <;> cases req <;>
      simp [mem_addMask, mem_remMask, Changes, AtOnce, Req.joins] <;> tauto
  · have hu : (s.modify m c newMask sync).unsent c' = s.unsent c' := by
      simp only [State.modify, Function.update_of_ne hc, State.qGrpAddCore, State.qGrpRemCore]
      split <;> split <;> rfl
    rw [hu, if_neg hc]

theorem mem_schedGroup_modify : d ∈ (s.modify m c newMask sync).schedGroup ↔
    if Changes s newMask d ∧ AtOnce c newMask sync d then d ∈ newMask else d ∈ s.schedGroup := by
  by_cases hd : d = c
  · subst hd
    cases sync <;> by_cases hn : d ∈ newMask <;> by_cases ho : d ∈ s.coreMask <;>
      simp [State.modify, State.qGrpAddCore, State.qGrpRemCore, mem_addMask, mem_remMask, Changes,
        AtOnce, hn, ho]
  · simp only [State.modify, State.qGrpAddCore, State.qGrpRemCore, AtOnce, hd]
    split <;> split <;> simp [hd]

private theorem modify_coreMask : (s.modify m c newMask sync).coreMask = newMask := by
  simp only [State.modify, State.qGrpAddCore, State.qGrpRemCore]
  split <;> split <;> rfl

private theorem modify_ctrlQueue : (s.modify m c newMask sync).ctrlQueue = s.ctrlQueue := by
  simp only [State.modify, State.qGrpAddCore, State.qGrpRemCore]
  split <;> split <;> rfl

private theorem modify_allocated : (s.modify m c newMask sync).allocated = s.allocated := by
  simp only [State.modify, State.qGrpAddCore, State.qGrpRemCore]
  split <;> split <;> rfl

private theorem nodup_unsent_modify (h : ∀ c, ((s.unsent c).map Prod.fst).Nodup) (c' : ι) :
    (((s.modify m c newMask sync).unsent c').map Prod.fst).Nodup := by
  by_cases hc : c' = c
  · subst hc
    simp only [State.modify, Function.update_self]
    refine CoreMap.nodup_addremReqs (Finset.disjoint_left.2 fun d ha hr => ?_)
    have hr : d ∈ remMask s.coreMask newMask := by
      split at hr
      · exact Finset.mem_of_mem_erase hr
      · exact hr
    exact (mem_remMask.1 hr).2 (mem_addMask.1 (Finset.mem_of_mem_erase ha)).1
  · have hu : (s.modify m c newMask sync).unsent c' = s.unsent c' := by
      simp only [State.modify, Function.update_of_ne hc, State.qGrpAddCore, State.qGrpRemCore]
      split <;> split <;> rfl
    rw [hu]
    exact h c'

theorem inv_modify (h : Inv s) (ha : s.allocated = true) (hc : s.unsent c = [])
    (ho : InOrder s (.modify c newMask sync)) : Inv (s.modify m c newMask sync) := by
  refine ⟨nodup_unsent_modify h.nodup,fun c₁ c₂ d r₁ r₂ h₁ h₂ => ?_,fun c' d req hm => ?_,
    fun d hd => ?_,fun hf => ?_⟩
  · rw [mem_unsent_modify] at h₁ h₂
    split at h₁ <;> split at h₂
    · simp_all
    · exact absurd h₂ ((ho d h₁.1).1 _ _)
    · exact absurd h₁ ((ho d h₂.1).1 _ _)
    · exact h.sender _ _ _ _ _ h₁ h₂
  · rw [modify_coreMask]
    rw [mem_unsent_modify] at hm
    split at hm
    · exact hm.2.2
    · have hsame : d ∈ newMask ↔ d ∈ s.coreMask :=
        Classical.not_not.1 fun hch => (ho d hch).1 _ _ hm
      rw [h.unsent _ _ _ hm]
      exact decide_eq_decide.2 hsame.symm
  · rw [modify_coreMask, modify_ctrlQueue]
    by_cases hch : Changes s newMask d
    · -- a change that needs no request is the caller's own
      have honce : AtOnce c newMask sync d := by
        by_contra hno
        refine hd c (if d ∈ newMask then .add else .rem) ?_
        rw [mem_unsent_modify, if_pos rfl]
        refine ⟨hch,hno,?_⟩
        split <;> simp [Req.joins, *]
      rw [(ho d hch).2 honce, settle]
      exact decide_eq_decide.2 (by rw [mem_schedGroup_modify, if_pos ⟨hch,honce⟩])
    · have hsame : d ∈ newMask ↔ d ∈ s.coreMask := Classical.not_not.1 hch
      have hgroup : d ∈ (s.modify m c newMask sync).schedGroup ↔ d ∈ s.schedGroup := by
        rw [mem_schedGroup_modify, if_neg fun hc => hch hc.1]
      have hnone : ∀ c' req, (d,req) ∉ s.unsent c' := fun c' req hm => by
        by_cases hc' : c' = c
        · subst hc'; rw [hc] at hm; cases hm
        · exact hd c' req (by rwa [mem_unsent_modify, if_neg hc'])
      rw [decide_eq_decide.2 hgroup, h.settled d hnone]
      exact decide_eq_decide.2 hsame.symm
  · rw [modify_allocated, ha] at hf
    cases hf

end Modify

theorem inv_send (h : Inv s) (hs : s.step m (.send c) = some t) : Inv t := by
  simp only [State.step] at hs
  split at hs
  · cases hs
  rename_i d req unsent hu
  cases hs
  have hd : (d,req) ∈ s.unsent c := by simp [hu]
  have hnodup := h.nodup c
  rw [hu, List.map_cons, List.nodup_cons] at hnodup
  have hmem : ∀ c' e r, (e,r) ∈ Function.update s.unsent c unsent c' → (e,r) ∈ s.unsent c' := by
    intro c' e r hm
    by_cases hc : c' = c
    · subst hc
      rw [Function.update_self] at hm
      rw [hu]
      exact List.mem_cons_of_mem _ hm
    · rwa [Function.update_of_ne hc] at hm
  refine ⟨fun c' => ?_,fun c₁ c₂ e r₁ r₂ h₁ h₂ => h.sender _ _ _ _ _ (hmem _ _ _ h₁) (hmem _ _ _ h₂),
    fun c' e r hm => h.unsent _ _ _ (hmem _ _ _ hm),fun e he => ?_,fun hf => ?_⟩
  · by_cases hc : c' = c
    · subst hc
      simpa using hnodup.2
    · simpa [hc] using h.nodup c'
  · dsimp only at he ⊢
    by_cases hed : e = d
    · subst hed
      simpa using h.unsent _ _ _ hd
    · rw [Function.update_of_ne hed]
      refine h.settled e fun c' r hm => ?_
      by_cases hc : c' = c
      · subst hc
        rw [hu] at hm
        rcases List.mem_cons.1 hm with heq | hm
        · exact hed (congrArg Prod.fst heq)
        · exact he c' r (by rwa [Function.update_self])
      · exact he c' r (by rwa [Function.update_of_ne hc])
  · have hfree := (h.free hf).unsent c
    rw [hfree] at hd
    cases hd

theorem mem_schedGroup_handleReq {req : Req} :
    d ∈ (s.handleReq c req).schedGroup ↔ if d = c then req.joins = true else d ∈ s.schedGroup := by
  cases req <;> by_cases hd : d = c <;>
    simp [State.handleReq, State.qGrpAddCore, State.qGrpRemCore, Req.joins, hd]

private theorem handleReq_frame (c : ι) (req : Req) :
    s.handleReq c req = { s with schedGroup := (s.handleReq c req).schedGroup } := by
  cases req <;> rfl

theorem inv_handle (h : Inv s) (hs : s.step m (.handle c) = some t) : Inv t := by
  simp only [State.step] at hs
  split at hs
  · cases hs
  rename_i req ctrlQueue hq
  split at hs <;> cases hs
  rw [handleReq_frame]
  refine ⟨h.nodup,h.sender,h.unsent,fun d hd => ?_,fun hf => ?_⟩
  · rw [← h.settled d hd]
    dsimp only
    by_cases hdc : d = c
    · subst hdc
      rw [Function.update_self, hq, settle]
      congr 1
      cases req <;> simp [State.handleReq, State.qGrpAddCore, State.qGrpRemCore, Req.joins]
    · rw [Function.update_of_ne hdc]
      congr 1
      rw [decide_eq_decide, mem_schedGroup_handleReq, if_neg hdc]
  · rw [(h.free hf).ctrlQueue c] at hq
    cases hq

theorem inv_create {mask : Finset ι} (h : Inv s) (hs : s.step m (.create c mask) = some t) :
    Inv t := by
  simp only [State.step] at hs
  split at hs <;> cases hs
  rename_i hg
  split
  · have hi := h.free hg.1
    rw [State.create_eq_modify hi.coreMask hi.schedGroup]
    exact inv_modify ⟨h.nodup,h.sender,h.unsent,h.settled,nofun⟩ rfl (hi.unsent c)
      fun d _ => ⟨by simp [hi.unsent],fun _ => hi.ctrlQueue d⟩
  · exact h

theorem inv_step {l : Label ι} (h : Inv s) (hs : s.step m l = some t) (ho : InOrder s l) : Inv t := by
  cases l with
  | create => exact inv_create h hs
  | modify =>
    simp only [State.step] at hs
    split at hs <;> cases hs
    rename_i hg
    split
    · exact inv_modify h hg.1 hg.2.2 ho
    · exact h
  | send => exact inv_send h hs
  | sendFails => exact ho.elim
  | handle => exact inv_handle h hs

theorem Inv.converged (h : Inv s) (hq : Quiet s) : s.schedGroup = s.coreMask := by
  ext d
  have hs := h.settled d fun c req hm => by rw [hq.unsent] at hm; cases hm
  rw [hq.ctrlQueue, settle] at hs
  exact decide_eq_decide.1 hs

/-- In runs whose changes are in order, the joined cores are those of the mask whenever
no request is in flight. -/
theorem members_converge (h : (machine m).ReachableVia (fun s l _ => InOrder s l) s)
    (hq : Quiet s) : s.schedGroup = s.coreMask :=
  (h.invariant (I := Inv) (fun _ => inv_initial) fun _ _ _ hi hs ho => inv_step hi hs ho).converged hq

private def twoCores : CoreMap (Fin 2) := ⟨{0,1},[0,1],by decide,by decide⟩

private def free : State (Fin 2) := ⟨false,∅,∅,fun _ => [],fun _ => []⟩

/-- Core 1 is removed before it has joined; core 0 is removed and then adds itself. -/
private def reordered : Option (State (Fin 2)) :=
  System.exec (State.step · twoCores) (fun s l _ => decide (InOrder s l)) free
    [.create 0 {0,1}, .send 0, .modify 0 {0} true, .send 0, .handle 1, .modify 1 ∅ false, .send 1,
      .handle 1, .handle 0, .modify 0 {0} false]

private theorem reordered_isSome : reordered.isSome = true := by decide

theorem members_converge_reordered :
    (reordered.get reordered_isSome).coreMask = {0} ∧
      (reordered.get reordered_isSome).schedGroup = (reordered.get reordered_isSome).coreMask :=
  ⟨by decide,members_converge (m := twoCores) (System.ReachableVia.exec
    (fun _ _ _ => of_decide_eq_true) (.start ⟨rfl,rfl,rfl,fun _ => rfl,fun _ => rfl⟩)
    (Option.some_get reordered_isSome).symm) ⟨by decide,by decide⟩⟩

/-- Core 0 joins the group again while the request to leave it is still in its queue. -/
private def rejoined : Option (State (Fin 2)) :=
  System.exec (State.step · twoCores) (fun _ _ _ => true) free
    [.create 0 {0,1}, .send 0, .handle 1, .modify 0 {1} false, .send 0, .modify 0 {0,1} false,
      .handle 0]

private theorem rejoined_isSome : rejoined.isSome = true := by decide

theorem rejoined_core_lost : ¬ ∀ s : State (Fin 2), (machine twoCores).Reachable s → Quiet s →
    s.schedGroup = s.coreMask := by
  intro h
  have hs : (machine twoCores).Reachable (rejoined.get rejoined_isSome) :=
    System.ReachableVia.exec (fun _ _ _ _ => trivial)
      (.start ⟨rfl,rfl,rfl,fun _ => rfl,fun _ => rfl⟩) (Option.some_get rejoined_isSome).symm
  have he := h _ hs ⟨by decide,by decide⟩
  revert he
  decide

end EmOdp.QueueGroup
