import EmOdp.QueueTable.OutputQueues

/-! The lists of the queue groups: what they hold when the queue table is consistent. -/
namespace EmOdp.QueueTable
open Lib
variable {ι γ α : Type}

namespace State

/-- `q` is an allocated queue of the group. -/
def InGroup (s : State ι γ α) (g : γ) (q : ι) : Prop :=
  (s.elem q).allocated = true ∧ (s.elem q).type.scheduled = true ∧ (s.elem q).queueGroup = some g

/-- The list of the group holds the queues of the group and no others, and `num_queues`
counts them. -/
structure GroupList (s : State ι γ α) (g : γ) (xs : List ι) : Prop where
  ring : s.qgrpLinks.Ring (.inl g) (xs.map .inr)
  mem : ∀ q, q ∈ xs ↔ s.InGroup g q
  count : s.numQueues g = BitVec.ofNat 32 xs.length

structure GroupsOk (s : State ι γ α) : Prop where
  list : ∀ g, s.groupAllocated g = true → ∃ xs, s.GroupList g xs
  allocated : ∀ g q, s.InGroup g q → s.groupAllocated g = true
  typed : ∀ q, (s.elem q).allocated = true → (s.elem q).type ≠ .undef

variable {s t u : State ι γ α} {g g' : γ} {q r : ι} {xs : List ι}

/-- The bookkeeping of the queue groups is the same. -/
structure SameGroups (s t : State ι γ α) : Prop where
  links : t.qgrpLinks = s.qgrpLinks
  numQueues : t.numQueues = s.numQueues
  allocated : t.groupAllocated = s.groupAllocated

theorem SameGroups.refl (s : State ι γ α) : SameGroups s s := ⟨rfl,rfl,rfl⟩

theorem SameGroups.trans (h : SameGroups s t) (h' : SameGroups t u) : SameGroups s u :=
  ⟨h'.links.trans h.links,h'.numQueues.trans h.numQueues,h'.allocated.trans h.allocated⟩

theorem InGroup.live (h : s.InGroup g q) : (s.elem q).Live := by
  refine ⟨h.1,fun htype => ?_⟩
  have hsched := h.2.1
  rw [htype] at hsched
  cases hsched

theorem inGroup_iff (h : SameElems s.elem t.elem q) (hr : r ≠ q) :
    t.InGroup g r ↔ s.InGroup g r := by
  constructor
  · intro ht
    have he := h.eq_of_live hr ((h.live_iff hr).1 ht.live)
    simpa only [InGroup, he] using ht
  · intro hs
    have he := h.eq_of_live hr hs.live
    simpa only [InGroup, he] using hs

theorem typed_of_sameElems (hs : ∀ q, (s.elem q).allocated = true → (s.elem q).type ≠ .undef)
    (ht : (t.elem q).allocated = true → (t.elem q).type ≠ .undef)
    (helems : SameElems s.elem t.elem q) :
    ∀ r, (t.elem r).allocated = true → (t.elem r).type ≠ .undef := by
  intro r hr htype
  by_cases hrq : r = q
  · subst hrq
    exact ht hr htype
  · rcases helems r hrq with he | ⟨-,hdead⟩
    · rw [he] at hr htype
      exact hs r hr htype
    · exact hdead ⟨hr,by rw [htype]; decide⟩

private theorem node_not_mem (hq : q ∉ xs) : Sum.inr q ∉ (Sum.inl g :: xs.map Sum.inr : List (γ ⊕ ι)) := by
  simpa using hq

private theorem head_not_mem (hg : g' ≠ g) :
    Sum.inl g' ∉ (Sum.inl g :: xs.map Sum.inr : List (γ ⊕ ι)) := by
  simpa using hg

theorem GroupList.nodup (h : s.GroupList g xs) : xs.Nodup :=
  (List.nodup_cons.1 h.ring.nodup).2.of_map _

/-- Nothing is done to the list of the group and to its queues. -/
theorem GroupList.same (h : s.GroupList g xs) (hmem : ∀ r, t.InGroup g r ↔ s.InGroup g r)
    (hsame : SameGroups s t) : t.GroupList g xs :=
  ⟨by rw [hsame.links]; exact h.ring,fun r => (h.mem r).trans (hmem r).symm,
    by rw [hsame.numQueues, h.count]⟩

theorem GroupsOk.same (h : s.GroupsOk) (hmem : ∀ g r, t.InGroup g r ↔ s.InGroup g r)
    (htyped : ∀ r, (t.elem r).allocated = true → (t.elem r).type ≠ .undef)
    (hsame : SameGroups s t) : t.GroupsOk := by
  refine ⟨fun g hg => ?_,fun g r hr => ?_,htyped⟩
  · rw [hsame.allocated] at hg
    obtain ⟨xs,hxs⟩ := h.list g hg
    exact ⟨xs,hxs.same (hmem g) hsame⟩
  · rw [hsame.allocated]
    exact h.allocated g r ((hmem g r).1 hr)

/-- A queue of no group has been freed. -/
theorem GroupsOk.freed (h : s.GroupsOk) (hq : ∀ g, ¬s.InGroup g q)
    (ht : (t.elem q).allocated = false) (helems : SameElems s.elem t.elem q)
    (hsame : SameGroups s t) : t.GroupsOk := by
  refine h.same (fun g r => ?_) ?_ hsame
  · by_cases hr : r = q
    · subst hr
      exact iff_of_false (fun hc => Bool.noConfusion (ht.symm.trans hc.1)) (hq g)
    · exact inGroup_iff helems hr
  · exact typed_of_sameElems h.typed (fun hc => Bool.noConfusion (ht.symm.trans hc)) helems

/-- A queue of one of the three other types is in no group. -/
theorem not_inGroup (htype : (s.elem q).type = .output ∨ (s.elem q).type = .unscheduled ∨
    (s.elem q).type = .local_) (g : γ) : ¬s.InGroup g q := by
  intro hc
  have hsched := hc.2.1
  rcases htype with htype | htype | htype <;>
  · rw [htype] at hsched
    cases hsched

variable [DecidableEq ι] [DecidableEq γ]

/-- The queue group can be deleted exactly when it has no queues. -/
theorem GroupsOk.accepted_iff (h : s.GroupsOk) :
    s.queueGroupDeleteAccepted g = true ↔ s.groupAllocated g = true ∧ ∀ q, ¬s.InGroup g q := by
  simp only [queueGroupDeleteAccepted, Bool.and_eq_true]
  refine and_congr_right fun hg => ?_
  obtain ⟨xs,hxs⟩ := h.list g hg
  rw [hxs.ring.isEmpty_iff, List.map_eq_nil_iff, List.eq_nil_iff_forall_not_mem]
  exact forall_congr' fun q => not_congr (hxs.mem q)

/-- `q` has been added to the list of the group. -/
theorem GroupsOk.add (h : s.GroupsOk) (hq : ∀ g', ¬s.InGroup g' q) (hg : s.groupAllocated g = true)
    (ht : t.InGroup g q) (helems : SameElems s.elem t.elem q)
    (hlinks : t.qgrpLinks = s.qgrpLinks.add (.inl g) (.inr q))
    (hcount : t.numQueues = Function.update s.numQueues g (s.numQueues g + 1))
    (halloc : t.groupAllocated = s.groupAllocated) : t.GroupsOk := by
  have honly : ∀ g', t.InGroup g' q → g' = g := fun g' h' =>
    Option.some.inj (h'.2.2.symm.trans ht.2.2)
  have hmem : ∀ g', g' ≠ g → ∀ r, t.InGroup g' r ↔ s.InGroup g' r := fun g' hg' r => by
    by_cases hr : r = q
    · subst hr
      exact iff_of_false (fun h' => hg' (honly g' h')) (hq g')
    · exact inGroup_iff helems hr
  obtain ⟨xs,hxs⟩ := h.list g hg
  have hqxs : q ∉ xs := fun hc => hq g ((hxs.mem q).1 hc)
  refine ⟨fun g' hg' => ?_,fun g' r hr => ?_,?_⟩
  · by_cases he : g' = g
    · subst he
      refine ⟨xs ++ [q],?_,fun r => ?_,?_⟩
      · rw [hlinks, List.map_append]
        exact hxs.ring.add (node_not_mem hqxs)
      · by_cases hr : r = q
        · subst hr
          exact iff_of_true (by simp) ht
        · simp [inGroup_iff helems hr, hxs.mem, hr]
      · rw [hcount, Function.update_self, hxs.count, List.length_append, BitVec.ofNat_add]
        rfl
    · rw [halloc] at hg'
      obtain ⟨ys,hys⟩ := h.list g' hg'
      have hqys : q ∉ ys := fun hc => hq g' ((hys.mem q).1 hc)
      refine ⟨ys,?_,fun r => (hys.mem r).trans (hmem g' he r).symm,?_⟩
      · rw [hlinks]
        exact hxs.ring.add_other hys.ring (head_not_mem (Ne.symm he)) (node_not_mem hqys)
      · rw [hcount, Function.update_of_ne he, hys.count]
  · rw [halloc]
    by_cases he : g' = g
    · rw [he]
      exact hg
    · exact h.allocated g' r ((hmem g' he r).1 hr)
  · refine typed_of_sameElems h.typed (fun _ htype => ?_) helems
    have hsched := ht.2.1
    rw [htype] at hsched
    cases hsched

/-- The lists after `q` has been removed from the list of its group. -/
theorem GroupList.erase (h : s.GroupsOk) (hq : s.InGroup g q) (ht : ∀ g', ¬t.InGroup g' q)
    (helems : SameElems s.elem t.elem q) (hlinks : t.qgrpLinks = s.qgrpLinks.rem (.inr q))
    (hcount : t.numQueues = Function.update s.numQueues g (s.numQueues g - 1)) {ys : List ι}
    (hys : s.GroupList g' ys) : t.GroupList g' (ys.erase q) := by
  have hnd := hys.nodup
  have hmem : ∀ r, r ∈ ys.erase q ↔ t.InGroup g' r := fun r => by
    rw [hnd.mem_erase_iff, hys.mem]
    by_cases hr : r = q
    · subst hr
      exact iff_of_false (fun hc => hc.1 rfl) (ht g')
    · rw [inGroup_iff helems hr]
      exact and_iff_right hr
  obtain ⟨xs,hxs⟩ := h.list g (h.allocated g q hq)
  by_cases he : g' = g
  · subst he
    obtain ⟨as,bs,rfl⟩ := List.append_of_mem ((hys.mem q).2 hq)
    have hqas : q ∉ as := fun hc =>
      (List.nodup_append'.1 hnd).2.2 hc List.mem_cons_self
    have herase : (as ++ q :: bs).erase q = as ++ bs := by
      rw [List.erase_append_right _ hqas, List.erase_cons_head]
    refine ⟨?_,hmem,?_⟩
    · rw [hlinks, herase, List.map_append]
      refine Links.Ring.rem ?_
      simpa using hys.ring
    · have hlen : (as ++ q :: bs).length = (as ++ bs).length + 1 := by simp; omega
      rw [hcount, Function.update_self, hys.count, herase, hlen, BitVec.ofNat_add]
      exact BitVec.add_sub_cancel _ _
  · have hqys : q ∉ ys := fun hc => he
      (Option.some.inj (((hys.mem q).1 hc).2.2.symm.trans hq.2.2))
    have herase : ys.erase q = ys := List.erase_of_not_mem hqys
    refine ⟨?_,hmem,?_⟩
    · rw [hlinks, herase]
      refine hxs.ring.rem_other ?_ hys.ring (node_not_mem hqys)
      simpa using (hxs.mem q).2 hq
    · rw [hcount, Function.update_of_ne he, hys.count, herase]

theorem GroupsOk.remove (h : s.GroupsOk) (hq : s.InGroup g q)
    (ht : (t.elem q).allocated = false) (helems : SameElems s.elem t.elem q)
    (hlinks : t.qgrpLinks = s.qgrpLinks.rem (.inr q))
    (hcount : t.numQueues = Function.update s.numQueues g (s.numQueues g - 1))
    (halloc : t.groupAllocated = s.groupAllocated) : t.GroupsOk := by
  have hnot : ∀ g', ¬t.InGroup g' q := fun g' hc => Bool.noConfusion (ht.symm.trans hc.1)
  refine ⟨fun g' hg' => ?_,fun g' r hr => ?_,?_⟩
  · rw [halloc] at hg'
    obtain ⟨ys,hys⟩ := h.list g' hg'
    exact ⟨ys.erase q,hys.erase h hq hnot helems hlinks hcount⟩
  · rw [halloc]
    have hrq : r ≠ q := fun he => hnot g' (he ▸ hr)
    exact h.allocated g' r ((inGroup_iff helems hrq).1 hr)
  · exact typed_of_sameElems h.typed (fun hc => Bool.noConfusion (ht.symm.trans hc)) helems

end State

end EmOdp.QueueTable
