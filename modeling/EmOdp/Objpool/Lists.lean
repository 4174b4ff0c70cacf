import EmOdp.Objpool.Machine

/-! What the critical sections do to the lists of an object pool. -/
namespace EmOdp.Objpool
open Lib
variable {ι : Type} [DecidableEq ι] {links : Links (ListNode ι)} {elem : ι → Elem} {n idx : Nat}
  {lists : Nat → List ι} {x : ι}

namespace State.Linked

omit [DecidableEq ι] in
theorem not_mem (h : Linked links elem n lists) (hx : (elem x).inPool = false) (idx : Nat) :
    x ∉ lists idx := by
  intro hmem
  rw [((h.mem idx x).1 hmem).1] at hx
  cases hx

omit [DecidableEq ι] in
/-- The heads of other subpools and the elements of other lists are not in a ring. -/
private theorem not_mem_ring {j : Nat} (hx : x ∉ lists j) : ListNode.listNode x ∉
    ListNode.listHead j :: (lists j).map ListNode.listNode := by
  simp only [List.mem_cons, List.mem_map, reduceCtorEq, ListNode.listNode.injEq, false_or]
  rintro ⟨y,hy,rfl⟩
  exact hx hy

omit [DecidableEq ι] in
private theorem head_not_mem_ring {j : Nat} (hj : idx ≠ j) : ListNode.listHead idx ∉
    ListNode.listHead j :: (lists j).map ListNode.listNode := by
  simp only [List.mem_cons, List.mem_map, reduceCtorEq, ListNode.listHead.injEq, and_false,
    exists_false, or_false]
  exact hj

omit [DecidableEq ι] in
theorem nodup (h : Linked links elem n lists) (hidx : idx < n) : (lists idx).Nodup :=
  (List.nodup_cons.1 (h.ring idx hidx).nodup).2.of_map _

/-- `objpool_add` may set the index of an element that is not in the pool. -/
theorem setIdx (h : Linked links elem n lists) (hx : (elem x).inPool = false) :
    Linked links (Function.update elem x { elem x with subpoolIdx := idx }) n lists := by
  refine ⟨h.ring,fun j y => ?_,fun y hy => ?_⟩
  · by_cases hy : y = x
    · subst hy
      rw [Function.update_self, hx]
      exact iff_of_false (h.not_mem hx j) fun hc => Bool.false_ne_true hc.1
    · rw [Function.update_of_ne hy]
      exact h.mem j y
  · by_cases hyx : y = x
    · subst hyx
      rw [Function.update_self, hx] at hy
      cases hy
    · rw [Function.update_of_ne hyx] at hy ⊢
      exact h.lt y hy

/-- The element becomes the last one of its list. -/
theorem add (h : Linked links elem n lists) (hx : (elem x).inPool = false)
    (hidx : (elem x).subpoolIdx = idx) (hlt : idx < n) :
    Linked (links.add (.listHead idx) (.listNode x)) (Function.update elem x { elem x with inPool := true })
      n (Function.update lists idx (lists idx ++ [x])) := by
  have hnot := h.not_mem hx
  refine ⟨fun j hj => ?_,fun j y => ?_,fun y hy => ?_⟩
  · by_cases hji : j = idx
    · subst hji
      rw [Function.update_self, List.map_append]
      exact (h.ring j hj).add (not_mem_ring (hnot j))
    · rw [Function.update_of_ne hji]
      exact (h.ring idx hlt).add_other (h.ring j hj) (head_not_mem_ring (Ne.symm hji))
        (not_mem_ring (hnot j))
  · by_cases hy : y = x
    · subst hy
      rw [Function.update_self]
      by_cases hji : j = idx
      · subst hji
        rw [Function.update_self]
        exact iff_of_true (List.mem_append_right _ List.mem_cons_self) ⟨rfl,hidx⟩
      · rw [Function.update_of_ne hji]
        exact iff_of_false (hnot j) fun hc => hji (hc.2.symm.trans hidx)
    · rw [Function.update_of_ne hy, ← h.mem]
      by_cases hji : j = idx
      · subst hji
        rw [Function.update_self, List.mem_append, List.mem_singleton]
        exact or_iff_left hy
      · rw [Function.update_of_ne hji]
  · by_cases hyx : y = x
    · subst hyx
      rw [Function.update_self]
      exact hidx.symm ▸ hlt
    · rw [Function.update_of_ne hyx] at hy ⊢
      exact h.lt y hy

/-- The element is taken out of its list, wherever it is in it. -/
theorem take (h : Linked links elem n lists) (hx : (elem x).inPool = true) : ∃ lists' : Nat → List ι,
    Linked (links.rem (.listNode x)) (Function.update elem x { elem x with inPool := false }) n lists' := by
  obtain ⟨ys,zs,hsplit⟩ := List.append_of_mem ((h.mem _ x).2 ⟨hx,rfl⟩)
  have hlt := h.lt x hx
  have hring := h.ring _ hlt
  have hnodup := h.nodup hlt
  rw [hsplit] at hnodup
  have hnot : x ∉ ys ++ zs := (List.nodup_cons.1 (List.nodup_middle.1 hnodup)).1
  rw [hsplit, List.map_append, List.map_cons] at hring
  refine ⟨Function.update lists (elem x).subpoolIdx (ys ++ zs),fun j hj => ?_,fun j y => ?_,fun y hy => ?_⟩
  · by_cases hji : j = (elem x).subpoolIdx
    · subst hji
      rw [Function.update_self, List.map_append]
      exact hring.rem
    · rw [Function.update_of_ne hji]
      refine hring.rem_other ?_ (h.ring j hj) (not_mem_ring fun hc => hji ((h.mem j x).1 hc).2.symm)
      exact List.mem_cons_of_mem _ (List.mem_append_right _ List.mem_cons_self)
  · by_cases hy : y = x
    · subst hy
      rw [Function.update_self]
      refine iff_of_false (fun hc => ?_) fun hc => Bool.false_ne_true hc.1
      by_cases hji : j = (elem y).subpoolIdx
      · subst hji
        rw [Function.update_self] at hc
        exact hnot hc
      · rw [Function.update_of_ne hji] at hc
        exact hji ((h.mem j y).1 hc).2.symm
    · rw [Function.update_of_ne hy, ← h.mem]
      by_cases hji : j = (elem x).subpoolIdx
      · subst hji
        rw [Function.update_self, hsplit]
        simp only [List.mem_append, List.mem_cons, hy, false_or]
      · rw [Function.update_of_ne hji]
  · by_cases hyx : y = x
    · subst hyx
      rw [Function.update_self] at hy
      cases hy
    · rw [Function.update_of_ne hyx] at hy ⊢
      exact h.lt y hy

/-- `list_rem_first` finds no node of a list that is empty, else the node of an element that is in the
pool. -/
theorem remFirst (h : Linked links elem n lists) (hidx : idx < n) :
    links.remFirst (.listHead idx) = none ∧ links.isEmpty (.listHead idx) = true ∨
      ∃ x, (elem x).inPool = true ∧
        links.remFirst (.listHead idx) = some (.listNode x,links.rem (.listNode x)) := by
  have hring := h.ring idx hidx
  cases hlist : lists idx with
  | nil =>
    rw [hlist, List.map_nil] at hring
    exact .inl ⟨hring.remFirst_nil,hring.isEmpty_iff.2 rfl⟩
  | cons x xs =>
    rw [hlist, List.map_cons] at hring
    refine .inr ⟨x,((h.mem idx x).1 ?_).1,hring.remFirst_cons⟩
    rw [hlist]
    exact List.mem_cons_self

theorem isEmpty_iff (h : Linked links elem n lists) (hidx : idx < n) :
    links.isEmpty (.listHead idx) = true ↔ lists idx = [] :=
  (h.ring idx hidx).isEmpty_iff.trans List.map_eq_nil_iff

end State.Linked
end EmOdp.Objpool
