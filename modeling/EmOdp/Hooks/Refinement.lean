import Mathlib.Data.List.ReduceOption
import EmOdp.Hooks.Storage

/-! A call changes the active table as it changes the list of its functions. -/
namespace EmOdp.Hooks
variable {n : Nat} {F : Type} [DecidableEq F] {t : HookTbl n F} {l : List F}

namespace HookTbl

/-- The functions of the list in order, and NULL after them. -/
def ofList (n : Nat) (l : List F) : HookTbl n F := fun i => l[i.val]?

omit [DecidableEq F] in
theorem find_of_first {p : Option F → Bool} {i : Fin n} (hi : p (t i) = true)
    (hlt : ∀ j < i, p (t j) = false) : t.find p = some i := by
  refine List.find?_eq_some_iff_getElem.2 ⟨hi,i,by simp,by simp,fun j hj => ?_⟩
  simp only [List.getElem_finRange, Fin.cast_mk]
  rw [hlt ⟨j,by omega⟩ hj]
  rfl

omit [DecidableEq F] in
theorem find_eq_none {p : Option F → Bool} (h : ∀ i, p (t i) = false) : t.find p = none :=
  List.find?_eq_none.2 fun i _ => by rw [h i]; decide

omit [DecidableEq F] in
/-- The copy replaces all that was in the table. -/
theorem foldl_copy (t old : HookTbl n F) : t.copy.foldl store old = t := by
  have hfold : ∀ (is : List (Fin n)) (old : HookTbl n F) (i : Fin n),
      ((is.map fun i => (i,t i)).foldl store old) i = if i ∈ is then t i else old i := by
    intro is
    induction is with
    | nil => exact fun _ _ => rfl
    | cons j is ih =>
      intro old i
      rw [List.map_cons, List.foldl_cons, ih]
      by_cases hi : i ∈ is
      · simp [hi]
      · by_cases hij : i = j
        · subst hij; simp [hi, store]
        · simp [hi, hij, store]
  funext i
  rw [copy, hfold, if_pos (List.mem_finRange i)]

omit [DecidableEq F] in
theorem callbacks_ofList (h : l.length ≤ n) : (ofList n l).callbacks = l := by
  have hmap : (List.finRange n).map (ofList n l) =
      l.map some ++ List.replicate (n - l.length) none := by
    refine List.ext_getElem (by simp; omega) fun i hi _ => ?_
    have hin : i < n := by simpa using hi
    simp only [List.getElem_map, List.getElem_finRange, Fin.cast_mk, ofList]
    by_cases hil : i < l.length
    · rw [List.getElem_append_left (by simpa using hil), List.getElem_map, List.getElem?_eq_getElem hil]
    · rw [List.getElem_append_right (by simpa using hil), List.getElem_replicate,
        List.getElem?_eq_none (by omega)]
  rw [callbacks, hmap, List.takeWhile_append_of_pos (by simp)]
  have htail : (List.replicate (n - l.length) (none : Option F)).takeWhile Option.isSome = [] := by
    cases n - l.length <;> rfl
  rw [htail, List.append_nil]
  simp [List.reduceOption]

/-- Entry `j`, NULL behind the table. -/
def get? (t : HookTbl n F) (j : Nat) : Option F := if h : j < n then t ⟨j,h⟩ else none

omit [DecidableEq F] in
theorem get?_coe (t : HookTbl n F) (j : Fin n) : t.get? j = t j := dif_pos j.isLt

omit [DecidableEq F] in
theorem get?_ofList (h : l.length ≤ n) (j : Nat) : (ofList n l).get? j = l[j]? := by
  unfold get?
  split
  · rfl
  · rw [List.getElem?_eq_none (by omega)]

omit [DecidableEq F] in
theorem get?_store_ne {i : Fin n} {x : Option F} {j : Nat} (h : j ≠ i) :
    (t.store (i,x)).get? j = t.get? j := by
  unfold get?
  split
  · exact Function.update_of_ne (fun hj => h (congrArg Fin.val hj)) _ _
  · rfl

/-- No function stands behind a NULL after entry `i`. -/
def PackedAfter (t : HookTbl n F) (i : Nat) : Prop :=
  ∀ j, i < j → t.get? j = none → t.get? (j+1) = none

omit [DecidableEq F] in
theorem PackedAfter.none_from {i j : Nat} (h : t.PackedAfter i) (hnone : t.get? (i+1) = none)
    (hj : i + 1 ≤ j) : t.get? j = none := by
  induction j, hj using Nat.le_induction with
  | base => exact hnone
  | succ j hj ih => exact h j hj ih

omit [DecidableEq F] in
private theorem last_round {i : Nat} (hi : i < n) (hempty : t ⟨i,hi⟩ = none) (h : t.PackedAfter i)
    (hnone : t.get? (i+1) = none) (j : Fin n) : t j = if j < i then t j else t.get? (j+1) := by
  split
  · rfl
  · rename_i hlt
    rw [h.none_from hnone (by omega)]
    by_cases hj : j.val = i
    · rwa [show j = ⟨i,hi⟩ from Fin.ext hj]
    · rw [← get?_coe t j]
      exact h.none_from hnone (by omega)

omit [DecidableEq F] in
/-- The loop moves each entry after the NULL at `i` back by one. -/
theorem foldl_packFrom {rounds i : Nat} (hi : i < n) (hrounds : n - 1 - i ≤ rounds)
    (hempty : t ⟨i,hi⟩ = none) (h : t.PackedAfter i) (j : Fin n) :
    (t.packFrom i rounds).foldl store t j = if j < i then t j else t.get? (j+1) := by
  induction rounds generalizing t i with
  | zero =>
    have hend : t.get? (i+1) = none := dif_neg (by omega)
    exact last_round hi hempty h hend j
  | succ rounds ih =>
    rw [packFrom]
    split
    · rename_i hlt
      split
      · rename_i fn hfn
        have hne : (⟨i,hi⟩ : Fin n) ≠ ⟨i+1,hlt⟩ := fun h => by simp at h
        have hnext : t.get? (i+1) = some fn := (dif_pos hlt).trans hfn
        have hafter : ∀ k, i + 1 < k →
            ((t.store (⟨i,hi⟩,some fn)).store (⟨i+1,hlt⟩,none)).get? k = t.get? k := fun k hk => by
          rw [get?_store_ne (by simp only; omega), get?_store_ne (by simp only; omega)]
        have hhole : (t.store (⟨i,hi⟩,some fn)).store (⟨i+1,hlt⟩,none) ⟨i+1,hlt⟩ = none :=
          Function.update_self ..
        have hpacked : ((t.store (⟨i,hi⟩,some fn)).store (⟨i+1,hlt⟩,none)).PackedAfter (i+1) :=
          fun k hk hnone => by
            rw [hafter _ (by omega)] at hnone ⊢
            exact h k (by omega) hnone
        rw [List.foldl_cons, List.foldl_cons, ih hlt (by omega) hhole hpacked]
        rcases Nat.lt_trichotomy j i with hji | hji | hji
        · rw [if_pos (by omega), if_pos hji, ← get?_coe ((t.store _).store _), ← get?_coe t,
            get?_store_ne (by simp only; omega), get?_store_ne (by simp only; omega)]
        · rw [if_pos (by omega), if_neg (by omega), hji, hnext, show j = ⟨i,hi⟩ from Fin.ext hji]
          simp [store, hne]
        · rw [if_neg (by omega), if_neg (by omega), hafter _ (by omega)]
      · rename_i hnone
        exact last_round hi hempty h ((dif_pos hlt).trans hnone) j
    · exact last_round hi hempty h (dif_neg (by omega)) j

omit [DecidableEq F] in
theorem update_register (h : l.length ≤ n) (fn : F) (old : HookTbl n F) :
    ((ofList n l).hookRegister fn).status =
      (if l.length < n then .ok else .allocFailed) ∧
    (l.length < n →
      ((ofList n l).hookRegister fn).stores.foldl store old = ofList n (l ++ [fn])) := by
  unfold hookRegister
  by_cases hlt : l.length < n
  · have hfind : (ofList n l).find Option.isNone = some ⟨l.length,hlt⟩ := by
      refine find_of_first (by simp [ofList]) fun j hj => ?_
      have hj : j.val < l.length := hj
      simp [ofList, hj]
    simp only [hfind, hlt, if_true, true_and, forall_const]
    rw [List.foldl_append, foldl_copy]
    funext j
    simp only [List.foldl_cons, List.foldl_nil, store]
    by_cases hj : j.val = l.length
    · rw [show j = ⟨l.length,hlt⟩ from Fin.ext hj]
      simp [ofList]
    · rw [Function.update_of_ne fun h => hj (congrArg Fin.val h)]
      simp only [ofList]
      rcases Nat.lt_or_gt_of_ne hj with hj | hj
      · rw [List.getElem?_append_left hj]
      · rw [List.getElem?_eq_none (by omega), List.getElem?_eq_none (by simp; omega)]
  · have hfind : (ofList n l).find Option.isNone = none := by
      refine find_eq_none fun j => ?_
      have hj : j.val < l.length := by omega
      simp [ofList, hj]
    simp only [hfind, hlt, if_false, true_and, false_implies]

theorem update_unregister (h : l.length ≤ n) (fn : F) (old : HookTbl n F) :
    ((ofList n l).hookUnregister fn).status = (if fn ∈ l then .ok else .notFound) ∧
    (fn ∈ l →
      ((ofList n l).hookUnregister fn).stores.foldl store old = ofList n (l.erase fn)) := by
  unfold hookUnregister
  by_cases hmem : fn ∈ l
  · have hidx : l.idxOf fn < l.length := List.idxOf_lt_length_iff.2 hmem
    have hin : l.idxOf fn < n := by omega
    have hfind : (ofList n l).find (· = some fn) = some ⟨l.idxOf fn,hin⟩ := by
      refine find_of_first ?_ fun j hj => ?_
      · simp only [ofList, List.getElem?_idxOf hmem, decide_true]
      · have hj : j.val < l.idxOf fn := hj
        have hfirst : j.val < l.findIdx (· == fn) := hj
        have hne := List.not_of_lt_findIdx hfirst
        have hjl : j.val < l.length := by omega
        simpa [ofList, hjl] using hne
    have hhole : (ofList n l).store (⟨l.idxOf fn,hin⟩,none) ⟨l.idxOf fn,hin⟩ = none :=
      Function.update_self ..
    have hpacked : ((ofList n l).store (⟨l.idxOf fn,hin⟩,none)).PackedAfter (l.idxOf fn) := by
      intro j hj hnone
      rw [get?_store_ne (by simp only; omega), get?_ofList h] at hnone ⊢
      rw [List.getElem?_eq_none_iff] at hnone ⊢
      omega
    simp only [hfind, hmem, if_true, packHookTbl, hhole, Option.isSome_none, Bool.false_eq_true,
      if_false, true_and, forall_const]
    rw [List.foldl_append, foldl_copy]
    funext j
    rw [List.foldl_cons, foldl_packFrom hin le_rfl hhole hpacked,
      List.erase_eq_eraseIdx_of_idxOf rfl, ofList, List.getElem?_eraseIdx]
    split
    · rw [← get?_coe ((ofList n l).store _), get?_store_ne (by simp only; omega), get?_ofList h]
    · rw [get?_store_ne (by simp only; omega), get?_ofList h]
  · have hfind : (ofList n l).find (· = some fn) = none := by
      refine find_eq_none fun j => decide_eq_false fun hj => hmem ?_
      exact List.mem_of_getElem? hj
    simp only [hfind, hmem, if_false, true_and, false_implies]

end HookTbl

open HookTbl

/-- How a call can fail. -/
def Op.failure : Op F → Status
  | .register _ => .allocFailed
  | .unregister _ => .notFound

theorem Op.onList_length {op : Op F} {l' : List F} (h : l.length ≤ n) (hl : op.onList n l = some l') :
    l'.length ≤ n := by
  cases op with
  | register fn =>
    obtain ⟨hlt,hl⟩ := Option.ite_none_right_eq_some.1 hl
    cases hl
    simp only [List.length_append, List.length_singleton]
    omega
  | unregister fn =>
    obtain ⟨-,hl⟩ := Option.ite_none_right_eq_some.1 hl
    cases hl
    exact (List.length_erase_le).trans h

/-- The stores of a call into any table leave there the list after the call. -/
theorem Op.update_some {op : Op F} {l' : List F} (h : l.length ≤ n) (hl : op.onList n l = some l')
    (old : HookTbl n F) : (op.update (ofList n l)).status = .ok ∧
      (op.update (ofList n l)).stores.foldl store old = ofList n l' := by
  cases op with
  | register fn =>
    obtain ⟨hlt,hl⟩ := Option.ite_none_right_eq_some.1 hl
    cases hl
    obtain ⟨hs,ht⟩ := update_register h fn old
    exact ⟨hs.trans (if_pos hlt),ht hlt⟩
  | unregister fn =>
    obtain ⟨hmem,hl⟩ := Option.ite_none_right_eq_some.1 hl
    cases hl
    obtain ⟨hs,ht⟩ := update_unregister h fn old
    exact ⟨hs.trans (if_pos hmem),ht hmem⟩

theorem Op.update_none {op : Op F} (h : l.length ≤ n) (hl : op.onList n l = none) :
    (op.update (ofList n l)).status = op.failure := by
  cases op with
  | register fn =>
    have hlt : ¬l.length < n := fun hlt => by simp [Op.onList, hlt] at hl
    exact (update_register h fn (ofList n l)).1.trans (if_neg hlt)
  | unregister fn =>
    have hmem : fn ∉ l := fun hmem => by simp [Op.onList, hmem] at hl
    exact (update_unregister h fn (ofList n l)).1.trans (if_neg hmem)

namespace HookStorage
variable {s : HookStorage n F}

/-- The active table has the functions of the list, and is the one updates copy. -/
structure Holds (s : HookStorage n F) (l : List F) : Prop where
  length : l.length ≤ n
  table : s.hookTblStorage s.active = ofList n l
  idx : s.idx = s.active

omit [DecidableEq F] in
theorem nextIdx_ne (s : HookStorage n F) : s.nextIdx ≠ s.idx := by
  intro h
  have hval := congrArg Fin.val h
  unfold nextIdx at hval
  split at hval
  · simp only at hval
    omega
  · rename_i hge
    have hzero : s.idx.val = 0 := hval.symm
    rw [hzero] at hge
    exact hge (by decide)

omit [DecidableEq F] in
theorem holds_init : (init : HookStorage n F).Holds [] := ⟨Nat.zero_le _,rfl,rfl⟩

theorem Holds.call_some {op : Op F} {l' : List F} (h : s.Holds l) (hl : op.onList n l = some l') :
    (s.call op).1 = .ok ∧ (s.call op).2.Holds l' := by
  obtain ⟨hs,ht⟩ := op.update_some h.length hl (s.hookTblStorage s.nextIdx)
  simp only [call, h.idx, h.table, hs, if_true, true_and]
  exact ⟨op.onList_length h.length hl,by simp only [Function.update_self]; exact ht,rfl⟩

theorem Holds.call_none {op : Op F} (h : s.Holds l) (hl : op.onList n l = none) :
    (s.call op).1 = op.failure ∧ (s.call op).2.Holds l ∧ (s.call op).2.active = s.active ∧
      (s.call op).2.idx = s.idx ∧
      (s.call op).2.hookTblStorage s.active = s.hookTblStorage s.active := by
  have hs := op.update_none h.length hl
  have hne : op.failure ≠ .ok := by cases op <;> nofun
  have hnext : s.active ≠ s.nextIdx := fun hn => s.nextIdx_ne (hn.symm.trans h.idx.symm)
  have htable : (s.call op).2.hookTblStorage s.active = s.hookTblStorage s.active := by
    simp only [call, h.idx, h.table, hs, hne, if_false]
    rw [Function.update_of_ne hnext, h.table]
  have hrest : (s.call op).2.active = s.active ∧ (s.call op).2.idx = s.idx := by
    simp only [call, h.idx, h.table, hs, hne, if_false, and_self]
  refine ⟨by simp only [call, h.idx, h.table, hs],⟨h.length,?_,?_⟩,hrest.1,hrest.2,htable⟩
  · rw [hrest.1, htable, h.table]
  · rw [hrest.1, hrest.2, h.idx]

theorem Holds.call (h : s.Holds l) (op : Op F) :
    (s.call op).2.Holds ((op.onList n l).getD l) := by
  cases hl : op.onList n l with
  | some l' => exact (h.call_some hl).2
  | none => exact (h.call_none hl).2.1

theorem Holds.calls (h : s.Holds l) (ops : List (Op F)) :
    (s.calls ops).Holds (ops.foldl (fun l op => (op.onList n l).getD l) l) := by
  induction ops generalizing s l with
  | nil => exact h
  | cons op ops ih => exact ih (h.call op)

theorem holds_calls (ops : List (Op F)) : (init.calls ops : HookStorage n F).Holds (listAfter n ops) :=
  holds_init.calls ops

end HookStorage
end EmOdp.Hooks
