import Mathlib.Data.List.Nodup
import Mathlib.Logic.Function.Basic
import EmOdp.Lib.RoundRobin

/-! Object pools of free elements, each divided into subpools. -/
namespace EmOdp.QueuePools

/-- `objpool_elem_t`, less its list node -/
structure ObjpoolElem where
  subpoolIdx : Nat := 0
  inPool : Bool := false
  deriving DecidableEq, Repr

/-- Pools `κ` of elements that are embedded in the objects `ι`. -/
structure Objpools (κ ι : Type) where
  elem : ι → ObjpoolElem
  /-- the elements linked to `subpool[idx].list_head`, in order -/
  subpool : κ → Nat → List ι
  nbrSubpools : κ → Nat

variable {κ ι : Type} [DecidableEq κ] [DecidableEq ι]

namespace Objpools
variable (p : Objpools κ ι)

def setSubpool (k : κ) (idx : Nat) (l : List ι) : Objpools κ ι :=
  { p with subpool := Function.update p.subpool k (Function.update (p.subpool k) idx l) }

def setElem (x : ι) (e : ObjpoolElem) : Objpools κ ι :=
  { p with elem := Function.update p.elem x e }

/-- `objpool_add` -/
def objpoolAdd (k : κ) (subpoolIdx : Nat) (x : ι) : Objpools κ ι :=
  let idx := subpoolIdx % p.nbrSubpools k
  (p.setSubpool k idx (p.subpool k idx ++ [x])).setElem x ⟨idx,true⟩

/-- The loop of `objpool_rem` over the rounds that are left. -/
def remFrom (k : κ) (subpoolIdx : Nat) : List Nat → Option (ι × Objpools κ ι)
  | [] => none
  | i :: rounds =>
    let idx := (subpoolIdx+i) % p.nbrSubpools k
    match p.subpool k idx with
    | x :: rest => some (x,(p.setSubpool k idx rest).setElem x { p.elem x with inPool := false })
    | [] => remFrom k subpoolIdx rounds

/-- `objpool_rem` -/
def objpoolRem (k : κ) (subpoolIdx : Nat) : Option (ι × Objpools κ ι) :=
  p.remFrom k subpoolIdx (List.range (p.nbrSubpools k))

/-- `objpool_rem_elem` -/
def objpoolRemElem (k : κ) (x : ι) : Int × Objpools κ ι :=
  let idx := (p.elem x).subpoolIdx
  if (p.elem x).inPool then
    (0,(p.setSubpool k idx ((p.subpool k idx).erase x)).setElem x { p.elem x with inPool := false })
  else (-1,p)

/-- Every free element is linked to one subpool of its own pool, and no other element is. -/
structure Ok (home : ι → κ) (p : Objpools κ ι) : Prop where
  mem : ∀ k idx x, x ∈ p.subpool k idx ↔
    (p.elem x).inPool = true ∧ k = home x ∧ idx = (p.elem x).subpoolIdx
  lt : ∀ x, (p.elem x).inPool = true → (p.elem x).subpoolIdx < p.nbrSubpools (home x)
  nodup : ∀ k idx, (p.subpool k idx).Nodup

section Lemmas
variable {p} {home : ι → κ} {k : κ} {x y : ι} {idx : Nat} {q : Objpools κ ι}

omit [DecidableEq ι] in
@[simp] theorem elem_setSubpool {l : List ι} : (p.setSubpool k idx l).elem = p.elem := rfl

omit [DecidableEq ι] in
theorem subpool_setSubpool {k' : κ} {idx' : Nat} {l : List ι} :
    (p.setSubpool k idx l).subpool k' idx' = if k' = k ∧ idx' = idx then l else p.subpool k' idx' := by
  by_cases hk : k' = k
  · subst hk
    by_cases hi : idx' = idx
    · subst hi; simp [setSubpool]
    · simp [setSubpool, hi]
  · simp [setSubpool, hk]

theorem Ok.add (h : p.Ok home) (hx : (p.elem x).inPool = false) (hn : 0 < p.nbrSubpools (home x)) :
    (p.objpoolAdd (home x) idx x).Ok home := by
  have hnot : ∀ k idx, x ∉ p.subpool k idx := fun k idx hmem => by
    rw [((h.mem k idx x).1 hmem).1] at hx
    cases hx
  refine ⟨fun k' idx' y => ?_,fun y hy => ?_,fun k' idx' => ?_⟩
  · simp only [objpoolAdd, setElem, subpool_setSubpool, elem_setSubpool]
    by_cases hy : y = x
    · subst hy
      simp only [Function.update_self, true_and]
      split
      · rename_i heq
        simp [heq]
      · rename_i hne
        exact ⟨fun hmem => absurd hmem (hnot _ _),fun heq => absurd heq hne⟩
    · rw [Function.update_of_ne hy, ← h.mem]
      split
      · rename_i heq
        obtain ⟨rfl,rfl⟩ := heq
        simp [hy]
      · rfl
  · simp only [objpoolAdd, setElem] at hy ⊢
    by_cases hyx : y = x
    · subst hyx
      rw [Function.update_self]
      exact Nat.mod_lt _ hn
    · rw [Function.update_of_ne hyx] at hy ⊢
      exact h.lt y hy
  · simp only [objpoolAdd, setElem, subpool_setSubpool]
    split
    · exact List.Nodup.append (h.nodup _ _) (List.nodup_singleton x)
        (List.disjoint_singleton.2 (hnot _ _))
    · exact h.nodup k' idx'

/-- An element is taken out of its subpool. -/
theorem Ok.take (h : p.Ok home) (hx : (p.elem x).inPool = true) {l : List ι}
    (hl : ∀ y, y ∈ l ↔ y ∈ p.subpool (home x) (p.elem x).subpoolIdx ∧ y ≠ x) (hnodup : l.Nodup) :
    ((p.setSubpool (home x) (p.elem x).subpoolIdx l).setElem x
      { p.elem x with inPool := false }).Ok home := by
  refine ⟨fun k' idx' y => ?_,fun y hy => ?_,fun k' idx' => ?_⟩
  · simp only [setElem, subpool_setSubpool, elem_setSubpool]
    by_cases hy : y = x
    · subst hy
      simp only [Function.update_self, Bool.false_eq_true, false_and, iff_false]
      split
      · exact fun hmem => ((hl y).1 hmem).2 rfl
      · rename_i hne
        exact fun hmem => hne ((h.mem k' idx' y).1 hmem).2
    · rw [Function.update_of_ne hy, ← h.mem]
      split
      · rename_i heq
        obtain ⟨rfl,rfl⟩ := heq
        rw [hl y]
        exact and_iff_left hy
      · rfl
  · simp only [setElem] at hy ⊢
    by_cases hyx : y = x
    · subst hyx
      rw [Function.update_self] at hy
      cases hy
    · rw [Function.update_of_ne hyx] at hy ⊢
      exact h.lt y hy
  · simp only [setElem, subpool_setSubpool]
    split
    · exact hnodup
    · exact h.nodup k' idx'

/-- What an element given out was, and what is left. -/
structure Taken (home : ι → κ) (p : Objpools κ ι) (k : κ) (x : ι) (q : Objpools κ ι) : Prop where
  inPool : (p.elem x).inPool = true
  pool : home x = k
  ok : q.Ok home
  elem : q.elem = Function.update p.elem x { p.elem x with inPool := false }
  nbrSubpools : q.nbrSubpools = p.nbrSubpools

theorem Ok.remFrom (h : p.Ok home) {rounds : List Nat} (hr : p.remFrom k idx rounds = some (x,q)) :
    Taken home p k x q := by
  induction rounds with
  | nil => cases hr
  | cons i rounds ih =>
    rw [Objpools.remFrom] at hr
    split at hr
    · rename_i y rest hsub
      cases hr
      have hmem := (h.mem k ((idx+i) % p.nbrSubpools k) x).1 (by rw [hsub]; exact List.mem_cons_self)
      obtain ⟨hin,rfl,hidx⟩ := hmem
      have hnd := h.nodup (home x) ((idx+i) % p.nbrSubpools (home x))
      rw [hsub, List.nodup_cons] at hnd
      refine ⟨hin,rfl,?_,rfl,rfl⟩
      rw [hidx]
      refine h.take hin (fun y => ?_) hnd.2
      rw [← hidx, hsub, List.mem_cons]
      constructor
      · exact fun hy => ⟨.inr hy,fun hyx => hnd.1 (hyx ▸ hy)⟩
      · exact fun ⟨hy,hne⟩ => hy.resolve_left hne
    · exact ih hr

theorem remFrom_none {rounds : List Nat} (hr : p.remFrom k idx rounds = none) :
    ∀ i ∈ rounds, p.subpool k ((idx+i) % p.nbrSubpools k) = [] := by
  induction rounds with
  | nil => exact nofun
  | cons i rounds ih =>
    rw [Objpools.remFrom] at hr
    split at hr
    · cases hr
    · exact List.forall_mem_cons.2 ⟨‹_›,ih hr⟩

theorem Ok.rem_some (h : p.Ok home) (hr : p.objpoolRem k idx = some (x,q)) : Taken home p k x q :=
  h.remFrom hr

/-- Only an empty pool gives out no element. -/
theorem Ok.rem_none (h : p.Ok home) (hr : p.objpoolRem k idx = none) (hx : home x = k) :
    (p.elem x).inPool = false := by
  by_contra hin
  have hin : (p.elem x).inPool = true := by simpa using hin
  have hlt := h.lt x hin
  rw [hx] at hlt
  -- the round that looks into the subpool of `x`
  obtain ⟨i,hi,hidx⟩ := Lib.RoundRobin.exists_round idx hlt
  have hempty := remFrom_none hr i (List.mem_range.2 hi)
  rw [hidx] at hempty
  have hmem := (h.mem k (p.elem x).subpoolIdx x).2 ⟨hin,hx.symm,rfl⟩
  rw [hempty] at hmem
  cases hmem

theorem Ok.remElem (h : p.Ok home) (hin : (p.elem x).inPool = true) :
    ∃ q, p.objpoolRemElem (home x) x = (0,q) ∧ Taken home p (home x) x q := by
  refine ⟨_,if_pos hin,hin,rfl,?_,rfl,rfl⟩
  refine h.take hin (fun y => ?_) ((h.nodup _ _).erase x)
  rw [(h.nodup _ _).mem_erase_iff]
  exact and_comm

omit [DecidableEq κ] [DecidableEq ι] in
/-- A free element is in one subpool of one pool, one that is given out in none. -/
theorem Ok.located (h : p.Ok home) (x : ι) :
    ((p.elem x).inPool = true → ∃! loc : κ × Nat, x ∈ p.subpool loc.1 loc.2) ∧
    ((p.elem x).inPool = false → ∀ k idx, x ∉ p.subpool k idx) := by
  refine ⟨fun hin => ⟨(home x,(p.elem x).subpoolIdx),(h.mem _ _ x).2 ⟨hin,rfl,rfl⟩,
    fun loc hloc => ?_⟩,fun hout k idx hmem => ?_⟩
  · obtain ⟨-,hk,hidx⟩ := (h.mem _ _ x).1 hloc
    exact Prod.ext hk hidx
  · rw [((h.mem _ _ x).1 hmem).1] at hout
    cases hout

end Lemmas
end Objpools
end EmOdp.QueuePools
