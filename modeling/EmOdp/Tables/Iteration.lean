import EmOdp.Lib.CoreSum
import EmOdp.Lib.Cursor
import EmOdp.QueuePools.Init
import Mathlib.Data.PNat.Notation

/-! The tables of the EM objects, in which any core allocates and frees elements while others
iterate over them. -/
namespace EmOdp.Tables
open Lib

/-- Where an element of a table is. Elements that are kept in a stash have a flag `in_stash`. -/
inductive Place where
  | pool
  /-- out of the stash, with the flag still set -/
  | got
  /-- allocated, but not counted yet -/
  | taken
  | counted
  /-- with the flag set, before it is put into the stash -/
  | leaving
  deriving DecidableEq

/-- `eo_allocated` and its siblings: not `objpool_in_pool`, or not `in_stash` -/
def Place.allocated : Place → Bool
  | .taken | .counted => true
  | _ => false

/-- The element is included in the count of its table. -/
def Place.weight : Place → Nat
  | .counted | .leaving => 1
  | _ => 0

structure State (n : Nat) where
  place : Fin n → Place
  /-- `eo_count` and its siblings -/
  count : Nat
  /-- the calls that have put an element back and not decremented the count yet -/
  uncounted : Nat

inductive Label (n : Nat) where
  /-- `objpool_rem`, `objpool_rem_elem` -/
  | rem (i : Fin n)
  /-- `odp_stash_get_u32` -/
  | get (i : Fin n)
  /-- the flag of an element from the stash is cleared -/
  | clear (i : Fin n)
  | inc (i : Fin n)
  /-- `objpool_add` -/
  | add (i : Fin n)
  | flag (i : Fin n)
  /-- `odp_stash_put_u32`; the flag is cleared if it fails -/
  | put (i : Fin n) (ok : Bool)
  | dec

namespace State
variable {n : Nat} (s : State n)

def allocated (i : Nat) : Bool := if h : i < n then (s.place ⟨i,h⟩).allocated else false

def move (i : Fin n) (p : Place) : State n := { s with place := Function.update s.place i p }

/-- The steps of `eo_alloc` and `eo_free` and their siblings -/
def step (inStash : Bool) : Label n → Option (State n)
  | .rem i => if inStash = false ∧ s.place i = .pool then some (s.move i .taken) else none
  | .get i => if inStash = true ∧ s.place i = .pool then some (s.move i .got) else none
  | .clear i => if s.place i = .got then some (s.move i .taken) else none
  | .inc i =>
    if s.place i = .taken then some { s.move i .counted with count := s.count + 1 } else none
  | .add i =>
    if inStash = false ∧ s.place i = .counted then
      some { s.move i .pool with uncounted := s.uncounted + 1 }
    else none
  | .flag i => if inStash = true ∧ s.place i = .counted then some (s.move i .leaving) else none
  | .put i ok =>
    if s.place i = .leaving then
      some (if ok then { s.move i .pool with uncounted := s.uncounted + 1 } else s.move i .counted)
    else none
  | .dec =>
    if 0 < s.uncounted then some { s with count := s.count - 1, uncounted := s.uncounted - 1 }
    else none

/-- No element is allocated. -/
structure Initial (s : State n) : Prop where
  place : ∀ i, s.place i = .pool
  count : s.count = 0
  uncounted : s.uncounted = 0

def machine (n : Nat) (inStash : Bool) : System (State n) (Label n) :=
  .ofFn Initial fun s l => s.step inStash l

/-- The count is the number of the elements, up to the frees that are going on. -/
def Exact : Prop := s.count = ∑ i, (s.place i).weight + s.uncounted

variable {s} {t : State n} {i : Fin n} {p : Place}

/-- One element is moved, and the count and the frees that are going on account for it. -/
theorem Exact.move (h : s.Exact) (hp : t.place = Function.update s.place i p)
    (hc : t.count + (s.place i).weight + s.uncounted = s.count + p.weight + t.uncounted) : t.Exact := by
  have hsum : ∑ j, (t.place j).weight + (s.place i).weight = ∑ j, (s.place j).weight + p.weight := by
    rw [hp, ← sum_update (fun j => (s.place j).weight) i p.weight]
    congr 1
    refine Finset.sum_congr rfl fun j _ => ?_
    by_cases hj : j = i
    · rw [hj, Function.update_self, Function.update_self]
    · rw [Function.update_of_ne hj, Function.update_of_ne hj]
  unfold Exact at h ⊢
  omega

theorem exact_step {inStash : Bool} {l : Label n} (h : s.Exact) (hst : s.step inStash l = some t) :
    t.Exact := by
  cases l with
  | rem i =>
    simp only [step] at hst
    split at hst <;> cases hst
    rename_i hp
    exact h.move rfl (by rw [hp.2]; rfl)
  | get i =>
    simp only [step] at hst
    split at hst <;> cases hst
    rename_i hp
    exact h.move rfl (by rw [hp.2]; rfl)
  | clear i =>
    simp only [step] at hst
    split at hst <;> cases hst
    rename_i hp
    exact h.move rfl (by rw [hp]; rfl)
  | inc i =>
    simp only [step] at hst
    split at hst <;> cases hst
    rename_i hp
    exact h.move rfl (by rw [hp]; rfl)
  | add i =>
    simp only [step] at hst
    split at hst <;> cases hst
    rename_i hp
    refine h.move rfl ?_
    rw [hp.2]
    exact Nat.add_right_comm _ _ _
  | flag i =>
    simp only [step] at hst
    split at hst <;> cases hst
    rename_i hp
    exact h.move rfl (by rw [hp.2]; rfl)
  | put i ok =>
    simp only [step] at hst
    split at hst <;> cases hst
    rename_i hp
    cases ok with
    | true =>
      refine h.move (p := .pool) rfl ?_
      rw [hp]
      exact Nat.add_right_comm _ _ _
    | false => exact h.move (p := .counted) rfl (by rw [hp]; rfl)
  | dec =>
    simp only [step] at hst
    split at hst <;> cases hst
    unfold Exact at h ⊢
    dsimp only
    omega

theorem exact_initial (h : s.Initial) : s.Exact := by
  rw [Exact, h.count, h.uncounted, Finset.sum_eq_zero]
  intro i _
  rw [h.place]
  rfl

theorem reachable_exact {inStash : Bool} {allowed : State n → Label n → State n → Prop}
    (h : (machine n inStash).ReachableVia allowed s) : s.Exact :=
  h.invariant (I := Exact) (fun _ hi => exact_initial hi) fun _ _ _ hs hst _ => exact_step hs hst

theorem Exact.count_ne_zero (h : s.Exact) (hi : s.place i = .counted) : s.count ≠ 0 := by
  have hle : (s.place i).weight ≤ ∑ j, (s.place j).weight := le_sum (fun j => (s.place j).weight) i
  have hone : (s.place i).weight = 1 := by rw [hi]; rfl
  rw [Exact] at h
  omega

theorem allocated_val (i : Fin n) : s.allocated i = (s.place i).allocated := by
  rw [allocated, dif_pos i.isLt]

/-- No core allocates or frees an element. -/
def Settled (s : State n) : Prop :=
  s.uncounted = 0 ∧ ∀ i, s.place i = .pool ∨ s.place i = .counted

/-- The count of a table that is left alone is the number of its allocated elements. -/
theorem Exact.count_settled (h : s.Exact) (hset : s.Settled) :
    s.count = (Finset.univ.filter fun i => (s.place i).allocated = true).card := by
  rw [Finset.card_filter, h, hset.1, Nat.add_zero]
  refine Finset.sum_congr rfl fun i _ => ?_
  rcases hset.2 i with hp | hp <;> rw [hp] <;> rfl

end State

/-- A table of `size` elements with the handles `idx2hdl` of its indexes -/
structure Table (η : Type) where
  size : Nat
  pos : 0 < size
  idx2hdl : Nat → η
  /-- free elements are in a stash, not in an object pool -/
  inStash : Bool := false

namespace Table
variable {η : Type} (tbl : Table η) (w : Nat → State tbl.size)

/-- `em_eo_first` and its siblings: `num` and the result, none for an undefined handle -/
def first (c : Cursor) : Nat × Option η × Cursor :=
  let r := Cursor.first w State.allocated tbl.size State.count c
  ((w c.reads).count,r.1.map tbl.idx2hdl,r.2)

/-- `em_eo_next` and its siblings -/
def next (c : Cursor) : Option η × Cursor :=
  let r := Cursor.next w State.allocated tbl.size c
  (r.1.map tbl.idx2hdl,r.2)

/-- `for (e = first(); e != UNDEF; e = next()) body(e)`, with the numbers of the reads that found
the elements -/
def iterate (body : Nat → Cursor → Cursor) (c : Cursor) : Option (List (Nat × Nat) × Cursor) :=
  Cursor.loop w State.allocated tbl.size State.count body c

variable {tbl w}

/-- An iteration over a table that is left alone returns each allocated element. -/
theorem length_settled {s : State tbl.size} {c d : Cursor} {l : List (Nat × Nat)} (hs : s.Exact)
    (hset : s.Settled) (hv : Cursor.Looped w State.allocated tbl.size State.count c l d)
    (hw : ∀ k, c.reads ≤ k → k < d.reads → w k = s) : l.length = s.count := by
  have hmem (i : Fin tbl.size) : i.val ∈ l.map Prod.fst ↔ (s.place i).allocated = true := by
    refine ⟨fun hi => ?_,fun hi => ?_⟩
    · obtain ⟨a,ha,hai⟩ := List.mem_map.1 hi
      obtain ⟨-,hlo,hhi,hhit⟩ := hv.hits a ha
      rwa [hw a.2 hlo.le hhi, hai, State.allocated_val] at hhit
    · have hcounted : s.place i = .counted := by
        refine (hset.2 i).resolve_left fun hp => ?_
        rw [hp] at hi
        cases hi
      refine hv.mem ?_ i.isLt fun k hk hkd => ?_
      · rw [hw _ (Nat.le_refl _) hv.reads]
        exact hs.count_ne_zero hcounted
      · rw [hw k hk.le hkd, State.allocated_val, hcounted]
        rfl
  have hlen : (l.map Prod.fst).length = l.length := List.length_map Prod.fst
  rw [hs.count_settled hset, ← hlen, ← List.toFinset_card_of_nodup hv.nodup,
    ← Finset.card_map Fin.valEmbedding]
  congr 1
  ext m
  rw [List.mem_toFinset, Finset.mem_map]
  constructor
  · intro hm
    obtain ⟨a,ha,rfl⟩ := List.mem_map.1 hm
    refine ⟨⟨a.1,(hv.hits a ha).1⟩,?_,rfl⟩
    exact Finset.mem_filter.2 ⟨Finset.mem_univ _,(hmem _).1 hm⟩
  · rintro ⟨i,hi,rfl⟩
    exact (hmem i).2 (Finset.mem_filter.1 hi).2

variable (tbl) in
/-- However elements are allocated and freed during an iteration, it ends, returns elements in the
order of their indexes, each one allocated when it is found, and returns every element that is
allocated all the time. -/
theorem iteration_exact (hw : (State.machine tbl.size tbl.inStash).Sampled (fun _ _ _ => True) w)
    {body : Nat → Cursor → Cursor} (hbody : Cursor.Keeps body) (c : Cursor) :
    ∃ l d, tbl.iterate w body c = some (l,d) ∧ (l.Pairwise fun a b => a.1 < b.1) ∧
      (∀ a ∈ l, c.reads < a.2 ∧ a.2 < d.reads ∧ (w a.2).allocated a.1 = true) ∧
      (∀ i, (∀ k, c.reads ≤ k → k < d.reads → (w k).place i = .counted) → i.val ∈ l.map Prod.fst) ∧
      (∀ s : State tbl.size, s.Settled → (∀ k, c.reads ≤ k → k < d.reads → w k = s) →
        l.length = (tbl.first w c).1) ∧
      tbl.next w d = (none,d) := by
  obtain ⟨l,d,hl,hv⟩ := Cursor.loop_looped w State.allocated State.count tbl.pos hbody c
  refine ⟨l,d,hl,hv.sorted.imp fun h => h.1,fun a ha => ?_,fun i hi => ?_,fun s hset hs => ?_,?_⟩
  · obtain ⟨-,hlo,hhi,hhit⟩ := hv.hits a ha
    exact ⟨hlo,hhi,hhit⟩
  · refine hv.mem ?_ i.isLt fun k hk hkd => ?_
    · exact (State.reachable_exact (hw.reachable _)).count_ne_zero (hi _ (Nat.le_refl _) hv.reads)
    · rw [State.allocated_val, hi k hk.le hkd]
      rfl
  · have hexact := State.reachable_exact (hw.reachable c.reads)
    rw [hs _ (Nat.le_refl _) hv.reads] at hexact
    have hnum : (tbl.first w c).1 = s.count := congrArg State.count (hs _ (Nat.le_refl _) hv.reads)
    rw [hnum]
    exact length_settled hexact hset hv hs
  · rw [next, Cursor.next_ended hv.ended]
    rfl

end Table

/-- `EM_MAX_EOS` and the sizes of the other tables, and the id of the device -/
structure Sizes where
  emMaxEos : ℕ+
  emConfigPools : ℕ+
  emMaxAtomicGroups : ℕ+
  emMaxEventGroups : ℕ+
  emMaxQueueGroups : ℕ+
  maxQueueNum : ℕ+
  deviceId : BitVec 16

/-- `eo_idx2hdl`, `pool_idx2hdl`, `agrp_idx2hdl`, `egrp_idx2hdl` and `qgrp_idx2hdl` -/
def idx2hdl (idx : Nat) : Nat := idx + 1

section
variable (z : Sizes)

def eoTbl : Table Nat := ⟨z.emMaxEos,z.emMaxEos.2,idx2hdl,false⟩
def mpoolTbl : Table Nat := ⟨z.emConfigPools,z.emConfigPools.2,idx2hdl,false⟩
def atomicGroupTbl : Table Nat := ⟨z.emMaxAtomicGroups,z.emMaxAtomicGroups.2,idx2hdl,false⟩
def eventGroupTbl : Table Nat := ⟨z.emMaxEventGroups,z.emMaxEventGroups.2,idx2hdl,true⟩
def queueGroupTbl : Table Nat := ⟨z.emMaxQueueGroups,z.emMaxQueueGroups.2,idx2hdl,false⟩
def queueTbl : Table QueuePools.EmQueue :=
  ⟨z.maxQueueNum,z.maxQueueNum.2,QueuePools.queueIdx2hdl z.deviceId,false⟩

def emEoFirst := (eoTbl z).first
def emEoNext := (eoTbl z).next
def emPoolFirst := (mpoolTbl z).first
def emPoolNext := (mpoolTbl z).next
def emAtomicGroupFirst := (atomicGroupTbl z).first
def emAtomicGroupNext := (atomicGroupTbl z).next
def emEventGroupFirst := (eventGroupTbl z).first
def emEventGroupNext := (eventGroupTbl z).next
def emQueueGroupFirst := (queueGroupTbl z).first
def emQueueGroupNext := (queueGroupTbl z).next
def emQueueFirst := (queueTbl z).first
def emQueueNext := (queueTbl z).next

end

private theorem threeGroups_pos : 0 < 3 := Nat.succ_pos 2

private def threeGroups : Table Nat := ⟨3,threeGroups_pos,idx2hdl,true⟩

private def noGroups : State 3 := ⟨fun _ => .pool,0,0⟩

private theorem noGroups_initial : noGroups.Initial := ⟨fun _ => rfl,rfl,rfl⟩

private def twoGroups : Option (State 3) :=
  System.exec (fun s l => State.step s true l) (fun _ _ _ => true) noGroups
    [.get 0, .clear 0, .inc 0, .get 2, .clear 2, .inc 2]

private theorem twoGroups_isSome : twoGroups.isSome = true := by decide

private def oneFlagged : State 3 := (twoGroups.get twoGroups_isSome).move 0 .leaving

/-- Group 0 is freed between the first two reads. -/
private def freed (k : Nat) : State 3 := if k = 0 then twoGroups.get twoGroups_isSome else oneFlagged

private theorem oneFlagged_step :
    (twoGroups.get twoGroups_isSome).step true (.flag 0) = some oneFlagged := by
  rw [State.step, if_pos]
  · rfl
  · decide

private theorem freed_sampled : (State.machine 3 true).Sampled (fun _ _ _ => True) freed where
  start := System.ReachableVia.exec (fun _ _ _ _ => trivial) (.start noGroups_initial)
    (Option.some_get twoGroups_isSome).symm
  next k := by
    cases k with
    | zero => exact .single ⟨.flag 0,oneFlagged_step,trivial⟩
    | succ k => exact .refl

theorem iteration_exact_freed : ∃ l d, threeGroups.iterate freed (fun _ c => c) ⟨0,0⟩ = some (l,d) ∧
    2 ∈ l.map Prod.fst := by
  have hbody : Cursor.Keeps fun _ c => c := fun _ _ => ⟨rfl,Nat.le_refl _⟩
  obtain ⟨l,d,hl,-,-,hall,-⟩ := threeGroups.iteration_exact freed_sampled hbody ⟨0,0⟩
  refine ⟨l,d,hl,hall (2 : Fin 3) fun k _ _ => ?_⟩
  cases k with
  | zero => decide
  | succ k =>
    have hp : oneFlagged.place 2 = .counted := by decide
    exact hp

example : (threeGroups.iterate freed (fun _ c => c) ⟨0,0⟩).map (fun r => r.1) = some [(2,3)] := by
  decide

end EmOdp.Tables
