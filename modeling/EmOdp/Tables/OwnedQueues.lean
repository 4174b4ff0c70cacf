import EmOdp.EoQueues.Records
import EmOdp.Lib.Cursor
import EmOdp.QueueTable.GroupRuns

/-! The queues of an EO or of a queue group as their iterators return them. These do not follow the
list of the queues, which may change meanwhile, but look through the whole queue table. -/
namespace EmOdp.Tables
open Lib QueueTable EoQueues

/-- What the iterator of the queues of an owner reads: EOs with `_eo_q_iter_eo`, queue groups with
`_qgrp_q_iter_qgrp` -/
structure Owners (S κ : Type) (n : Nat) where
  /-- `eo_allocated`, `queue_group_allocated` -/
  ownerAllocated : S → κ → Bool
  numQueues : S → κ → BitVec 32
  queueAllocated : S → Fin n → Bool
  /-- the `eo` or the `queue_group` of the queue -/
  owner : S → Fin n → Option κ

/-- The index and the owner that a core keeps -/
structure QueueIter (κ : Type) where
  cursor : Cursor
  owner : Option κ

namespace Owners
variable {S κ : Type} {n : Nat} [DecidableEq κ] (o : Owners S κ n)

/-- A queue is looked at twice: whether it is allocated, and then whose it is. -/
def hit (k : Option κ) (s : S × S) (i : Nat) : Bool :=
  if h : i < n then o.queueAllocated s.1 ⟨i,h⟩ && decide (o.owner s.2 ⟨i,h⟩ = k) else false

def count (k : κ) (s : S × S) : Nat := (o.numQueues s.2 k).toNat

/-- `em_eo_queue_first` and `em_queue_group_queue_first`: `num` and the index of the queue. An
owner that is not allocated leaves the iteration as it is. -/
def first (w : Nat → S × S) (k : κ) (it : QueueIter κ) : BitVec 32 × Option Nat × QueueIter κ :=
  if !o.ownerAllocated (w it.cursor.reads).1 k then
    (0,none,{ it with cursor := ⟨it.cursor.idx,it.cursor.reads+1⟩ })
  else
    let num := o.numQueues (w it.cursor.reads).2 k
    let r := Cursor.first w (o.hit (some k)) n (o.count k) it.cursor
    (num,r.1,⟨r.2,if num = 0 then it.owner else some k⟩)

/-- `em_eo_queue_next` and `em_queue_group_queue_next` -/
def next (w : Nat → S × S) (it : QueueIter κ) : Option Nat × QueueIter κ :=
  let r := Cursor.next w (o.hit it.owner) n it.cursor
  (r.1,{ it with cursor := r.2 })

/-- `for (q = first(k); q != UNDEF; q = next()) body(q)` -/
def iterate (w : Nat → S × S) (k : κ) (body : Nat → Cursor → Cursor) (it : QueueIter κ) :
    Option (List (Nat × Nat) × Cursor) :=
  let r := o.first w k it
  Cursor.visits w (o.hit r.2.2.owner) n body n (r.2.1,r.2.2.cursor)

/-- The list of the owner holds queues of its own, and `num_queues` counts them. -/
structure Lists (s : S) (k : κ) (xs : List (Fin n)) : Prop where
  mem : ∀ q ∈ xs, o.queueAllocated s q = true ∧ o.owner s q = some k
  nodup : xs.Nodup
  numQueues : o.numQueues s k = BitVec.ofNat 32 xs.length
  allocated : xs ≠ [] → o.ownerAllocated s k = true

variable {o} {s : S} {k : κ} {xs : List (Fin n)} {w : Nat → S × S} {it : QueueIter κ} {q : Fin n}
  {body : Nat → Cursor → Cursor} {l : List (Nat × Nat)} {d : Cursor}

omit [DecidableEq κ] in
theorem Lists.numQueues_ne_zero (h : o.Lists s k xs) (hn : n < 4294967296) (hq : q ∈ xs) :
    o.numQueues s k ≠ 0 := by
  have hlen : xs.length ≤ n := by simpa using h.nodup.length_le_card
  have hpos := List.length_pos_of_mem hq
  rw [h.numQueues]
  intro hc
  have hzero : xs.length % 4294967296 = 0 := by simpa using congrArg BitVec.toNat hc
  omega

/-- The queue is in the list of the owner. -/
def Has (o : Owners S κ n) (k : κ) (q : Fin n) (s : S) : Prop := ∃ xs, o.Lists s k xs ∧ q ∈ xs

theorem hit_val (s : S × S) : o.hit (some k) s q.val = true ↔
    o.queueAllocated s.1 q = true ∧ o.owner s.2 q = some k := by
  rw [hit, dif_pos q.isLt, Bool.and_eq_true, decide_eq_true_eq]

/-- The visits of an iteration over the queues of `k` -/
structure Iterated (o : Owners S κ n) (w : Nat → S × S) (k : κ) (c : Cursor) (l : List (Nat × Nat))
    (d : Cursor) : Prop where
  sorted : l.Pairwise fun a b => a.1 < b.1
  queues : ∀ a ∈ l, c.reads < a.2 ∧ a.2 < d.reads ∧ ∃ q : Fin n, q.val = a.1 ∧
    o.queueAllocated (w a.2).1 q = true ∧ o.owner (w a.2).2 q = some k
  complete : ∀ q, (∀ m, c.reads ≤ m → m < d.reads → o.Has k q (w m).1 ∧ o.Has k q (w m).2) →
    q.val ∈ l.map Prod.fst

theorem iterate_iterated (hpos : 0 < n) (hn : n < 4294967296) (hbody : Cursor.Keeps body)
    (k : κ) (it : QueueIter κ) :
    ∃ l d, o.iterate w k body it = some (l,d) ∧ it.cursor.reads < d.reads ∧
      o.Iterated w k it.cursor l d := by
  rw [iterate, first]
  cases halloc : o.ownerAllocated (w it.cursor.reads).1 k with
  | false =>
    refine ⟨[],_,Cursor.visits_none n,Nat.lt_succ_self _,.nil,fun a ha => absurd ha List.not_mem_nil,
      fun q hq => ?_⟩
    obtain ⟨⟨xs,hxs,hmem⟩,-⟩ := hq _ (Nat.le_refl _) (Nat.lt_succ_self _)
    cases halloc.symm.trans (hxs.allocated (List.ne_nil_of_mem hmem))
  | true =>
    obtain ⟨l,d,hl,hv⟩ := Cursor.loop_looped w (o.hit (some k)) (o.count k) hpos hbody
      it.cursor
    refine ⟨l,d,?_,hv.reads,hv.sorted.imp fun h => h.1,fun a ha => ?_,fun q hq => ?_⟩
    · rw [← hl, Cursor.loop]
      simp only [Bool.not_true, Bool.false_eq_true, if_false]
      by_cases hnum : o.numQueues (w it.cursor.reads).2 k = 0
      · have hcount : o.count k (w it.cursor.reads) = 0 := congrArg BitVec.toNat hnum
        rw [Cursor.first, if_pos hcount, Cursor.visits_none, Cursor.visits_none]
      · rw [if_neg hnum]
    · obtain ⟨hlt,hlo,hhi,hhit⟩ := hv.hits a ha
      exact ⟨hlo,hhi,⟨a.1,hlt⟩,rfl,(hit_val (q := ⟨a.1,hlt⟩) _).1 hhit⟩
    · obtain ⟨-,xs,hxs,hmem⟩ := hq _ (Nat.le_refl _) hv.reads
      refine hv.mem (fun hc => ?_) q.isLt fun m hm hmd => ?_
      · exact hxs.numQueues_ne_zero hn hmem (BitVec.eq_of_toNat_eq hc)
      · obtain ⟨⟨ys,hys,hy⟩,zs,hzs,hz⟩ := hq m hm.le hmd
        exact (hit_val _).2 ⟨(hys.mem q hy).1,(hzs.mem q hz).2⟩

omit [DecidableEq κ] in
/-- While nothing changes, the queues of the list are returned, each one once. -/
theorem Iterated.perm (h : o.Iterated w k it.cursor l d) (hxs : o.Lists s k xs)
    (hown : ∀ q, o.queueAllocated s q = true → o.owner s q = some k → q ∈ xs)
    (hw : ∀ m, it.cursor.reads ≤ m → m < d.reads → w m = (s,s)) :
    (l.map Prod.fst).Perm (xs.map Fin.val) := by
  have hnodup : (l.map Prod.fst).Nodup := List.pairwise_map.2 (h.sorted.imp fun hab => hab.ne)
  refine (List.perm_ext_iff_of_nodup hnodup (hxs.nodup.map Fin.val_injective)).2 fun j => ?_
  constructor
  · intro hj
    obtain ⟨a,ha,rfl⟩ := List.mem_map.1 hj
    obtain ⟨hlo,hhi,q,hq,halloc,howner⟩ := h.queues a ha
    rw [hw a.2 hlo.le hhi] at halloc howner
    exact List.mem_map.2 ⟨q,hown q halloc howner,hq⟩
  · intro hj
    obtain ⟨q,hq,rfl⟩ := List.mem_map.1 hj
    refine h.complete q fun m hm hmd => ?_
    rw [hw m hm hmd]
    exact ⟨⟨xs,hxs,hq⟩,xs,hxs,hq⟩

end Owners

/-- The states at the two looks at each queue -/
def looks {S : Type} (h : Nat → S) (m : Nat) : S × S := (h (2*m),h (2*m+1))

section Eo
variable {γ α ε ρ : Type} {n : Nat} [DecidableEq γ] [DecidableEq α] [DecidableEq ε]

def eoQueues (γ α ε ρ : Type) (n : Nat) : Owners (EoQueues.State (Fin n) γ α ε ρ) ε n where
  ownerAllocated s e := (s.eoElem e).allocated
  numQueues s e := (s.eoElem e).numQueues
  queueAllocated s q := (s.tbl.elem q).allocated
  owner s q := (s.binding q).eo

def emEoQueueFirst := (eoQueues γ α ε ρ n).first
def emEoQueueNext := (eoQueues γ α ε ρ n).next

variable {s : EoQueues.State (Fin n) γ α ε ρ} {e : ε}

omit [DecidableEq γ] [DecidableEq α] [DecidableEq ε] in
theorem eo_lists (h : s.Inv) (hc : s.Counted) :
    (eoQueues γ α ε ρ n).Lists s e (s.eoElem e).queueList where
  mem q hq := ⟨h.linked.allocated ((h.linked.bound q).1 ⟨e,(h.linked.mem e q).1 hq⟩).2,
    (h.linked.binding e q hq).eo⟩
  nodup := h.linked.nodup e
  numQueues := hc e
  allocated := h.linked.eo e

omit [DecidableEq γ] [DecidableEq α] [DecidableEq ε] in
theorem mem_of_eo (h : s.Inv) {q : Fin n} (hq : (s.binding q).eo = some e) :
    q ∈ (s.eoElem e).queueList := by
  cases helem : (s.binding q).eoElem with
  | none => cases (h.linked.unbound q helem).symm.trans hq
  | some d =>
    have hmem := (h.linked.mem d q).2 helem
    cases (h.linked.binding d q hmem).eo.symm.trans hq
    exact hmem

theorem reachable_counted
    (h : (EoQueues.State.machine (Fin n) γ α ε ρ).ReachableVia (fun s l _ => ¬s.Foreign l) s) :
    s.Counted ∧ s.Inv := by
  refine h.invariant (I := fun s => s.Counted ∧ s.Inv) (fun s hi => ?_) fun s l t hs hst hno => ?_
  · refine ⟨fun e => ?_,EoQueues.State.Initial.linked hi,EoQueues.State.Initial.family hi⟩
    rw [hi.eos]
    rfl
  · exact hs.1.changes rfl hs.2
      (EoQueues.State.step_changes { own := true } hs.2 hst (fun _ => hno) (fun hc => by cases hc) rfl
        (fun hc => by cases hc))

end Eo

/-- EO 0 of two has the queues 0 and 2 of three. -/
private def twoAdded : Option (EoQueues.State (Fin 3) Unit Unit (Fin 2) Unit) :=
  System.exec EoQueues.State.step (fun s l _ => decide (¬s.Foreign l)) emptyState
    [.createGroup (), .createQueue 0 { type := .atomic, queueGroup := some () },
      .createQueue 1 { type := .parallel, queueGroup := some () }, .createQueue 2 { type := .local_ },
      .createEo 0 eoParam, .createEo 1 eoParam, .addQueue 0 0 true true, .addQueue 1 1 true true,
      .addQueue 0 2 true true]

private theorem twoAdded_isSome : twoAdded.isSome = true := by decide

private def added : EoQueues.State (Fin 3) Unit Unit (Fin 2) Unit := twoAdded.get twoAdded_isSome

/-- Queue 0 is removed after the first reads. -/
private def removed (m : Nat) : EoQueues.State (Fin 3) Unit Unit (Fin 2) Unit :=
  if m < 2 then added else (added.emEoRemoveQueue 0 0 true .zero).1

private theorem removed_sampled : (EoQueues.State.machine (Fin 3) Unit Unit (Fin 2) Unit).Sampled
    (fun s l _ => ¬s.Foreign l) removed where
  start := System.ReachableVia.exec (fun _ _ _ => of_decide_eq_true) (.start emptyState_initial)
    (Option.some_get twoAdded_isSome).symm
  next m := by
    rcases Nat.lt_trichotomy m 1 with hm | rfl | hm
    · rw [removed, if_pos (by omega), removed, if_pos (by omega)]
    · exact .single ⟨.removeQueue 0 0 true .zero,rfl,id⟩
    · rw [removed, if_neg (by omega), removed, if_neg (by omega)]

private theorem removed_mem (m : Nat) : 2 ∈ ((removed m).eoElem 0).queueList := by
  rw [removed]
  split
  · decide
  · decide

section QueueGroup
variable {γ α : Type} {n : Nat} [DecidableEq γ] [DecidableEq α]

def qgrpQueues (γ α : Type) (n : Nat) : Owners (QueueTable.State (Fin n) γ α) γ n where
  ownerAllocated s g := s.groupAllocated g
  numQueues s g := s.numQueues g
  queueAllocated s q := (s.elem q).allocated
  owner s q := (s.elem q).queueGroup

def emQueueGroupQueueFirst := (qgrpQueues γ α n).first
def emQueueGroupQueueNext := (qgrpQueues γ α n).next

/-- The same for the queues of a queue group, as long as no queue stays half deleted and none is made
from an event queue of a packet input -/
theorem qgrp_queue_iteration {h : Nat → QueueTable.State (Fin n) γ α}
    (hh : (QueueTable.machine (Fin n) γ α).Sampled (fun s l _ => s.KeepsQueues l) h)
    (hpos : 0 < n) (hn : n ≤ 65535) {body : Nat → Cursor → Cursor} (hbody : Cursor.Keeps body)
    (g : γ) (it : QueueIter γ) :
    ∃ l d, (qgrpQueues γ α n).iterate (looks h) g body it = some (l,d) ∧
      (l.Pairwise fun a b => a.1 < b.1) ∧
      (∀ a ∈ l, ∃ q : Fin n, q.val = a.1 ∧ ((h (2*a.2)).elem q).allocated = true ∧
        ((h (2*a.2+1)).elem q).queueGroup = some g) ∧
      ∀ q, (∀ m, 2*it.cursor.reads ≤ m → m < 2*d.reads → (h m).InGroup g q) →
        q.val ∈ l.map Prod.fst := by
  have hhas (m : Nat) {q : Fin n} (hq : (h m).InGroup g q) : (qgrpQueues γ α n).Has g q (h m) := by
    have hok := QueueTable.State.reachable_groupsOk (hh.reachable m)
    have halloc := hok.allocated g q hq
    obtain ⟨xs,hxs⟩ := hok.list g halloc
    refine ⟨xs,⟨fun r hr => ?_,hxs.nodup,hxs.count,fun _ => halloc⟩,(hxs.mem q).2 hq⟩
    have hin := (hxs.mem r).1 hr
    exact ⟨hin.1,hin.2.2⟩
  obtain ⟨l,d,hl,-,hv⟩ := (qgrpQueues γ α n).iterate_iterated (w := looks h) hpos (by omega)
    hbody g it
  refine ⟨l,d,hl,hv.sorted,fun a ha => (hv.queues a ha).2.2,fun q hq => ?_⟩
  exact hv.complete q fun m hm hmd => ⟨hhas _ (hq _ (by omega) (by omega)),hhas _ (hq _ (by omega) (by omega))⟩

end QueueGroup

/-- A queue group with the queues 1 and 2 of three -/
private def twoInGroup : Option (QueueTable.State (Fin 3) Unit Unit) :=
  System.exec QueueTable.State.step (fun s l _ => decide (s.KeepsQueues l)) emptyTable
    [.createGroup (), .create 0 { type := .unscheduled }, .create 1 { type := .atomic, queueGroup := some () },
      .create 2 { type := .parallel, queueGroup := some () }]

private theorem twoInGroup_isSome : twoInGroup.isSome = true := by decide

private theorem twoInGroup_sampled : (QueueTable.machine (Fin 3) Unit Unit).Sampled
    (fun s l _ => s.KeepsQueues l) fun _ => twoInGroup.get twoInGroup_isSome where
  start := System.ReachableVia.exec (fun _ _ _ => of_decide_eq_true) (.start emptyTable_initial)
    (Option.some_get twoInGroup_isSome).symm
  next _ := .refl

theorem qgrp_queue_iteration_two : ∃ l d,
    (qgrpQueues Unit Unit 3).iterate (looks fun _ => twoInGroup.get twoInGroup_isSome) ()
      (fun _ c => c) ⟨⟨0,0⟩,none⟩ = some (l,d) ∧ 1 ∈ l.map Prod.fst := by
  have hbody : Cursor.Keeps fun _ c => c := fun _ _ => ⟨rfl,Nat.le_refl _⟩
  obtain ⟨l,d,hl,-,-,hall⟩ := qgrp_queue_iteration twoInGroup_sampled (by decide) (by decide) hbody
    () ⟨⟨0,0⟩,none⟩
  have hin : (twoInGroup.get twoInGroup_isSome).InGroup () 1 := by
    refine ⟨?_,?_,?_⟩ <;> decide
  exact ⟨l,d,hl,hall 1 fun _ _ _ => hin⟩

end EmOdp.Tables
