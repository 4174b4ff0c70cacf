import Mathlib.Data.Finset.Card
import Mathlib.Algebra.Order.Group.Finset
import EmOdp.QueuePools.Machine

/-! The ids of the queues partition the queue table, over all allocations and frees. -/
namespace EmOdp.QueuePools
open Lib
variable {cfg : Config} {opt : Opt} {r t : Run} {x : Nat}

/-- The elements that are given out. -/
def Run.allocated (r : Run) : Finset Nat := {x ∈ Finset.range r.state.opt.maxQueues | r.given x ≠ none}

structure Inv (cfg : Config) (opt : Opt) (r : Run) : Prop where
  hopt : r.state.opt = opt
  queueTbl : r.state.queueTbl = .ofOpt opt
  deviceId : r.state.deviceId = cfg.deviceId
  queue : r.state.queue = queueIdx2hdl cfg.deviceId
  le : opt.maxQueues ≤ uint16Max
  pools : r.state.pools.Ok opt.home
  nbrSubpools : ∀ k, 0 < r.state.pools.nbrSubpools k
  inPool : ∀ x, (r.state.pools.elem x).inPool = true ↔ x < opt.maxQueues ∧ r.given x = none
  given : ∀ x c, r.given x = some c → x < opt.maxQueues ∧ (c = .queueAggrAlloc ↔ opt.home x = .aggr)
  queueCount : r.state.queueCount.toNat = r.allocated.card

theorem Inv.ranges (h : Inv cfg opt r) : r.state.queueTbl.Ranges opt := by
  rw [h.queueTbl]
  exact QueueTbl.ranges h.le

theorem Inv.card_le (h : Inv cfg opt r) : r.allocated.card ≤ opt.maxQueues := by
  refine (Finset.card_filter_le _ _).trans ?_
  rw [Finset.card_range, h.hopt]

theorem inv_initial (hcfg : readConfigFile cfg = some opt) (h : Initial cfg r) : Inv cfg opt r := by
  obtain ⟨hopt,htbl,hdev,hqueue,hcount,hok,hnbr,hin⟩ := queueInit_pools h.state
  rw [hcfg] at hopt
  cases hopt
  refine ⟨rfl,htbl,hdev,hqueue,readConfigFile_le hcfg,hok,hnbr,fun x => ?_,fun x c hc => ?_,?_⟩
  · rw [hin x, h.given x]
    simp
  · rw [h.given x] at hc
    cases hc
  · simp [hcount, Run.allocated, h.given]

theorem queueIdx2hdl_idx (deviceId : BitVec 16) (hx : x < uint16Max) :
    (queueId2idx (queueIdx2hdl deviceId x).queueId).toNat = x := by
  simp only [queueId2idx, queueIdx2hdl, BitVec.toNat_ofNat, uint16Max, emQueueRangeOffset] at hx ⊢
  omega

/-- An element taken out of a pool is given out. -/
theorem Inv.give (h : Inv cfg opt r) {k : Pool} {q : Objpools Pool Nat}
    (hq : Objpools.Taken opt.home r.state.pools k x q) {c : Caller}
    (hc : c = .queueAggrAlloc ↔ k = .aggr) :
    r.given x = none ∧ x < opt.maxQueues ∧
    Inv cfg opt (r.gave c (.ok (r.state.queue x,
      { r.state with pools := q, queueCount := r.state.queueCount + 1 }))) := by
  obtain ⟨hx,hnone⟩ := (h.inPool x).1 hq.inPool
  have hle := h.le
  have hidx : (queueId2idx (r.state.queue x).queueId).toNat = x := by
    rw [h.queue]
    exact queueIdx2hdl_idx _ (by omega)
  refine ⟨hnone,hx,h.hopt,h.queueTbl,h.deviceId,h.queue,h.le,hq.ok,fun k' => ?_,fun y => ?_,
    fun y c' => ?_,?_⟩
  · simp only [Run.gave, hq.nbrSubpools]
    exact h.nbrSubpools k'
  · simp only [Run.gave, hidx, hq.elem]
    by_cases hy : y = x
    · subst hy
      simp
    · rw [Function.update_of_ne hy, Function.update_of_ne hy, h.inPool]
  · simp only [Run.gave, hidx]
    by_cases hy : y = x
    · subst hy
      rw [Function.update_self]
      rintro ⟨⟩
      exact ⟨hx,by rw [hq.pool, hc]⟩
    · rw [Function.update_of_ne hy]
      exact h.given y c'
  · have hcard := h.card_le
    have hnot : x ∉ r.allocated := fun hmem => (Finset.mem_filter.1 hmem).2 hnone
    have hset : (r.gave c (.ok (r.state.queue x,
        { r.state with pools := q, queueCount := r.state.queueCount + 1 }))).allocated =
        insert x r.allocated := by
      ext y
      simp only [Run.allocated, Run.gave, hidx, Finset.mem_filter, Finset.mem_range, Finset.mem_insert, h.hopt]
      by_cases hy : y = x
      · subst hy
        simp [hx]
      · simp [hy]
    rw [hset, Finset.card_insert_of_notMem hnot]
    have hcount := h.queueCount
    have hone : (1 : BitVec 32).toNat = 1 := rfl
    simp only [Run.gave, BitVec.toNat_add, hcount, hone]
    simp only [uint16Max] at hle
    exact Nat.mod_eq_of_lt (by omega)

/-- A queue that was given out is put back into the pool of its range. -/
theorem Inv.putBack (h : Inv cfg opt r) {c : Caller} (hx : r.given x = some c) (idx : Nat) :
    Inv cfg opt ⟨{ r.state with
      pools := r.state.pools.objpoolAdd (opt.home x) idx x
      queueCount := r.state.queueCount - 1 },Function.update r.given x none⟩ := by
  have hlt := (h.given x c hx).1
  have hout : (r.state.pools.elem x).inPool = false := by
    by_contra hin
    have hin : (r.state.pools.elem x).inPool = true := by simpa using hin
    have hnone := ((h.inPool x).1 hin).2
    rw [hx] at hnone
    cases hnone
  refine ⟨h.hopt,h.queueTbl,h.deviceId,h.queue,h.le,h.pools.add hout (h.nbrSubpools _),h.nbrSubpools,
    fun y => ?_,fun y c' => ?_,?_⟩
  · by_cases hy : y = x
    · subst hy
      simp [Objpools.objpoolAdd, Objpools.setElem, hlt]
    · simp only [Objpools.objpoolAdd, Objpools.setElem, Objpools.elem_setSubpool, Function.update_of_ne hy]
      exact h.inPool y
  · by_cases hy : y = x
    · subst hy
      simp
    · simp only [Function.update_of_ne hy]
      exact h.given y c'
  · have hmem : x ∈ r.allocated := Finset.mem_filter.2 ⟨by
      rw [h.hopt]; exact Finset.mem_range.2 hlt,by simp [hx]⟩
    have hpos := Finset.card_pos.2 ⟨x,hmem⟩
    have hset : Run.allocated ⟨{ r.state with
        pools := r.state.pools.objpoolAdd (opt.home x) idx x
        queueCount := r.state.queueCount - 1 },Function.update r.given x none⟩ =
        r.allocated.erase x := by
      ext y
      simp only [Run.allocated, Finset.mem_filter, Finset.mem_erase]
      by_cases hy : y = x
      · subst hy
        simp
      · simp [hy]
    rw [hset, Finset.card_erase_of_mem hmem]
    have hcount := h.queueCount
    have hlt32 := r.state.queueCount.isLt
    have hone : (1 : BitVec 32).toNat = 1 := rfl
    simp only [BitVec.toNat_sub, hcount, hone]
    omega

theorem Inv.queueElemGet (h : Inv cfg opt r) {queue : EmQueue} :
    r.state.queueElemGet queue = some x ↔
      queue.deviceId = cfg.deviceId ∧ x + 1 = queue.queueId.toNat ∧ x < opt.maxQueues := by
  have hmax := h.ranges.maxQueueNum
  have hle := h.le
  have hlt := queue.queueId.isLt
  have hu16 : (BitVec.ofInt 16 (queueId2idx queue.queueId)).toNat =
      if queue.queueId.toNat = 0 then 65535 else queue.queueId.toNat - 1 := by
    simp only [queueId2idx, emQueueRangeOffset, BitVec.toNat_ofInt]
    split <;> omega
  simp only [uint16Max] at hle
  simp only [State.queueElemGet, hmax, hu16, h.deviceId]
  constructor
  · intro hs
    obtain ⟨hc,hx⟩ := Option.ite_none_left_eq_some.1 hs
    simp only [not_or, not_not] at hc
    refine ⟨hc.1,?_⟩
    simp only [queueId2idx, emQueueRangeOffset, Option.some.injEq] at hx
    obtain ⟨-,hc⟩ := hc
    split at hc <;> omega
  · rintro ⟨hd,hx,hlt⟩
    have hne : queue.queueId.toNat ≠ 0 := by omega
    rw [if_neg]
    · simp only [queueId2idx, emQueueRangeOffset, Option.some.injEq]
      omega
    · simp only [hd, hne, if_false, ne_eq, not_true_eq_false, false_or]
      omega

/-- A handle of the static or internal range. -/
def StaticHandle (cfg : Config) (opt : Opt) (queue : EmQueue) : Prop :=
  queue.deviceId = cfg.deviceId ∧ 1 ≤ queue.queueId.toNat ∧
    queue.queueId.toNat ≤ opt.numStatic + maxInternalQueues

theorem Inv.idInQueuePoolStatic (h : Inv cfg opt r) (qid : BitVec 16) :
    r.state.idInQueuePoolStatic qid = true ↔
      1 ≤ qid.toNat ∧ qid.toNat ≤ opt.numStatic + maxInternalQueues := by
  have hr := h.ranges
  simp only [State.idInQueuePoolStatic, h.hopt]
  split
  · rename_i h0
    simp only [Bool.and_eq_true, decide_eq_true_eq, ge_iff_le, BitVec.le_def, hr.firstInternal,
      hr.lastInternal, h0]
  · rename_i h0
    simp only [Bool.and_eq_true, decide_eq_true_eq, ge_iff_le, BitVec.le_def, hr.firstStatic h0,
      hr.lastInternal]

theorem Inv.home_static (h : Inv cfg opt r) {queue : EmQueue}
    (hx : x + 1 = queue.queueId.toNat) :
    r.state.idInQueuePoolStatic queue.queueId = true ↔ opt.home x = .static := by
  rw [h.idInQueuePoolStatic, Opt.home]
  constructor
  · rintro ⟨-,hle⟩
    exact if_pos (by omega)
  · intro hs
    split at hs
    · omega
    · split at hs <;> cases hs

/-- How a call that is to give out one of the `eligible` elements turns out. -/
def Gives (r : Run) (eligible : Nat → Prop) : Except String (EmQueue × State) → Prop
  | .ok (queue,_) => ∃ x, queue = r.state.queue x ∧ eligible x ∧ r.given x = none
  | .error _ => ∀ x, eligible x → r.given x ≠ none

theorem Inv.rem (h : Inv cfg opt r) (k : Pool) (thread : Nat) {c : Caller}
    (hc : c = .queueAggrAlloc ↔ k = .aggr) (err : String) :
    let result : Except String (EmQueue × State) :=
      match r.state.pools.objpoolRem k thread with
      | none => .error err
      | some (x,pools) =>
        .ok (r.state.queue x,{ r.state with pools, queueCount := r.state.queueCount + 1 })
    Gives r (fun x => x < opt.maxQueues ∧ opt.home x = k) result ∧ Inv cfg opt (r.gave c result) := by
  simp only
  split
  · rename_i hnone
    refine ⟨fun x hx hfree => ?_,h⟩
    have hin := h.pools.rem_none hnone hx.2
    rw [(h.inPool x).2 ⟨hx.1,hfree⟩] at hin
    cases hin
  · rename_i x pools hsome
    have htaken := h.pools.rem_some hsome
    obtain ⟨hfree,hlt,hinv⟩ := h.give htaken hc
    exact ⟨⟨x,rfl,⟨hlt,htaken.pool⟩,hfree⟩,hinv⟩

theorem Inv.queueAlloc_undef (h : Inv cfg opt r) (thread : Nat) :
    Gives r (fun x => x < opt.maxQueues ∧ opt.home x = .dynamic) (r.state.queueAlloc .undef thread) ∧
      Inv cfg opt (r.gave .queueAlloc (r.state.queueAlloc .undef thread)) := by
  have hrem := h.rem .dynamic thread (c := .queueAlloc) (by decide) "queue pool element alloc failed!"
  simp only [State.queueAlloc, if_true]
  exact hrem

theorem Inv.queueAggrAlloc (h : Inv cfg opt r) (thread : Nat) :
    Gives r (fun x => x < opt.maxQueues ∧ opt.home x = .aggr) (r.state.queueAggrAlloc thread) ∧
      Inv cfg opt (r.gave .queueAggrAlloc (r.state.queueAggrAlloc thread)) :=
  h.rem .aggr thread (by decide) _

/-- A requested handle of the static range is refused only while its queue is allocated. -/
theorem Inv.queueAlloc_static (h : Inv cfg opt r) {queue : EmQueue} (hs : StaticHandle cfg opt queue)
    (thread : Nat) :
    Gives r (fun x => r.state.queue x = queue ∧ x < opt.maxQueues) (r.state.queueAlloc queue thread) ∧
      Inv cfg opt (r.gave .queueAlloc (r.state.queueAlloc queue thread)) := by
  obtain ⟨hd,hpos,hle⟩ := hs
  have hmax : opt.numStatic + maxInternalQueues ≤ opt.maxQueues := by
    rw [Opt.maxQueues]
    omega
  have hne : queue ≠ .undef := by
    rintro rfl
    exact absurd hpos (by decide)
  have hin := (h.idInQueuePoolStatic queue.queueId).2 ⟨hpos,hle⟩
  obtain ⟨x,hx⟩ : ∃ x, x + 1 = queue.queueId.toNat := ⟨queue.queueId.toNat - 1,by omega⟩
  have hget := h.queueElemGet.2 ⟨hd,hx,by omega⟩
  have hhome := (h.home_static hx).1 hin
  have hqueue : ∀ y, r.state.queue y = queue ∧ y < opt.maxQueues ↔ y = x := fun y => by
    have hmax16 := h.le
    have hlt := queue.queueId.isLt
    rw [h.queue]
    constructor
    · rintro ⟨hq,hy⟩
      have hval := congrArg (fun q => q.queueId.toNat) hq
      simp only [queueIdx2hdl, BitVec.toNat_ofNat, emQueueRangeOffset, uint16Max] at hval hmax16
      omega
    · rintro rfl
      have hid : BitVec.ofNat 16 (y+1) = queue.queueId := by
        rw [hx, BitVec.ofNat_toNat, BitVec.setWidth_eq]
      refine ⟨?_,by omega⟩
      rw [queueIdx2hdl, emQueueRangeOffset, hid, ← hd]
  have hvalid : ¬(queue.deviceId ≠ r.state.deviceId ∨
      r.state.idInQueuePoolStatic queue.queueId = false) := by
    rw [hd, h.deviceId, hin]
    simp
  rw [State.queueAlloc, if_neg hne, if_neg hvalid, hget]
  simp only
  split
  · rename_i hout
    refine ⟨fun y hy hfree => ?_,h⟩
    obtain rfl := (hqueue y).1 hy
    rw [(h.inPool y).2 ⟨hy.2,hfree⟩] at hout
    cases hout
  · rename_i hpool
    have hpool : (r.state.pools.elem x).inPool = true := by simpa using hpool
    obtain ⟨q,hrem,htaken⟩ := h.pools.remElem hpool
    rw [hhome] at hrem
    simp only [hrem, ne_eq, not_true_eq_false, if_false]
    obtain ⟨hfree,-,hinv⟩ := h.give (c := .queueAlloc) htaken (by rw [hhome]; decide)
    exact ⟨⟨x,rfl,(hqueue x).2 rfl,hfree⟩,hinv⟩

theorem Inv.queueAlloc_other (h : Inv cfg opt r) {queue : EmQueue} (hne : queue ≠ .undef)
    (hs : ¬StaticHandle cfg opt queue) (thread : Nat) :
    ∃ err, r.state.queueAlloc queue thread = .error err := by
  refine ⟨"Invalid queue requested or handle not from static range!",?_⟩
  rw [State.queueAlloc, if_neg hne, if_pos]
  rw [h.deviceId]
  by_contra hboth
  simp only [not_or, not_not] at hboth
  have hin := (h.idInQueuePoolStatic queue.queueId).1 (by simpa using hboth.2)
  exact hs ⟨hboth.1,hin⟩

theorem Inv.step {l : Label} (h : Inv cfg opt r) (hs : r.step l = some t) : Inv cfg opt t := by
  cases l with
  | queueAlloc queue thread =>
    cases hs
    by_cases hu : queue = .undef
    · subst hu
      exact (h.queueAlloc_undef thread).2
    · by_cases hstatic : StaticHandle cfg opt queue
      · exact (h.queueAlloc_static hstatic thread).2
      · obtain ⟨err,herr⟩ := h.queueAlloc_other hu hstatic thread
        rw [herr]
        exact h
  | queueFree queue =>
    simp only [Run.step] at hs
    split at hs
    · cases hs
      exact h
    · rename_i x hget
      obtain ⟨hx,hs⟩ := Option.ite_none_right_eq_some.1 hs
      cases hs
      obtain ⟨hd,hid,hlt⟩ := h.queueElemGet.1 hget
      have hpool : (if r.state.idInQueuePoolStatic queue.queueId then Pool.static else .dynamic) =
          opt.home x := by
        have hstatic := h.home_static hid
        have haggr : opt.home x ≠ .aggr := fun ha => by
          have := (h.given x _ hx).2.2 ha
          cases this
        cases hhome : opt.home x with
        | static => rw [if_pos (hstatic.2 hhome)]
        | dynamic => rw [if_neg fun hin => by rw [hstatic.1 hin] at hhome; cases hhome]
        | aggr => exact absurd hhome haggr
      have hback := h.putBack hx (r.state.pools.elem x).subpoolIdx
      simp only [State.queueFree, hget, hpool]
      exact hback
  | queueAggrAlloc thread =>
    cases hs
    exact (h.queueAggrAlloc thread).2
  | queueAggrFree x =>
    obtain ⟨hx,hs⟩ := Option.ite_none_right_eq_some.1 hs
    cases hs
    have hback := h.putBack hx (r.state.pools.elem x).subpoolIdx
    rw [(h.given x _ hx).2.1 rfl] at hback
    exact hback

theorem reachable_inv (hcfg : readConfigFile cfg = some opt) (h : (machine cfg).Reachable r) :
    Inv cfg opt r :=
  h.invariant (I := Inv cfg opt) (fun _ => inv_initial hcfg) fun _ _ _ hi (hs : Run.step _ _ = some _) _ =>
    hi.step hs

/-- For every accepted configuration and all calls since: the ranges of ids follow each
other without a wrap, a free element is in one subpool of the pool of its range, an
allocated one in none, `queue_count` counts those, handles are given out only while they
are free, and a call fails only when it has none to give. -/
theorem queue_ids_partition (hcfg : readConfigFile cfg = some opt) (h : (machine cfg).Reachable r) :
    (opt.maxQueues ≤ uint16Max ∧ r.state.queueTbl.Ranges opt) ∧
    (∀ x < opt.maxQueues, (r.given x = none → ∃! loc : Pool × Nat,
      x ∈ r.state.pools.subpool loc.1 loc.2) ∧
      (r.given x ≠ none → ∀ k idx, x ∉ r.state.pools.subpool k idx)) ∧
    (∀ k idx x, x ∈ r.state.pools.subpool k idx → x < opt.maxQueues ∧ opt.home x = k) ∧
    r.state.queueCount.toNat = r.allocated.card ∧
    (∀ x < opt.maxQueues, ∀ y < opt.maxQueues, r.state.queue x = r.state.queue y → x = y) ∧
    ∀ thread,
      Gives r (fun x => x < opt.maxQueues ∧ opt.home x = .dynamic) (r.state.queueAlloc .undef thread) ∧
      Gives r (fun x => x < opt.maxQueues ∧ opt.home x = .aggr) (r.state.queueAggrAlloc thread) ∧
      ∀ queue, StaticHandle cfg opt queue →
        Gives r (fun x => r.state.queue x = queue ∧ x < opt.maxQueues)
          (r.state.queueAlloc queue thread) := by
  have hinv := reachable_inv hcfg h
  refine ⟨⟨hinv.le,hinv.ranges⟩,fun x hx => ?_,fun k idx x hmem => ?_,hinv.queueCount,
    fun x hx y hy hxy => ?_,fun thread => ⟨(hinv.queueAlloc_undef thread).1,
      (hinv.queueAggrAlloc thread).1,fun queue hs => (hinv.queueAlloc_static hs thread).1⟩⟩
  · obtain ⟨hin,hout⟩ := hinv.pools.located x
    refine ⟨fun hfree => hin ((hinv.inPool x).2 ⟨hx,hfree⟩),fun hgiven => hout ?_⟩
    by_contra hpool
    exact hgiven ((hinv.inPool x).1 (by simpa using hpool)).2
  · obtain ⟨hin,hk,-⟩ := (hinv.pools.mem k idx x).1 hmem
    exact ⟨((hinv.inPool x).1 hin).1,hk.symm⟩
  · have hle := hinv.le
    rw [hinv.queue] at hxy
    rw [← queueIdx2hdl_idx cfg.deviceId (hx.trans_le hle), hxy, queueIdx2hdl_idx _ (hy.trans_le hle)]

/-- Two static queues, one dynamic queue and no aggregator queue. -/
private def smallConfig : Config := ⟨2,1,0,.packet,1024,7⟩

private theorem smallConfig_isSome : (queueInit smallConfig).isSome = true := by decide

private def smallRun : Run := ⟨(queueInit smallConfig).get smallConfig_isSome,fun _ => none⟩

private theorem smallRun_reachable : (machine smallConfig).Reachable smallRun :=
  .start ⟨(Option.some_get smallConfig_isSome).symm,fun _ => rfl⟩

theorem queue_ids_partition_small :
    smallRun.state.queueTbl.Ranges ⟨2,1,0⟩ ∧ ∀ queue, StaticHandle smallConfig ⟨2,1,0⟩ queue →
      Gives smallRun (fun x => smallRun.state.queue x = queue ∧ x < Opt.maxQueues ⟨2,1,0⟩)
        (smallRun.state.queueAlloc queue 0) :=
  have hpartition := queue_ids_partition (by decide) smallRun_reachable
  ⟨hpartition.1.2,(hpartition.2.2.2.2.2 0).2.2⟩

end EmOdp.QueuePools
