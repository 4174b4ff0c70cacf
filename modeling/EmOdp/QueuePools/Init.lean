import EmOdp.QueuePools.Objpool

/-! `queue_init`: the ids of the queues and the pools of free queue elements. -/
namespace EmOdp.QueuePools

/-- `EM_MAX_CORES + EM_MAX_EXTTHRS` and the shared internal queue -/
abbrev maxInternalQueues : Nat := 64 + 32 + 1

abbrev uint16Max : Nat := 65535

/-- `EM_QUEUE_RANGE_OFFSET` -/
abbrev emQueueRangeOffset : Nat := 1

abbrev objsubpoolsMax : Nat := 8

abbrev invalidQueueId : BitVec 16 := 0xFFFF

/-- `opt.vector.backend`, read before the options of the queues -/
inductive VectorBackend where
  | event
  | packet
  | other
  deriving DecidableEq, Repr

/-- The configured values and what ODP is capable of. -/
structure Config where
  numStatic : Int
  numDynamic : Int
  numAggr : Int
  vectorBackend : VectorBackend
  /-- `odp_queue_capability.max_queues` -/
  maxQueues : Nat
  deviceId : BitVec 16

/-- `em_shm->opt.queue` -/
structure Opt where
  numStatic : Nat
  numDynamic : Nat
  numAggr : Nat
  deriving DecidableEq, Repr

def Opt.maxQueues (opt : Opt) : Nat :=
  opt.numStatic + opt.numDynamic + opt.numAggr + maxInternalQueues

/-- The check of an option's value. -/
def readNum (val : Int) : Option Nat :=
  if val < 0 ∨ val.toNat > uint16Max - maxInternalQueues then none else some val.toNat

/-- `read_num_aggr_config` -/
def readNumAggrConfig (cfg : Config) : Option Nat :=
  match cfg.vectorBackend with
  | .event => readNum cfg.numAggr
  | .packet => some 0
  | .other => none

/-- `read_config_file` up to `max_queue_num` -/
def readConfigFile (cfg : Config) : Option Opt := do
  let numStatic ← readNum cfg.numStatic
  let numDynamic ← readNum cfg.numDynamic
  if numStatic = 0 ∧ numDynamic = 0 then none
  else
    let numAggr ← readNumAggrConfig cfg
    let opt : Opt := ⟨numStatic,numDynamic,numAggr⟩
    if opt.maxQueues > uint16Max then none
    else if opt.maxQueues > cfg.maxQueues then none
    else some opt

/-- `queue_idx2id` -/
def queueIdx2id (queueIdx : Nat) : BitVec 16 :=
  BitVec.ofNat 16 queueIdx + BitVec.ofNat 16 emQueueRangeOffset

/-- `queue_id2idx` -/
def queueId2idx (queueId : BitVec 16) : Int := (queueId.toNat : Int) - emQueueRangeOffset

/-- `em_queue_t` with its parts as in `internal_queue_t` -/
structure EmQueue where
  queueId : BitVec 16
  deviceId : BitVec 16
  deriving DecidableEq, Repr

/-- `EM_QUEUE_UNDEF` -/
def EmQueue.undef : EmQueue := ⟨0,0⟩

/-- `queue_idx2hdl` -/
def queueIdx2hdl (deviceId : BitVec 16) (queueIdx : Nat) : EmQueue :=
  ⟨BitVec.ofNat 16 (queueIdx+emQueueRangeOffset),deviceId⟩

/-- The ids in `queue_tbl_t` -/
structure QueueTbl where
  maxQueueNum : BitVec 16
  firstStaticQueueId : BitVec 16
  lastStaticQueueId : BitVec 16
  firstInternalQueueId : BitVec 16
  lastInternalQueueId : BitVec 16
  sharedInternalQueueId : BitVec 16
  firstDynQueueId : BitVec 16
  lastDynQueueId : BitVec 16
  firstAggrQueueId : BitVec 16
  lastAggrQueueId : BitVec 16

/-- The ids that `queue_init` computes in 16 bits. -/
def QueueTbl.ofOpt (opt : Opt) : QueueTbl :=
  let numStatic := BitVec.ofNat 16 opt.numStatic
  let numDynamic := BitVec.ofNat 16 opt.numDynamic
  let numAggr := BitVec.ofNat 16 opt.numAggr
  let firstStatic := if opt.numStatic ≠ 0 then queueIdx2id 0 else invalidQueueId
  let lastStatic := if opt.numStatic ≠ 0 then firstStatic + numStatic - 1 else invalidQueueId
  let firstInternal := if opt.numStatic ≠ 0 then lastStatic + 1 else queueIdx2id 0
  let lastInternal := firstInternal + BitVec.ofNat 16 maxInternalQueues - 1
  let firstDyn := if opt.numDynamic ≠ 0 then lastInternal + 1 else invalidQueueId
  let lastDyn := if opt.numDynamic ≠ 0 then firstDyn + numDynamic - 1 else invalidQueueId
  let firstAggr :=
    if opt.numAggr ≠ 0 then (if opt.numDynamic ≠ 0 then lastDyn + 1 else lastInternal + 1)
    else invalidQueueId
  let lastAggr := if opt.numAggr ≠ 0 then firstAggr + numAggr - 1 else invalidQueueId
  ⟨BitVec.ofNat 16 opt.maxQueues,firstStatic,lastStatic,firstInternal,lastInternal,lastInternal,
    firstDyn,lastDyn,firstAggr,lastAggr⟩

/-- The pools of `em_shm`: `queue_pool`, `queue_pool_static` and `queue_pool_aggr`. -/
inductive Pool where
  | dynamic
  | static
  | aggr
  deriving DecidableEq, Repr

/-- The variables of the loop in `queue_pool_populate`. -/
structure Populate where
  pools : Objpools Pool Nat
  subpoolIdx : Nat
  qsLeftover : Nat
  addCnt : Nat

def Populate.add (k : Pool) (qsPerSubpool : Nat) (l : Populate) (i : Nat) : Populate :=
  let pools := l.pools.objpoolAdd k l.subpoolIdx i
  if l.addCnt + 1 = qsPerSubpool + l.qsLeftover then ⟨pools,l.subpoolIdx + 1,0,0⟩
  else { l with pools, addCnt := l.addCnt + 1 }

/-- `queue_pool_populate` -/
def queuePoolPopulate (pools : Objpools Pool Nat) (k : Pool) (minQidx maxQidx : Int) :
    Objpools Pool Nat :=
  let numSubpools := pools.nbrSubpools k
  let qsPerPool := (maxQidx - minQidx + 1).toNat
  ((List.range' minQidx.toNat qsPerPool).foldl (Populate.add k (qsPerPool / numSubpools))
    ⟨pools,0,qsPerPool % numSubpools,0⟩).pools

/-- The pools after `queue_pool_init`. -/
def queuePoolInit : Objpools Pool Nat := ⟨fun _ => {},fun _ _ => [],fun _ => min 4 objsubpoolsMax⟩

structure State where
  deviceId : BitVec 16
  opt : Opt
  queueTbl : QueueTbl
  /-- `queue_elem[i].queue` -/
  queue : Nat → EmQueue
  pools : Objpools Pool Nat
  queueCount : BitVec 32

/-- `queue_init` -/
def queueInit (cfg : Config) : Option State := do
  let opt ← readConfigFile cfg
  let tbl := QueueTbl.ofOpt opt
  let min := queueId2idx
    (if opt.numStatic ≠ 0 then tbl.firstStaticQueueId else tbl.firstInternalQueueId)
  let pools := queuePoolPopulate queuePoolInit .static min (queueId2idx tbl.lastInternalQueueId)
  let pools :=
    if opt.numDynamic ≠ 0 then
      queuePoolPopulate pools .dynamic (queueId2idx tbl.firstDynQueueId)
        (queueId2idx tbl.lastDynQueueId)
    else pools
  let pools :=
    if opt.numAggr ≠ 0 then
      queuePoolPopulate pools .aggr (queueId2idx tbl.firstAggrQueueId)
        (queueId2idx tbl.lastAggrQueueId)
    else pools
  some ⟨cfg.deviceId,opt,tbl,queueIdx2hdl cfg.deviceId,pools,0⟩

section Ranges
variable {opt : Opt}

/-- The ranges of ids follow each other from `EM_QUEUE_RANGE_OFFSET` on, with no wrap in 16
bits; those of static and internal queues share a pool. -/
structure QueueTbl.Ranges (opt : Opt) (tbl : QueueTbl) : Prop where
  firstStatic : opt.numStatic ≠ 0 → tbl.firstStaticQueueId.toNat = 1
  lastStatic : opt.numStatic ≠ 0 → tbl.lastStaticQueueId.toNat = opt.numStatic
  firstInternal : tbl.firstInternalQueueId.toNat = opt.numStatic + 1
  lastInternal : tbl.lastInternalQueueId.toNat = opt.numStatic + maxInternalQueues
  sharedInternal : tbl.sharedInternalQueueId = tbl.lastInternalQueueId
  firstDyn : opt.numDynamic ≠ 0 →
    tbl.firstDynQueueId.toNat = opt.numStatic + maxInternalQueues + 1
  lastDyn : opt.numDynamic ≠ 0 →
    tbl.lastDynQueueId.toNat = opt.numStatic + maxInternalQueues + opt.numDynamic
  firstAggr : opt.numAggr ≠ 0 →
    tbl.firstAggrQueueId.toNat = opt.numStatic + maxInternalQueues + opt.numDynamic + 1
  lastAggr : opt.numAggr ≠ 0 → tbl.lastAggrQueueId.toNat = opt.maxQueues
  maxQueueNum : tbl.maxQueueNum.toNat = opt.maxQueues

theorem readConfigFile_le {cfg : Config} (h : readConfigFile cfg = some opt) :
    opt.maxQueues ≤ uint16Max := by
  simp only [readConfigFile, Option.bind_eq_bind, Option.bind_eq_some_iff] at h
  obtain ⟨numStatic,-,numDynamic,-,h⟩ := h
  split at h
  · cases h
  · obtain ⟨numAggr,-,h⟩ := Option.bind_eq_some_iff.1 h
    split at h
    · cases h
    · split at h <;> cases h
      omega

private theorem toNat_last (first : BitVec 16) {n : Nat} (hn : n ≠ 0)
    (h : first.toNat + n ≤ uint16Max + 1) : (first + BitVec.ofNat 16 n - 1).toNat = first.toNat + n - 1 := by
  have hlt := first.isLt
  have hone : (1 : BitVec 16).toNat = 1 := rfl
  simp only [BitVec.toNat_sub, BitVec.toNat_add, BitVec.toNat_ofNat, hone, uint16Max] at h ⊢
  omega

private theorem toNat_next (last : BitVec 16) (h : last.toNat < uint16Max) :
    (last + 1).toNat = last.toNat + 1 := by
  have hone : (1 : BitVec 16).toNat = 1 := rfl
  simp only [BitVec.toNat_add, hone, uint16Max] at h ⊢
  omega

theorem QueueTbl.ranges (h : opt.maxQueues ≤ uint16Max) : (QueueTbl.ofOpt opt).Ranges opt := by
  have hmax : opt.numStatic + opt.numDynamic + opt.numAggr + maxInternalQueues ≤ uint16Max := h
  have hint : 0 < maxInternalQueues := by decide
  have hfirstStatic : opt.numStatic ≠ 0 → (ofOpt opt).firstStaticQueueId.toNat = 1 := fun h0 => by
    simp only [ofOpt, h0, not_false_eq_true, ne_eq, if_true]
    rfl
  have hlastStatic : opt.numStatic ≠ 0 → (ofOpt opt).lastStaticQueueId.toNat = opt.numStatic :=
    fun h0 => by
      have hf := hfirstStatic h0
      have hl := toNat_last (ofOpt opt).firstStaticQueueId h0 (by omega)
      simp only [ofOpt, h0, not_false_eq_true, ne_eq, if_true] at hf hl ⊢
      omega
  have hfirstInternal : (ofOpt opt).firstInternalQueueId.toNat = opt.numStatic + 1 := by
    by_cases h0 : opt.numStatic = 0
    · simp only [ofOpt, h0, ne_eq, not_true_eq_false, if_false]
      rfl
    · have hl := hlastStatic h0
      have hn := toNat_next (ofOpt opt).lastStaticQueueId (by omega)
      simp only [ofOpt, h0, not_false_eq_true, ne_eq, if_true] at hl hn ⊢
      omega
  have hlastInternal : (ofOpt opt).lastInternalQueueId.toNat = opt.numStatic + maxInternalQueues := by
    have hl := toNat_last (ofOpt opt).firstInternalQueueId (n := maxInternalQueues)
      (by decide) (by omega)
    exact hl.trans (by omega)
  have hfirstDyn : opt.numDynamic ≠ 0 →
      (ofOpt opt).firstDynQueueId.toNat = opt.numStatic + maxInternalQueues + 1 := fun h0 => by
    have hn := toNat_next (ofOpt opt).lastInternalQueueId (by omega)
    have heq : (ofOpt opt).firstDynQueueId = (ofOpt opt).lastInternalQueueId + 1 := if_pos h0
    rw [heq, hn, hlastInternal]
  have hlastDyn : opt.numDynamic ≠ 0 →
      (ofOpt opt).lastDynQueueId.toNat = opt.numStatic + maxInternalQueues + opt.numDynamic :=
    fun h0 => by
      have hf := hfirstDyn h0
      have hl := toNat_last (ofOpt opt).firstDynQueueId h0 (by omega)
      have heq : (ofOpt opt).lastDynQueueId =
        (ofOpt opt).firstDynQueueId + BitVec.ofNat 16 opt.numDynamic - 1 := if_pos h0
      rw [heq, hl, hf]
      omega
  have hfirstAggr : opt.numAggr ≠ 0 → (ofOpt opt).firstAggrQueueId.toNat =
      opt.numStatic + maxInternalQueues + opt.numDynamic + 1 := fun h0 => by
    by_cases hd : opt.numDynamic = 0
    · have hn := toNat_next (ofOpt opt).lastInternalQueueId (by omega)
      have heq : (ofOpt opt).firstAggrQueueId = (ofOpt opt).lastInternalQueueId + 1 :=
        (if_pos h0).trans (if_neg (not_not.2 hd))
      rw [heq, hn, hlastInternal, hd]
    · have hn := toNat_next (ofOpt opt).lastDynQueueId (by rw [hlastDyn hd]; omega)
      have heq : (ofOpt opt).firstAggrQueueId = (ofOpt opt).lastDynQueueId + 1 :=
        (if_pos h0).trans (if_pos hd)
      rw [heq, hn, hlastDyn hd]
  refine ⟨hfirstStatic,hlastStatic,hfirstInternal,hlastInternal,rfl,hfirstDyn,hlastDyn,hfirstAggr,
    fun h0 => ?_,?_⟩
  · have hf := hfirstAggr h0
    have hl := toNat_last (ofOpt opt).firstAggrQueueId h0 (by omega)
    have heq : (ofOpt opt).lastAggrQueueId =
      (ofOpt opt).firstAggrQueueId + BitVec.ofNat 16 opt.numAggr - 1 := if_pos h0
    rw [heq, hl, hf, Opt.maxQueues]
    omega
  · exact Nat.mod_eq_of_lt (by simp only [uint16Max] at h; omega)

end Ranges

/-- The pool whose range of ids the element's belongs to. -/
def Opt.home (opt : Opt) (i : Nat) : Pool :=
  if i < opt.numStatic + maxInternalQueues then .static
  else if i < opt.numStatic + maxInternalQueues + opt.numDynamic then .dynamic
  else .aggr

section Populate
variable {home : Nat → Pool} {k : Pool} {opt : Opt}

/-- `qs` are the elements that were added to the pools. -/
structure Added (home : Nat → Pool) (qs : Nat → Prop) (p q : Objpools Pool Nat) : Prop where
  ok : q.Ok home
  nbrSubpools : q.nbrSubpools = p.nbrSubpools
  inPool : ∀ i, (q.elem i).inPool = true ↔ (p.elem i).inPool = true ∨ qs i

theorem added_foldl (qsPerSubpool : Nat) {l : Populate} (hok : l.pools.Ok home)
    (hnbr : 0 < l.pools.nbrSubpools k) {is : List Nat} (hnodup : is.Nodup)
    (his : ∀ i ∈ is, home i = k ∧ (l.pools.elem i).inPool = false) :
    Added home (· ∈ is) l.pools (is.foldl (Populate.add k qsPerSubpool) l).pools := by
  induction is generalizing l with
  | nil => exact ⟨hok,rfl,fun i => by simp⟩
  | cons i is ih =>
    obtain ⟨⟨hhome,hfree⟩,his⟩ := List.forall_mem_cons.1 his
    obtain ⟨hi,hnodup⟩ := List.nodup_cons.1 hnodup
    have hpools : (l.add k qsPerSubpool i).pools = l.pools.objpoolAdd k l.subpoolIdx i := by
      rw [Populate.add]
      split <;> rfl
    have helem : ∀ j, j ≠ i → ((l.pools.objpoolAdd k l.subpoolIdx i).elem j) = l.pools.elem j :=
      fun j hj => Function.update_of_ne hj _ _
    subst hhome
    rw [List.foldl_cons]
    have hrest := ih (l := l.add (home i) qsPerSubpool i) (by rw [hpools]; exact hok.add hfree hnbr)
      (by rw [hpools]; exact hnbr) hnodup fun j hj => by
        rw [hpools, helem j fun h => hi (h ▸ hj)]
        exact his j hj
    refine ⟨hrest.ok,hrest.nbrSubpools.trans (by rw [hpools]; rfl),fun j => ?_⟩
    rw [hrest.inPool, hpools, List.mem_cons]
    by_cases hj : j = i
    · subst hj
      have hin : ((l.pools.objpoolAdd (home j) l.subpoolIdx j).elem j).inPool = true := by
        simp [Objpools.objpoolAdd, Objpools.setElem]
      simp [hin]
    · rw [helem j hj]
      simp [hj]

theorem added_populate {p : Objpools Pool Nat} (hok : p.Ok home) (hnbr : 0 < p.nbrSubpools k)
    (minQidx maxQidx : Int) (hmin : 0 ≤ minQidx)
    (his : ∀ i : Nat, minQidx ≤ i → (i : Int) ≤ maxQidx → home i = k ∧ (p.elem i).inPool = false) :
    Added home (fun i => minQidx ≤ i ∧ (i : Int) ≤ maxQidx) p
      (queuePoolPopulate p k minQidx maxQidx) := by
  have hmem : ∀ i, i ∈ List.range' minQidx.toNat (maxQidx - minQidx + 1).toNat ↔
      minQidx ≤ i ∧ (i : Int) ≤ maxQidx := fun i => by
    rw [List.mem_range'_1]
    omega
  have hadded := added_foldl ((maxQidx - minQidx + 1).toNat / p.nbrSubpools k)
    (l := ⟨p,0,(maxQidx - minQidx + 1).toNat % p.nbrSubpools k,0⟩) hok hnbr
    (List.nodup_range' (s := minQidx.toNat) (n := (maxQidx - minQidx + 1).toNat))
    fun i hi => his i ((hmem i).1 hi).1 ((hmem i).1 hi).2
  exact ⟨hadded.ok,hadded.nbrSubpools,fun i => by rw [← hmem i]; exact hadded.inPool i⟩

/-- The pools while the first `lo` elements were added. -/
structure Filled (home : Nat → Pool) (lo : Nat) (p : Objpools Pool Nat) : Prop where
  ok : p.Ok home
  nbrSubpools : ∀ k, 0 < p.nbrSubpools k
  inPool : ∀ i, (p.elem i).inPool = true ↔ i < lo

/-- The next range of ids, which may be empty, is added. -/
theorem Filled.populate {p : Objpools Pool Nat} {lo : Nat} (h : Filled home lo p) (k : Pool)
    (n : Nat) (first last : BitVec 16) (hfirst : n ≠ 0 → first.toNat = lo + 1)
    (hlast : n ≠ 0 → last.toNat = lo + n) (hhome : ∀ i, lo ≤ i → i < lo + n → home i = k) :
    Filled home (lo+n)
      (if n ≠ 0 then queuePoolPopulate p k (queueId2idx first) (queueId2idx last) else p) := by
  by_cases h0 : n = 0
  · subst h0
    exact h
  · rw [if_pos h0]
    have hf := hfirst h0
    have hl := hlast h0
    have hmin : queueId2idx first = lo := by simp [queueId2idx, hf]
    have hmax : queueId2idx last = lo + n - 1 := by simp [queueId2idx, hl]
    rw [hmin, hmax]
    have hadded := added_populate h.ok (h.nbrSubpools k) lo (lo + n - 1)
      (by omega) fun i hle hlt => ⟨hhome i (by omega) (by omega),by
        have hnot : ¬i < lo := by omega
        rw [← h.inPool i] at hnot
        simpa using hnot⟩
    refine ⟨hadded.ok,fun k => by rw [hadded.nbrSubpools]; exact h.nbrSubpools k,fun i => ?_⟩
    rw [hadded.inPool, h.inPool]
    omega

/-- After `queue_init` every element of the table is in its pool. -/
theorem queueInit_pools {cfg : Config} {s : State} (h : queueInit cfg = some s) :
    readConfigFile cfg = some s.opt ∧ s.queueTbl = .ofOpt s.opt ∧ s.deviceId = cfg.deviceId ∧
    s.queue = queueIdx2hdl cfg.deviceId ∧ s.queueCount = 0 ∧
    s.pools.Ok s.opt.home ∧ (∀ k, 0 < s.pools.nbrSubpools k) ∧
    ∀ i, (s.pools.elem i).inPool = true ↔ i < s.opt.maxQueues := by
  obtain ⟨opt,hopt,h⟩ := Option.bind_eq_some_iff.1 h
  cases h
  have hr := QueueTbl.ranges (readConfigFile_le hopt)
  have hempty : Filled opt.home 0 queuePoolInit :=
    ⟨⟨fun k idx x => by simp [queuePoolInit],fun x hx => by simp [queuePoolInit] at hx,
      fun k idx => List.nodup_nil⟩,fun k => by show 0 < min 4 objsubpoolsMax; decide,
      fun i => by simp [queuePoolInit]⟩
  have hstatic := hempty.populate .static (opt.numStatic + maxInternalQueues)
    (if opt.numStatic ≠ 0 then (QueueTbl.ofOpt opt).firstStaticQueueId
      else (QueueTbl.ofOpt opt).firstInternalQueueId) (QueueTbl.ofOpt opt).lastInternalQueueId
    (fun _ => by
      split
      · exact hr.firstStatic ‹_›
      · rw [hr.firstInternal]; omega)
    (fun _ => by rw [hr.lastInternal]; omega)
    (fun i _ hi => if_pos (by omega))
  have hdynamic := hstatic.populate .dynamic opt.numDynamic _ _
    (fun h0 => by rw [hr.firstDyn h0]; omega) (fun h0 => by rw [hr.lastDyn h0]; omega)
    (fun i hle hlt => (if_neg (by omega)).trans (if_pos (by omega)))
  have haggr := hdynamic.populate .aggr opt.numAggr _ _
    (fun h0 => by rw [hr.firstAggr h0]; omega)
    (fun h0 => by rw [hr.lastAggr h0, Opt.maxQueues]; omega)
    (fun i hle hlt => (if_neg (by omega)).trans (if_neg (by omega)))
  have hne : opt.numStatic + maxInternalQueues ≠ 0 := by
    have : 0 < maxInternalQueues := by decide
    omega
  rw [if_pos hne] at haggr
  have hsum : 0 + (opt.numStatic + maxInternalQueues) + opt.numDynamic + opt.numAggr =
      opt.maxQueues := by
    rw [Opt.maxQueues]
    omega
  rw [hsum] at haggr
  exact ⟨hopt,rfl,rfl,rfl,rfl,haggr.ok,haggr.nbrSubpools,haggr.inPool⟩

end Populate
end EmOdp.QueuePools
