import Mathlib.Logic.Function.Basic
import EmOdp.Lib.TransitionSystem
import EmOdp.Lib.ForEach
import EmOdp.Lib.Resources

/-! EM event pools: the pool elements, their subpools, which are ODP pools, and the table that
maps ODP pools back to EM pools. -/
namespace EmOdp.Pool
open Lib

/-- `EM_MAX_SUBPOOLS` -/
def emMaxSubpools : Nat := 4

/-- `EM_POOL_NAME_LEN` -/
def emPoolNameLen : Nat := 32

/-- `EM_EVENT_USER_AREA_MAX_SIZE` -/
def emEventUserAreaMaxSize : Nat := 256

inductive Status where
  | ok | badArg | badId | notFound | libFailed
  deriving DecidableEq, Repr

inductive EventType where
  | sw | packet | vector
  deriving DecidableEq, Repr

/-- `EM_VECTOR_BACKEND_PACKET`, `EM_VECTOR_BACKEND_EVENT` -/
inductive VectorBackend where
  | packet | event
  deriving DecidableEq, Repr

structure Subpool where
  size : Nat
  num : Nat
  cacheSize : Nat

/-- `em_pool_cfg_t` as checked by `invalid_pool_cfg`: none where `in_use` is not set -/
structure PoolCfg where
  eventType : EventType
  alignOffset : Option Nat := none
  userArea : Option Nat := none
  pktHeadroom : Option Nat := none
  subpool : List Subpool
  num_pos : 0 < subpool.length
  num_le : subpool.length ≤ emMaxSubpools

/-- One value of `odp_pool_capability_t` for each kind of ODP pool -/
structure PerPool where
  buf : Nat
  pkt : Nat
  vector : Nat
  eventVector : Nat

/-- The ODP pool capabilities and the options of the config file -/
structure Env where
  maxUareaSize : PerPool
  maxCacheSize : PerPool
  maxHeadroom : Nat
  alignOffset : Nat
  userAreaSize : Nat
  pktHeadroom : Nat
  vectorBackend : VectorBackend

/-- The value for pools of this event type. -/
def PerPool.of (c : PerPool) (env : Env) : EventType → Nat
  | .sw => c.buf
  | .packet => c.pkt
  | .vector => match env.vectorBackend with
    | .packet => c.vector
    | .event => c.eventVector

/-- `align_offset_get` -/
def Env.alignOffsetGet (env : Env) (cfg : PoolCfg) : Nat :=
  match cfg.eventType with
  | .sw | .packet => cfg.alignOffset.getD env.alignOffset
  | .vector => 0

/-- `set_uarea_size` -/
def Env.setUareaSize (env : Env) (cfg : PoolCfg) : Option Nat :=
  let size := cfg.userArea.getD env.userAreaSize
  let maxSize := if cfg.eventType = .sw ∧ size = 0 then 0
    else min (env.maxUareaSize.of env cfg.eventType) emEventUserAreaMaxSize
  if maxSize < size then none else some size

/-- `set_pkt_headroom` -/
def Env.setPktHeadroom (env : Env) (cfg : PoolCfg) : Option Nat :=
  let headroom := cfg.pktHeadroom.getD env.pktHeadroom
  if env.maxHeadroom < headroom then none else some headroom

/-- The index of the smallest subpool from `i` on, the first of them. -/
def smallestFrom (subpool : Array Subpool) (i : Nat) : Nat :=
  let size (j : Nat) := (subpool[j]?.map Subpool.size).getD 0
  (List.range' (i+1) (subpool.size - (i+1))).foldl
    (fun idx j => if size j < size idx then j else idx) i

/-- `sort_pool_cfg` -/
def sortPoolCfg (subpool : List Subpool) : List Subpool :=
  ((List.range (subpool.length - 1)).foldl
    (fun sorted i => sorted.swapIfInBounds i (smallestFrom sorted i)) subpool.toArray).toList

private theorem swapIfInBounds_perm (subpool : Array Subpool) (i j : Nat) :
    (subpool.swapIfInBounds i j).Perm subpool := by
  unfold Array.swapIfInBounds
  split
  · split
    · exact Array.swap_perm ..
    · exact .refl _
  · exact .refl _

theorem sortPoolCfg_perm (subpool : List Subpool) : (sortPoolCfg subpool).Perm subpool := by
  have hswaps (is : List Nat) (sorted : Array Subpool) : (is.foldl
      (fun sorted i => sorted.swapIfInBounds i (smallestFrom sorted i)) sorted).Perm sorted := by
    induction is generalizing sorted with
    | nil => exact .refl _
    | cons i is ih => exact (ih _).trans (swapIfInBounds_perm ..)
  exact (hswaps _ _).toList

/-- `set_poolcache_size` -/
def Env.setPoolcacheSize (env : Env) (cfg : PoolCfg) (subpool : List Subpool) : List Subpool :=
  subpool.map fun p => { p with cacheSize := min (env.maxCacheSize.of env cfg.eventType) p.cacheSize }

/-- `mpool_elem_t`, for ODP pools `ι`, of which none is `ODP_POOL_INVALID` -/
structure MpoolElem (ι : Type) where
  /-- not in the pool of free pools -/
  allocated : Bool := false
  eventType : Option EventType := none
  alignOffset : Nat := 0
  userAreaSize : Nat := 0
  numSubpools : Nat := 0
  size : Nat → Nat := fun _ => 0
  odpPool : Nat → Option ι := fun _ => none
  /-- the subpools of `pool_cfg`, sorted -/
  poolCfg : List Subpool := []
  name : List UInt8 := []

/-- `pool_subpool_t`, by default `pool_subpool_undef` -/
structure PoolSubpool (π : Type) where
  pool : Option π := none
  subpool : Nat := 0
  deriving DecidableEq

/-- `mpool_tbl_t` and the ODP pools: an ODP pool is known by its index, and belongs to a subpool or
to another user of ODP. It is destroyed by the delete of an EM pool or by that user. -/
structure State (π ι : Type) where
  elem : π → MpoolElem ι
  /-- `pool_subpool_odp2em` -/
  map : ι → PoolSubpool π
  odpPools : Resources ι (Option (π × Nat)) (Option π)

variable {π ι : Type} [DecidableEq π] [DecidableEq ι]

namespace State
variable (s : State π ι)

def setElem (p : π) (e : MpoolElem ι) : State π ι := { s with elem := Function.update s.elem p e }

def setMap (odpPool : ι) (entry : PoolSubpool π) : State π ι :=
  { s with map := Function.update s.map odpPool entry }

/-- `odp_pool_create`, with what ODP returns -/
def odpPoolCreate (odpPool : ι) (owner : Option (π × Nat)) : State π ι :=
  { s with odpPools := s.odpPools.create odpPool owner }

/-- `odp_pool_destroy` -/
def odpPoolDestroy (odpPool : ι) (by_ : Option π) : State π ι :=
  { s with odpPools := s.odpPools.destroy odpPool by_ }

/-- `pool_subpool_odp2em`, of an ODP pool whose index is known -/
def poolSubpoolOdp2em (odpPool : ι) : PoolSubpool π := s.map odpPool

/-- `pool_odp2em` -/
def poolOdp2em (odpPool : ι) : Option π := (s.map odpPool).pool

/-- The element of a pool at the start of `pool_create`, and whether its configuration is valid -/
def configure (env : Env) (p : π) (name : Option (List UInt8)) (cfg : PoolCfg) : State π ι × Bool :=
  let e := { s.elem p with
    allocated := true
    eventType := some cfg.eventType
    numSubpools := 0
    name := (name.getD []).take (emPoolNameLen - 1)
    poolCfg := env.setPoolcacheSize cfg (sortPoolCfg cfg.subpool)
    alignOffset := env.alignOffsetGet cfg }
  match env.setUareaSize cfg with
  | none => (s.setElem p e,false)
  | some size =>
    let e := { e with userAreaSize := size % 65536 }
    if cfg.eventType = .packet ∧ env.setPktHeadroom cfg = none then (s.setElem p e,false)
    else (s.setElem p e,true)

/-- The ODP pool of the `i`-th subpool has been created: its handle is stored for a delete. -/
def addSubpool (p : π) (i : Nat) (odpPool : ι) : State π ι :=
  let e := s.elem p
  (s.odpPoolCreate odpPool (some (p,i))).setElem p { e with
    odpPool := Function.update e.odpPool i (some odpPool)
    numSubpools := e.numSubpools + 1 }

/-- The size of a subpool is stored before its ODP pool is created. -/
def setSize (p : π) (i : Nat) : State π ι :=
  let e := s.elem p
  s.setElem p { e with size := Function.update e.size i ((e.poolCfg[i]?.map Subpool.size).getD 0) }

/-- The ODP pool of the `i`-th subpool is destroyed: its handle is cleared. -/
def remSubpool (p : π) (i : Nat) (odpPool : ι) : State π ι :=
  let e := s.elem p
  (s.odpPoolDestroy odpPool (some p)).setElem p { e with
    odpPool := Function.update e.odpPool i none
    size := Function.update e.size i 0 }

/-- The end of `pool_delete`, with `pool_free` -/
def finishDelete (p : π) : State π ι :=
  s.setElem p { s.elem p with
    allocated := false
    name := []
    eventType := none
    numSubpools := 0 }

end State
end EmOdp.Pool
