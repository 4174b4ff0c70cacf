import Mathlib.Data.List.Infix
import EmOdp.Pool.FailureRuns
import EmOdp.Pool.Payload

/-! The pools that `pool_init` creates: the default pool is reserved first, and put back into the pool
of free pools right before it is created. -/
namespace EmOdp.Pool
open Lib

/-- `EM_POOL_DEFAULT_NAME` -/
def emPoolDefaultName : List UInt8 := "default".toUTF8.data.toList

/-- `em_startup_pool_conf_t`, as read from the config file: where they are not given the name is empty
and the pool is `EM_POOL_UNDEF`. -/
structure StartupPoolConf (π : Type) where
  name : List UInt8 := []
  pool : Option π := none
  cfg : PoolCfg
  name_lt : name.length < emPoolNameLen := by decide

/-- What `em_pool_create` checks a configuration against, besides the `Env` -/
structure Limits where
  align : OdpAlign
  hdr : HdrSize
  maxPools : PerPool
  minCacheSize : PerPool
  /-- 0 or 1 -/
  uareaPersistence : PerPool

namespace Limits
variable (capa : Limits) (env : Env) (cfg : PoolCfg)

/-- `is_pool_type_supported` -/
def isPoolTypeSupported : Bool := capa.maxPools.of env cfg.eventType != 0

/-- `is_user_area_valid` -/
def isUserAreaValid : Bool :=
  match cfg.userArea with
  | none => true
  | some size => size ≤ emEventUserAreaMaxSize && (cfg.eventType = .sw ||
      size + capa.hdr.size ≤ env.maxUareaSize.of env cfg.eventType)

/-- `invalid_pool_cache_cfg` returns 0. -/
def validPoolCacheCfg : Bool :=
  cfg.subpool.all fun p => p.size != 0 && p.num != 0 &&
    capa.minCacheSize.of env cfg.eventType ≤ p.cacheSize

/-- `invalid_pool_cfg` returns 0. -/
def validPoolCfg : Bool :=
  capa.isPoolTypeSupported env cfg && isAlignOffsetValid env capa.align cfg &&
    capa.isUserAreaValid env cfg &&
    !(cfg.eventType = .packet && cfg.pktHeadroom.any (env.maxHeadroom < ·)) &&
    capa.validPoolCacheCfg env cfg

/-- `check_pool_uarea_persistence` returns 0. -/
def checkPoolUareaPersistence : Bool := capa.uareaPersistence.of env cfg.eventType != 0

end Limits

/-- What the pool of free pools and ODP answer during one `pool_create` -/
structure Answers (π ι : Type) where
  free : Option π := none
  made : Nat → Made ι
  cleanup : Nat → Unmade := fun _ => {}

/-- The results of `pool_init` from `read_config_file` on -/
inductive InitStatus where
  | ok | allocFailed
  deriving DecidableEq, Repr

/-- `pool_init` on its way; `freed` records the pools that it puts back, with the state they are in. -/
structure Startup (π ι : Type) where
  tbl : State π ι
  defaultPoolSet : Bool := false
  freed : List (State π ι × π) := []

variable {π ι : Type} [DecidableEq π] [DecidableEq ι]

namespace State
variable (s : State π ι)

/-- `pool_free` -/
def poolFree (p : π) : State π ι := s.setElem p { s.elem p with allocated := false }

/-- `em_pool_create`; `invalid_pool_cfg` also refuses what is not a `PoolCfg`. -/
def emPoolCreate (env : Env) (capa : Limits) (name : List UInt8) (pool : Option π)
    (cfg : Option PoolCfg) (a : Answers π ι) : State π ι × Option π :=
  match cfg with
  | none => (s,none)
  | some cfg =>
    if capa.validPoolCfg env cfg && capa.checkPoolUareaPersistence env cfg then
      let r := s.poolCreate env (some name) (pool.map some) cfg a.free a.made a.cleanup
      if r.2 = none ∨ pool ≠ none ∧ pool ≠ r.2 then (r.1,none) else r
    else (s,none)

/-- The pool has ODP pools that are not destroyed. -/
def Owns (p : π) : Prop := ∃ i < (s.elem p).numSubpools, ∃ h, (s.elem p).odpPool i = some h ∧
  s.odpPools.live h = some (some (p,i))

end State

/-- The entry is taken for the default pool. -/
def StartupPoolConf.IsDefault (dflt : π) (c : StartupPoolConf π) : Prop :=
  emPoolDefaultName <:+: c.name ∨ c.pool = some dflt

instance (dflt : π) (c : StartupPoolConf π) : Decidable (c.IsDefault dflt) :=
  inferInstanceAs (Decidable (emPoolDefaultName <:+: c.name ∨ c.pool = some dflt))

namespace Startup
variable (env : Env) (capa : Limits) (dflt : π) (t : Startup π ι)

/-- `pool_free` -/
def poolFree (p : π) : Startup π ι :=
  { t with tbl := t.tbl.poolFree p, freed := t.freed ++ [(t.tbl,p)] }

def emPoolCreate (name : List UInt8) (pool : Option π) (cfg : Option PoolCfg) (a : Answers π ι) :
    Startup π ι × Option π :=
  let r := t.tbl.emPoolCreate env capa name pool cfg a
  ({ t with tbl := r.1 },r.2)

/-- The default pool is put back, then created. -/
def createDefault (cfg : Option PoolCfg) (a : Answers π ι) : Startup π ι × Option π :=
  (t.poolFree dflt).emPoolCreate env capa emPoolDefaultName (some dflt) cfg a

/-- A round of the loop over the startup pools -/
def createStartupPool (x : StartupPoolConf π × Answers π ι) : Startup π ι × Option π :=
  if x.1.IsDefault dflt then
    ({ t with defaultPoolSet := true }).createDefault env capa dflt (some x.1.cfg) x.2
  else t.emPoolCreate env capa x.1.name x.1.pool (some x.1.cfg) x.2

/-- The loop over the startup pools, with the answers to each create -/
def createStartupPools : List (StartupPoolConf π × Answers π ι) → Startup π ι → Startup π ι × InitStatus
  | [], t => (t,.ok)
  | x :: xs, t =>
    match t.createStartupPool env capa dflt x with
    | (t,none) => (t,.allocFailed)
    | (t,some _) => createStartupPools xs t

/-- The default pool is created if no entry was for it. -/
def createMissing (cfg : Option PoolCfg) (a : Answers π ι) : Startup π ι × InitStatus :=
  if t.defaultPoolSet then (t,.ok)
  else match t.createDefault env capa dflt cfg a with
    | (t,none) => (t,.allocFailed)
    | (t,some p) => if p = dflt then (t,.ok) else (t,.allocFailed)

/-- The empty table, with the default pool reserved; ODP may have other pools. -/
def start (odpPools : Resources ι (Option (π × Nat)) (Option π)) : Startup π ι where
  tbl :=
    let s : State π ι := ⟨fun _ => {},fun _ => {},odpPools⟩
    s.setElem dflt { s.elem dflt with allocated := true }

/-- `pool_init`, from the first `pool_alloc` on: the empty table has a free element for every handle. -/
def poolInit (odpPools : Resources ι (Option (π × Nat)) (Option π)) (defaultPoolCfg : Option PoolCfg)
    (startupPools : List (StartupPoolConf π × Answers π ι)) (a : Answers π ι) :
    Startup π ι × InitStatus :=
  match createStartupPools env capa dflt startupPools (start dflt odpPools) with
  | (t,.ok) => t.createMissing env capa dflt defaultPoolCfg a
  | (t,.allocFailed) => (t,.allocFailed)

/-- The answers are possible when the entry is created. -/
def Possible (x : StartupPoolConf π × Answers π ι) : Prop :=
  (if x.1.IsDefault dflt then t.tbl.poolFree dflt else t.tbl).Possible x.1.cfg x.2.free x.2.made

instance (x : StartupPoolConf π × Answers π ι) : Decidable (t.Possible dflt x) :=
  inferInstanceAs (Decidable ((if x.1.IsDefault dflt then t.tbl.poolFree dflt else t.tbl).Possible
    x.1.cfg x.2.free x.2.made))

def AllPossible : List (StartupPoolConf π × Answers π ι) → Startup π ι → Prop
  | [], _ => True
  | x :: xs, t => t.Possible dflt x ∧ AllPossible xs (t.createStartupPool env capa dflt x).1

/-- The answers of ODP and of the pool of free pools during `pool_init` are possible. -/
structure Answered (odpPools : Resources ι (Option (π × Nat)) (Option π))
    (defaultPoolCfg : Option PoolCfg) (startupPools : List (StartupPoolConf π × Answers π ι))
    (a : Answers π ι) : Prop where
  ok : odpPools.Ok
  others : ∀ r ∈ odpPools, r.payload = none
  startup : AllPossible env capa dflt startupPools (start dflt odpPools)
  default :
    let t := (createStartupPools env capa dflt startupPools (start dflt odpPools)).1
    t.defaultPoolSet = false → ∀ cfg ∈ defaultPoolCfg,
      (t.tbl.poolFree dflt).Possible cfg a.free a.made

end Startup

/-- The element of a pool that is created with this configuration. -/
structure MpoolElem.Has (env : Env) (cfg : PoolCfg) (e : MpoolElem ι) : Prop where
  allocated : e.allocated = true
  eventType : e.eventType = some cfg.eventType
  alignOffset : e.alignOffset = env.alignOffsetGet cfg
  userAreaSize : (env.setUareaSize cfg).map (· % 65536) = some e.userAreaSize
  poolCfg : e.poolCfg = env.setPoolcacheSize cfg (sortPoolCfg cfg.subpool)
  numSubpools : e.numSubpools = cfg.subpool.length

/-- A pool is alive: it has subpools, each with an ODP pool of its own. -/
structure State.Live (s : State π ι) (p : π) : Prop where
  allocated : (s.elem p).allocated = true
  pos : 0 < (s.elem p).numSubpools
  ready : s.Ready p

namespace StartupPoolConf
variable (env : Env) (dflt : π) (c : StartupPoolConf π)

/-- The entry has been created as configured, as this pool. -/
structure CreatedAs (s : State π ι) (p : π) : Prop where
  cfg : (s.elem p).Has env c.cfg
  live : s.Live p
  name : c.name ≠ [] → (s.elem p).name = c.name
  pool : ∀ q ∈ c.pool, p = q
  other : p = dflt → c.pool = some dflt ∨ c.name = emPoolDefaultName

end StartupPoolConf

/-- Every entry has its own pool, the default pool is one pool, and no pool was put back with its ODP
pools. -/
structure Startup.CreatedAsConfigured (env : Env) (dflt : π) (confs : List (StartupPoolConf π))
    (t : Startup π ι) : Prop where
  entries : ∃ pools : List π, pools.Nodup ∧ confs.Forall₂ (fun c p => c.CreatedAs env dflt t.tbl p) pools
  default : t.tbl.Live dflt
  once : ∀ r ∈ t.tbl.odpPools, ∀ i, r.payload = some (dflt,i) → r.destroyedBy = [] →
    i < (t.tbl.elem dflt).numSubpools ∧ (t.tbl.elem dflt).odpPool i = some r.handle
  freed : ∀ x ∈ t.freed, ¬x.1.Owns x.2

/-- At most one entry is taken for the default pool, and it asks for no other name and handle. -/
def DefaultOnce (dflt : π) (confs : List (StartupPoolConf π)) : Prop :=
  (confs.Pairwise fun c d => c.IsDefault dflt → ¬d.IsDefault dflt) ∧
    ∀ c ∈ confs, c.IsDefault dflt →
      (c.name = [] ∨ c.name = emPoolDefaultName) ∧ (c.pool = none ∨ c.pool = some dflt)

instance (dflt : π) (confs : List (StartupPoolConf π)) : Decidable (DefaultOnce dflt confs) :=
  inferInstanceAs (Decidable ((confs.Pairwise fun c d => c.IsDefault dflt → ¬d.IsDefault dflt) ∧
    ∀ c ∈ confs, c.IsDefault dflt →
      (c.name = [] ∨ c.name = emPoolDefaultName) ∧ (c.pool = none ∨ c.pool = some dflt)))

end EmOdp.Pool
