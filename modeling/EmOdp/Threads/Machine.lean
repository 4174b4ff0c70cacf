import Mathlib.Data.Finset.Card
import EmOdp.Lib.TransitionSystem

/-! The map between EM cores and ODP threads, as the local initialisation and termination of a
thread change it. ODP threads and EM cores are known by their numbers. -/
namespace EmOdp.Threads
open Lib

inductive Status where
  | ok | badArg | badId | badState | badType | tooSmall | tooLarge | libFailed | error
  deriving DecidableEq, Repr

/-- `em_core_type_t` -/
inductive CoreType where
  | worker | control | external
  deriving DecidableEq, Repr

/-- `odp_thread_type_t` -/
inductive OdpThreadType where
  | worker | control
  deriving DecidableEq, Repr

/-- `conf.core_count` and the number of ODP threads, as checked by `core_map_init` and by the
assertions on the types of the tables -/
structure Config where
  coreCount : Nat
  thrMax : Nat
  pos : 0 < coreCount
  coreCount_le : coreCount ≤ 256
  coreCount_thr : coreCount ≤ thrMax
  thrMax_le : thrMax ≤ 65536

/-- `odp_atomic_inc_u32` -/
def incU32 (n : Nat) : Nat := if n = 4294967295 then 0 else n + 1

/-- `odp_atomic_dec_u32` -/
def decU32 (n : Nat) : Nat := if n = 0 then 4294967295 else n - 1

/-- `core_map_t` -/
structure CoreMap where
  currentCoreCount : Nat := 0
  workerCoreCount : Nat := 0
  controlCoreCount : Nat := 0
  externalThreadCount : Nat := 0
  /-- `thr_vs_logic.logic`, by ODP thread -/
  logic : Nat → Nat := fun _ => 0
  /-- `thr_vs_logic.odp_thr`, by EM core -/
  odpThr : Nat → Nat := fun _ => 0
  logicMask : Finset Nat := ∅
  workerMask : Finset Nat := ∅
  controlMask : Finset Nat := ∅
  thrmaskEmcores : Finset Nat := ∅
  thrmaskExtthrs : Finset Nat := ∅
  thrmaskAll : Finset Nat := ∅

/-- `em_conf_local_t` -/
structure ConfLocal where
  coreType : CoreType
  coreId : Int

/-- The part of `em_locm_t` that the termination of a thread reads, by default `locm_init_values` -/
structure Locm where
  coreId : Int := -1
  coreType : Option CoreType := none
  isCoreLocalInited : Bool := false

/-- What the other steps of a local initialisation return, in their order. -/
structure Answers where
  thrMem : Status := .ok
  ctrlQueue : Status := .ok
  /-- the physical core is in `phys_mask` -/
  physCore : Bool := true
  schedAffinity : Status := .ok
  /-- the path of the stat file fits -/
  path : Bool := true
  queueGroup : Status := .ok
  dispatch : Status := .ok
  inputPoll : Status := .ok
  outputDrain : Status := .ok
  queue : Status := .ok
  timer : Status := .ok
  syncApi : Status := .ok
  emcli : Status := .ok

/-- The first error among the results of calls made in this order -/
def firstError (stats : List Status) : Status := (stats.find? (· ≠ .ok)).getD .ok

/-- The error that `init_local` returns for most steps -/
def Status.lib (stat : Status) : Status := if stat = .ok then .ok else .libFailed

/-- The result of the steps that follow the map in `init_local` -/
def Answers.laterLocal (a : Answers) : Status :=
  firstError [a.queueGroup.lib,a.dispatch.lib,a.inputPoll.lib,a.outputDrain.lib,a.queue,a.timer.lib,
    a.syncApi.lib,a.emcli.lib]

/-- The result of the steps that follow the map in `init_extthr` -/
def Answers.laterExtthr (a : Answers) : Status := firstError [a.syncApi.lib,a.emcli.lib]

namespace CoreMap
variable (m : CoreMap)

/-- `determine_core_id` -/
def determineCoreId (cfg : Config) (reqCoreId : Int) : Option Nat :=
  if reqCoreId < -1 then none
  else if reqCoreId = -1 then (List.range cfg.coreCount).find? (· ∉ m.logicMask)
  else if cfg.coreCount ≤ reqCoreId.toNat then none
  else if reqCoreId.toNat ∈ m.logicMask then none
  else some reqCoreId.toNat

/-- The map with an EM core added, as written with the lock held in `core_map_init_local` -/
def addCore (thr coreId : Nat) (coreType : CoreType) : CoreMap :=
  let m : CoreMap := { m with
    currentCoreCount := incU32 m.currentCoreCount
    logic := Function.update m.logic thr (coreId % 256)
    odpThr := Function.update m.odpThr coreId (thr % 65536)
    logicMask := insert coreId m.logicMask
    thrmaskEmcores := insert thr m.thrmaskEmcores
    thrmaskAll := insert thr m.thrmaskAll }
  if coreType = .worker then { m with
    workerCoreCount := incU32 m.workerCoreCount
    workerMask := insert coreId m.workerMask }
  else { m with
    controlCoreCount := incU32 m.controlCoreCount
    controlMask := insert coreId m.controlMask }

/-- `core_map_init_local`, with the EM core that it has chosen -/
def initLocal (cfg : Config) (thr : Nat) (conf : ConfLocal) (a : Answers) :
    CoreMap × Option Nat × Status :=
  if a.physCore = false then (m,none,.badId)
  else if a.schedAffinity ≠ .ok then (m,none,a.schedAffinity)
  else if cfg.thrMax ≤ thr then (m,none,.libFailed)
  else if a.path = false then (m,none,.libFailed)
  else match m.determineCoreId cfg conf.coreId with
    | none => (m,none,.tooSmall)
    | some coreId =>
      if cfg.coreCount < incU32 m.currentCoreCount then
        ({ m with currentCoreCount := decU32 (incU32 m.currentCoreCount) },some coreId,.tooLarge)
      else (m.addCore thr coreId conf.coreType,some coreId,.ok)

/-- `core_map_init_extthr` -/
def initExtthr (cfg : Config) (thr : Nat) : CoreMap × Status :=
  if cfg.thrMax ≤ thr then (m,.libFailed)
  else ({ m with
    externalThreadCount := incU32 m.externalThreadCount
    thrmaskExtthrs := insert thr m.thrmaskExtthrs
    thrmaskAll := insert thr m.thrmaskAll },.ok)

/-- What `core_map_term_local` writes with the lock held, but for the requests -/
def termLocal (thr : Nat) (locm : Locm) : CoreMap :=
  let coreId := locm.coreId.toNat
  let m : CoreMap := { m with
    currentCoreCount := decU32 m.currentCoreCount
    logic := Function.update m.logic thr 0
    odpThr := Function.update m.odpThr coreId 0
    logicMask := m.logicMask.erase coreId
    thrmaskEmcores := m.thrmaskEmcores.erase thr
    thrmaskAll := m.thrmaskAll.erase thr }
  if locm.coreType = some .worker then { m with
    workerCoreCount := decU32 m.workerCoreCount
    workerMask := m.workerMask.erase coreId }
  else { m with
    controlCoreCount := decU32 m.controlCoreCount
    controlMask := m.controlMask.erase coreId }

/-- What `core_map_term_extthr` writes with the lock held, but for the requests -/
def termExtthr (thr : Nat) : CoreMap :=
  { m with
    externalThreadCount := decU32 m.externalThreadCount
    thrmaskExtthrs := m.thrmaskExtthrs.erase thr
    thrmaskAll := m.thrmaskAll.erase thr }

end CoreMap

/-- The shared map and the local memory of each thread. -/
structure State where
  map : CoreMap
  locm : Nat → Locm

namespace State
variable (s : State)

def setLocm (thr : Nat) (map : CoreMap) (locm : Locm) : State :=
  ⟨map,Function.update s.locm thr locm⟩

/-- `init_local` with the end of `em_init_local`. The core id is stored as soon as it is known. -/
def initLocal (cfg : Config) (thr : Nat) (conf : ConfLocal) (a : Answers) : State × Status :=
  if a.thrMem ≠ .ok then (s.setLocm thr s.map {},.libFailed)
  else
    let locm : Locm := { coreType := some conf.coreType }
    if a.ctrlQueue ≠ .ok then (s.setLocm thr s.map locm,.libFailed)
    else match s.map.initLocal cfg thr conf a with
      | (map,coreId,stat) =>
        let locm := match coreId with
          | some coreId => { locm with coreId := coreId }
          | none => locm
        if stat ≠ .ok then (s.setLocm thr map locm,.libFailed)
        else (s.setLocm thr map { locm with isCoreLocalInited := a.laterLocal = .ok },a.laterLocal)

/-- `init_extthr` with the end of `em_init_local` -/
def initExtthr (cfg : Config) (thr : Nat) (conf : ConfLocal) (a : Answers) : State × Status :=
  if a.thrMem ≠ .ok then (s.setLocm thr s.map {},.libFailed)
  else
    let locm : Locm := { coreType := some conf.coreType }
    if a.ctrlQueue ≠ .ok then (s.setLocm thr s.map locm,.libFailed)
    else match s.map.initExtthr cfg thr with
      | (map,stat) =>
        if stat ≠ .ok then (s.setLocm thr map locm,.libFailed)
        else (s.setLocm thr map { locm with isCoreLocalInited := a.laterExtthr = .ok },a.laterExtthr)

/-- `em_init_local`, where `odpType` is the type of the ODP thread -/
def emInitLocal (cfg : Config) (thr : Nat) (odpType : OdpThreadType) (conf : ConfLocal) (a : Answers) :
    State × Status :=
  if conf.coreId < -1 then (s,.badArg)
  else if (s.locm thr).isCoreLocalInited then (s,.badState)
  else match conf.coreType with
    | .worker => if odpType ≠ .worker then (s,.badType) else s.initLocal cfg thr conf a
    | .control => if odpType ≠ .control then (s,.badType) else s.initLocal cfg thr conf a
    | .external => if odpType ≠ .control then (s,.badType) else s.initExtthr cfg thr conf a

/-- What `em_term_local` does to the map, `later` tells whether the rest of `term_core` or
`term_extthr` fails. -/
def emTermLocal (thr : Nat) (later : Bool) : State × Status :=
  if (s.locm thr).isCoreLocalInited = false then (s,.badState)
  else match (s.locm thr).coreType with
    | some .external =>
      (s.setLocm thr (s.map.termExtthr thr) {},if later then .ok else .error)
    | some .worker | some .control =>
      (s.setLocm thr (s.map.termLocal thr (s.locm thr)) {},if later then .ok else .error)
    | none => (s,.badType)

end State

inductive Label where
  /-- `em_init_local`, and `em_init_core` with its own configuration -/
  | init (thr : Nat) (odpType : OdpThreadType) (conf : ConfLocal) (a : Answers)
  /-- `em_term_local` and `em_term_core` -/
  | term (thr : Nat) (later : Bool)

/-- A call with its result -/
def State.call (s : State) (cfg : Config) : Label → State × Status
  | .init thr odpType conf a => s.emInitLocal cfg thr odpType conf a
  | .term thr later => s.emTermLocal thr later

/-- `core_map_init`, before the first local initialisation -/
def State.Initial (s : State) : Prop := s = ⟨{},fun _ => {}⟩

/-- The calls of any number of threads, in the order in which they hold the lock of the map -/
def system (cfg : Config) : System State Label :=
  System.ofFn State.Initial fun s l => some (s.call cfg l).1

end EmOdp.Threads
