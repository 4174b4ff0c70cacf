import Mathlib.Algebra.GroupWithZero.Nat
import Mathlib.Data.Finset.Filter
import Mathlib.Data.Fintype.Basic
import EmOdp.Lib.TransitionSystem

/-! The event timers: their attributes, the timer storage, and the calls that
create and delete timers under the timer lock. -/
namespace EmOdp.Timer
open Lib

/-- Status codes of the timer API. -/
inductive Status where
  | ok | badArg | badState | badId | badContext | badPointer | notInitialized | notImplemented
  | allocFailed | libFailed | operationFailed | canceled | tooNear | tooFar | busy
deriving DecidableEq, Repr

/-- `EM_CHECK_INIT_CALLED` -/
def emCheckInitCalled : BitVec 32 := 0xACDCBEEF

/-- `EM_TIMER_FLAG_RING` -/
def emTimerFlagRing : BitVec 32 := 2

/-- `EM_TIMER_FLAG_RING_FREQ` -/
def emTimerFlagRingFreq : BitVec 32 := 4

/-- `EM_TIMER_NUM_CLKSRC` -/
def emTimerNumClksrc : Nat := 6

/-- `em_fract_u64_t` -/
structure FractU64 where
  integer : BitVec 64
  numer : BitVec 64
  denom : BitVec 64
deriving DecidableEq, Repr

/-- `em_timer_attr_t`: the fields that decide whether a timer is created. -/
structure TimerAttr where
  clkSrc : Nat
  resNs : BitVec 64
  resHz : BitVec 64
  numTmo : BitVec 32
  flags : BitVec 32
  priority : BitVec 16
  ringClkSrc : Nat
  ringBaseHz : FractU64
  ringMaxMul : BitVec 64
  freqClkSrc : Nat
  freqHz : Option (List FractU64)
  freqNum : BitVec 32
  maxPendingEvents : BitVec 32
  internalCheck : BitVec 32

/-- `odp_timer_capability_t`: the fields that are compared with the attributes. -/
structure TimerCapability where
  queueTypeSched : Bool
  queueTypePlain : Bool
  maxPriority : BitVec 16
  periodicMaxPriority : BitVec 16
  periodicSupportFreq : Bool
  periodicMinPendingTmo : BitVec 32
  periodicMaxPendingTmo : BitVec 32

/-- The build and the configuration: `EM_CHECK_LEVEL`, `PRE_1_50_ODP_TIMER_API`,
`EM_ODP_MAX_TIMERS` (an `int`) and the options of the timeout pools. -/
structure Options where
  checkLevel : Nat
  pre150 : Bool
  maxTimers : Nat
  maxTimers_lt : maxTimers < 2^31
  sharedTmoPoolEnable : Bool
  sharedTmoPoolSize : BitVec 32
  ringTimerEventPoolSize : BitVec 32

/-- `event_timer_t`; an invalid ODP handle is `none`. -/
structure EventTimer (τ π : Type) where
  odpTmrPool : Option τ
  tmoPool : Option π
  flags : BitVec 32
  plainQOk : Bool
  isRing : Bool
  numRingReserve : BitVec 32
  numTmoReserve : BitVec 32
deriving DecidableEq

/-- `timer_storage_t`, and which of the timeout pools exist in ODP. -/
structure Storage (opt : Options) (τ π : Type) where
  initCheck : BitVec 32
  timer : Fin opt.maxTimers → EventTimer τ π
  sharedTmoPool : Option π
  ringTmoPool : Option π
  numRings : BitVec 32
  numTimers : BitVec 32
  ringReserved : BitVec 32
  reserved : BitVec 32
  numRingCreateCalls : BitVec 32
  odpPools : π → Bool

/-- What ODP answers during one create: the capability, the timer pool, the pool of
timeout handles, the timeout event pool, the start and the destroy of a clean-up. -/
structure OdpCreate (τ π : Type) where
  capability : Option TimerCapability
  tmrPool : Option τ
  tmoPool : Option π
  ringTmoPool : Option π
  started : Bool
  destroyed : Bool

inductive RingKind where
  | baseMul | freq
deriving DecidableEq, Repr

/-- `timer_clksrc_em2odp` -/
def timerClksrcEm2odp (clkSrc : Nat) : Option (Fin emTimerNumClksrc) :=
  if h : clkSrc < emTimerNumClksrc then some ⟨clkSrc,h⟩ else none

/-- `check_timer_attr`: the error that is reported. -/
def checkTimerAttr : Option TimerAttr → Option Status
  | none => some .badPointer
  | some attr =>
    if attr.internalCheck ≠ emCheckInitCalled then some .notInitialized
    else if attr.resNs ≠ 0 ∧ attr.resHz ≠ 0 then some .badArg
    else none

/-- `check_timer_attr_ring` -/
def checkTimerAttrRing (checkLevel : Nat) : Option TimerAttr → Option Status
  | none => some .badPointer
  | some attr =>
    if 0 < checkLevel ∧ attr.internalCheck ≠ emCheckInitCalled then some .notInitialized
    else if 1 < checkLevel ∧
        ((attr.ringBaseHz.integer < 1 ∧ (attr.ringBaseHz.numer < 1 ∨ attr.ringBaseHz.denom < 1)) ∨
          (0 < attr.ringBaseHz.numer ∧ attr.ringBaseHz.denom = 0) ∨
          attr.ringMaxMul < 1 ∨ attr.flags &&& emTimerFlagRing = 0) then some .badArg
    else none

/-- `check_timer_attr_ring_freq` -/
def checkTimerAttrRingFreq : Option TimerAttr → Option Status
  | none => some .badPointer
  | some attr =>
    if attr.internalCheck ≠ emCheckInitCalled then some .notInitialized
    else if attr.flags &&& emTimerFlagRingFreq = 0 then some .badArg
    else if attr.freqHz = none ∨ attr.freqNum = 0 then some .badArg
    else none

/-- `ring_check_capa` -/
def ringCheckCapa (opt : Options) (kind : RingKind) (attr : TimerAttr)
    (capability : Option TimerCapability) : Except Status TimerCapability :=
  let clkSrc := if kind = .freq then attr.freqClkSrc else attr.ringClkSrc
  match timerClksrcEm2odp clkSrc, capability with
  | none, _ => .error .badArg
  | some _, none => .error .libFailed
  | some _, some capa =>
    if capa.queueTypeSched = false then .error .libFailed
    else if opt.pre150 = false ∧ kind = .freq ∧ capa.periodicSupportFreq = false then
      .error .notImplemented
    else if capa.periodicMaxPriority < attr.priority then .error .badArg
    else .ok capa

/-- `ring_fill_tpool_param`: the limits of the flow control. -/
def ringFillTpoolParam (opt : Options) (attr : TimerAttr) (capa : TimerCapability) :
    Except Status Unit :=
  if 0 < attr.maxPendingEvents then
    if opt.pre150 then .error .badArg
    else if capa.periodicMaxPendingTmo = 0 then .error .badArg
    else if capa.periodicMaxPendingTmo < attr.maxPendingEvents then .error .badArg
    else if attr.maxPendingEvents < capa.periodicMinPendingTmo then .error .badArg
    else .ok ()
  else .ok ()

/-- `TMR_H2I`: the index is cut to 32 bits. -/
def tmrH2I (tmr : BitVec 64) : Nat := ((tmr - 1).setWidth 32).toNat

/-- `TMR_I2H` -/
def tmrI2H {n : Nat} (i : Fin n) : BitVec 64 := BitVec.ofNat 64 (i.val + 1)

namespace Storage
variable {opt : Options} {τ π : Type}

def setTimer (s : Storage opt τ π) (i : Fin opt.maxTimers)
    (f : EventTimer τ π → EventTimer τ π) : Storage opt τ π :=
  { s with timer := Function.update s.timer i (f (s.timer i)) }

/-- `find_free_timer_index` -/
def findFreeTimerIndex (s : Storage opt τ π) : Option (Fin opt.maxTimers) :=
  (List.finRange opt.maxTimers).find? fun i => (s.timer i).odpTmrPool.isNone

/-- `is_timer_valid` -/
def isTimerValid (s : Storage opt τ π) (tmr : BitVec 64) : Option (Fin opt.maxTimers) :=
  if tmr = 0 then none
  else if h : tmrH2I tmr < opt.maxTimers then
    if (s.timer ⟨_,h⟩).odpTmrPool.isNone ∨ (s.timer ⟨_,h⟩).tmoPool.isNone then none else some ⟨_,h⟩
  else none

section
variable [DecidableEq π]

/-- `odp_pool_create` made the pool `p`. -/
def odpPoolCreate (s : Storage opt τ π) (p : π) : Storage opt τ π :=
  { s with odpPools := Function.update s.odpPools p true }

/-- `odp_pool_destroy` -/
def odpPoolDestroy (s : Storage opt τ π) (p : Option π) (ok : Bool) : Storage opt τ π :=
  match p with
  | none => s
  | some p => if ok then { s with odpPools := Function.update s.odpPools p false } else s

/-- `cleanup_timer_create_fail` -/
def cleanupTimerCreateFail (s : Storage opt τ π) (i : Fin opt.maxTimers) (ok : Bool) :
    Storage opt τ π :=
  let s' := if (s.timer i).tmoPool ≠ none ∧ (s.timer i).tmoPool ≠ s.sharedTmoPool then
      s.odpPoolDestroy (s.timer i).tmoPool ok else s
  s'.setTimer i fun t => { t with tmoPool := none, odpTmrPool := none }

/-- `ring_setup_tmo_handle_pool`, which `em_timer_create` repeats inline. -/
def ringSetupTmoHandlePool (s : Storage opt τ π) (i : Fin opt.maxTimers) (tmoPool : Option π) :
    Option (Storage opt τ π) :=
  if opt.sharedTmoPoolEnable = false then
    tmoPool.map fun p => (s.odpPoolCreate p).setTimer i fun t => { t with tmoPool := some p }
  else match s.sharedTmoPool with
    | none => tmoPool.map fun p =>
      { (s.odpPoolCreate p).setTimer i fun t => { t with tmoPool := some p } with
        sharedTmoPool := some p }
    | some p => some (s.setTimer i fun t => { t with tmoPool := some p })

/-- The reservation from the shared pool of timeout handles. -/
def reserveTmo (s : Storage opt τ π) (i : Fin opt.maxTimers) (numTmo : BitVec 32) :
    Storage opt τ π × Bool :=
  let s := s.setTimer i fun t => { t with numTmoReserve := numTmo }
  if opt.sharedTmoPoolEnable = true ∧ opt.sharedTmoPoolSize - s.reserved < numTmo then (s,false)
  else ({ s with
    reserved := if opt.sharedTmoPoolEnable then s.reserved + numTmo else s.reserved },true)

/-- The timer pool, the pool of the timeout handles and the reservation of a new timer,
the same code in `em_timer_create` and `ring_create_common`. -/
def createTimerPools (s : Storage opt τ π) (i : Fin opt.maxTimers) (odp : OdpCreate τ π)
    (numTmo : BitVec 32) : Storage opt τ π × Bool :=
  match odp.tmrPool with
  | none => (s,false)
  | some pool =>
    let s := s.setTimer i fun t => { t with odpTmrPool := some pool }
    match s.ringSetupTmoHandlePool i odp.tmoPool with
    | none => (s,false)
    | some s => s.reserveTmo i numTmo

/-- The checks of `em_timer_create` before the timer lock is taken. -/
def timerCreateChecks (s : Storage opt τ π) (attr : Option TimerAttr)
    (capability : Option TimerCapability) : Except Status (TimerAttr × TimerCapability) :=
  if s.initCheck ≠ emCheckInitCalled then .error .notInitialized
  else match if 0 < opt.checkLevel then checkTimerAttr attr else none, attr with
    | some e, _ => .error e
    -- a null pointer that is not checked faults
    | none, none => .error .badPointer
    | none, some attr => match timerClksrcEm2odp attr.clkSrc, capability with
      | none, _ => .error .badArg
      | some _, none => .error .libFailed
      | some _, some capa =>
        if capa.queueTypeSched = false then .error .libFailed
        else if capa.maxPriority < attr.priority then .error .badArg
        else .ok (attr,capa)

/-- `em_timer_create`; `EM_TIMER_UNDEF` is the error that is reported. -/
def emTimerCreate (s : Storage opt τ π) (attr : Option TimerAttr) (odp : OdpCreate τ π) :
    Storage opt τ π × Except Status (Fin opt.maxTimers) :=
  match s.timerCreateChecks attr odp.capability with
  | .error e => (s,.error e)
  | .ok (attr,capa) => match s.findFreeTimerIndex with
    | none => (s,.error .allocFailed)
    | some i => match s.createTimerPools i odp attr.numTmo with
      | (s,false) => (s.cleanupTimerCreateFail i odp.destroyed,.error .libFailed)
      | (s,true) =>
        let s := s.setTimer i fun t =>
          { t with flags := attr.flags, plainQOk := capa.queueTypePlain, isRing := false }
        if odp.started = false then (s.cleanupTimerCreateFail i odp.destroyed,.error .libFailed)
        else ({ s with numTimers := s.numTimers + 1 },.ok i)

/-- The timeout event pool that all rings share before ODP 1.50. -/
def ringSetupEventPool (s : Storage opt τ π) (ringTmoPool : Option π) (numTmo : BitVec 32) :
    Option (Storage opt τ π) :=
  if opt.pre150 = false then some s
  else match s.ringTmoPool with
    | some _ => some { s with ringReserved := s.ringReserved + numTmo }
    | none => ringTmoPool.map fun p => { s.odpPoolCreate p with
        ringTmoPool := some p, ringReserved := s.ringReserved + numTmo }

/-- `ring_create_common` -/
def ringCreateCommon (s : Storage opt τ π) (attr : TimerAttr) (kind : RingKind)
    (odp : OdpCreate τ π) : Storage opt τ π × Except Status (Fin opt.maxTimers) :=
  match ringCheckCapa opt kind attr odp.capability with
  | .error e => (s,.error e)
  | .ok capa => match ringFillTpoolParam opt attr capa with
    | .error e => (s,.error e)
    | .ok () =>
      if opt.pre150 = true ∧ opt.ringTimerEventPoolSize - s.ringReserved < attr.numTmo then
        (s,.error .allocFailed)
      else match s.findFreeTimerIndex with
        | none => (s,.error .allocFailed)
        | some i => match s.createTimerPools i odp attr.numTmo with
          | (s,false) => (s.cleanupTimerCreateFail i odp.destroyed,.error .libFailed)
          | (s,true) => match s.ringSetupEventPool odp.ringTmoPool attr.numTmo with
            | none => (s.cleanupTimerCreateFail i odp.destroyed,.error .libFailed)
            | some s =>
              let s := { s with numRings := s.numRings + 1, numTimers := s.numTimers + 1 }
              let s := s.setTimer i fun t =>
                { t with numRingReserve := attr.numTmo, flags := attr.flags,
                         plainQOk := capa.queueTypePlain, isRing := true }
              let s := { s with numRingCreateCalls := s.numRingCreateCalls + 1 }
              if odp.started = false then
                (s.cleanupTimerCreateFail i odp.destroyed,.error .libFailed)
              else (s,.ok i)

/-- The checks of `em_timer_ring_create` and `em_timer_ring_freq_create`. -/
def ringCreateChecks (s : Storage opt τ π) (kind : RingKind) (attr : Option TimerAttr) :
    Except Status TimerAttr :=
  if kind = .freq ∧ opt.pre150 = true then .error .notImplemented
  else if s.initCheck ≠ emCheckInitCalled then .error .notInitialized
  else
    let check := match kind with
      | .baseMul => (checkTimerAttrRing opt.checkLevel attr).map fun _ => Status.badArg
      | .freq => checkTimerAttrRingFreq attr
    match if 0 < opt.checkLevel then check else none, attr with
    | some e, _ => .error e
    | none, none => .error .badPointer
    | none, some attr => .ok attr

def ringCreate (s : Storage opt τ π) (kind : RingKind) (attr : Option TimerAttr)
    (odp : OdpCreate τ π) : Storage opt τ π × Except Status (Fin opt.maxTimers) :=
  match s.ringCreateChecks kind attr with
  | .error e => (s,.error e)
  | .ok attr => s.ringCreateCommon attr kind odp

/-- `em_timer_ring_create` -/
def emTimerRingCreate (s : Storage opt τ π) := s.ringCreate .baseMul

/-- `em_timer_ring_freq_create` -/
def emTimerRingFreqCreate (s : Storage opt τ π) := s.ringCreate .freq

/-- The ring part of `em_timer_delete`. -/
def deleteRing (s : Storage opt τ π) (i : Fin opt.maxTimers) : Storage opt τ π :=
  if (s.timer i).isRing = true ∧ s.numRings ≠ 0 then
    { s.setTimer i fun t => { t with numRingReserve := 0 } with
      numRings := s.numRings - 1
      ringReserved :=
        if opt.pre150 then s.ringReserved - (s.timer i).numRingReserve else s.ringReserved }
  else s

/-- The end of `em_timer_delete`: the last timer takes the shared pool with it. -/
def deleteSharedPool (s : Storage opt τ π) (rv : Status) (ok : Bool) : Storage opt τ π × Status :=
  if s.numTimers = 0 ∧ s.sharedTmoPool ≠ none then
    if ok = false then (s,.libFailed)
    else ({ s.odpPoolDestroy s.sharedTmoPool true with sharedTmoPool := none },rv)
  else (s,rv)

/-- `em_timer_delete`; `poolOk` and `sharedOk` are the results of the two `odp_pool_destroy`. -/
def emTimerDelete (s : Storage opt τ π) (tmr : BitVec 64) (poolOk sharedOk : Bool) :
    Storage opt τ π × Status :=
  match s.isTimerValid tmr with
  | none => (s,.badArg)
  | some i =>
    let own := (s.timer i).tmoPool ≠ s.sharedTmoPool
    let rv := if own ∧ poolOk = false then Status.libFailed else .ok
    let s := if own then s.odpPoolDestroy (s.timer i).tmoPool poolOk else s
    let s := s.setTimer i fun t => { t with tmoPool := none, odpTmrPool := none }
    let s := s.deleteRing i
    let s := { s with numTimers := s.numTimers - 1 }
    let s := if s.sharedTmoPool ≠ none then
        { s.setTimer i fun t => { t with numTmoReserve := 0 } with
          reserved := s.reserved - (s.timer i).numTmoReserve }
      else s
    s.deleteSharedPool rv sharedOk

end

/-- `timer_init`: every slot is free and the counters are zero. -/
def timerInit (odpPools : π → Bool) : Storage opt τ π :=
  ⟨emCheckInitCalled,fun _ => ⟨none,none,0,false,false,0,0⟩,none,none,0,0,0,0,0,odpPools⟩

def Initial (s : Storage opt τ π) : Prop := ∃ odpPools, s = timerInit odpPools

end Storage

/-- The calls on the timer storage with what ODP answers to each; every call runs
under the timer lock. -/
inductive Label (τ π : Type) where
  | create (attr : Option TimerAttr) (odp : OdpCreate τ π)
  | ringCreate (kind : RingKind) (attr : Option TimerAttr) (odp : OdpCreate τ π)
  | delete (tmr : BitVec 64) (poolOk sharedOk : Bool)

namespace Storage
variable {opt : Options} {τ π : Type}

/-- The handles of new pools differ from those of the pools that exist. -/
def Fresh (s : Storage opt τ π) (odp : OdpCreate τ π) : Prop :=
  (∀ p ∈ odp.tmoPool, s.odpPools p = false) ∧ (∀ p ∈ odp.ringTmoPool, s.odpPools p = false) ∧
    (odp.tmoPool = odp.ringTmoPool → odp.tmoPool = none)

variable [DecidableEq π]

instance (s : Storage opt τ π) (odp : OdpCreate τ π) : Decidable (s.Fresh odp) :=
  inferInstanceAs (Decidable (_ ∧ _ ∧ _))

/-- Without argument checks a null attribute pointer faults. -/
def step (s : Storage opt τ π) : Label τ π → Option (Storage opt τ π)
  | .create attr odp =>
    if s.Fresh odp ∧ (opt.checkLevel = 0 → attr.isSome) then some (s.emTimerCreate attr odp).1
    else none
  | .ringCreate kind attr odp =>
    if s.Fresh odp ∧ (opt.checkLevel = 0 → attr.isSome) then some (s.ringCreate kind attr odp).1
    else none
  | .delete tmr poolOk sharedOk => some (s.emTimerDelete tmr poolOk sharedOk).1

/-- The timer storage from `timer_init` on. -/
def system (opt : Options) (τ π : Type) [DecidableEq π] : System (Storage opt τ π) (Label τ π) :=
  .ofFn Initial step

end Storage
end EmOdp.Timer
