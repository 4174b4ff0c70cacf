import EmOdp.Timer.Storage

/-! One periodic timeout that is set, acknowledged and cancelled from several cores.
Every load and store of the timeout's state and every call of the ODP timer is one step. -/
namespace EmOdp.Timer
open Lib

/-- `EM_TIMER_ACK_TRIES` -/
def emTimerAckTries : Nat := 5

/-- `em_tmo_state_t` -/
inductive TmoState where
  | unknown | idle | active
deriving DecidableEq, Repr

/-- The return codes of the ODP timer calls. -/
inductive OdpRet where
  | success | tooNear | tooFar | busy | fail
deriving DecidableEq, Repr

/-- `timer_rv_odp2em`; `ODP_TIMER_BUSY` exists from ODP 1.50 on. -/
def timerRvOdp2em (pre150 : Bool) : OdpRet → Status
  | .success => .ok
  | .tooNear => .tooNear
  | .tooFar => .tooFar
  | .busy => if pre150 then .libFailed else .busy
  | .fail => .libFailed

/-- `handle_ack_skip`: the next tick that is not passed yet; a zero period faults. -/
def handleAckSkip (lastTick period now : BitVec 64) : Option (BitVec 64) :=
  if lastTick < now then
    if period = 0 then none else some (lastTick + ((now - lastTick) / period + 1) * period)
  else some (lastTick + period)

namespace Periodic

/-- The ODP timer holds the timeout event while it is armed. -/
inductive OdpTimer where
  | free | armed | expired
deriving DecidableEq, Repr

/-- What is in the destination queue. -/
inductive QueueItem where
  | timeout | other
deriving DecidableEq, Repr

inductive Op where
  | cancel | ack | setPeriodic
deriving DecidableEq, Repr

/-- The ticks that are passed to `em_tmo_set_periodic`. -/
structure SetArgs where
  startAbs : BitVec 64
  period : BitVec 64
deriving DecidableEq, Repr

/-- Where a core is in `em_tmo_cancel`, `em_tmo_ack` or `em_tmo_set_periodic`. -/
inductive Pc where
  | idle
  | cancelLoad | cancelStore | cancelOdp
  | ackLoad | ackStart (tries : Nat) | ackSend
  | setLoad (args : SetArgs) | setStore (args : SetArgs) | setStart | setIdle (ret : OdpRet)
  | done (op : Op) (status : Status)
deriving DecidableEq, Repr

def Pc.storesActive : Pc → Bool
  | .setStore _ => true
  | _ => false

/-- `EM_CHECK_LEVEL`, `PRE_1_50_ODP_TIMER_API` and the flag `EM_TMO_FLAG_NOSKIP`. -/
structure Config where
  checkLevel : Nat
  pre150 : Bool
  noskip : Bool

/-- `em_timer_timeout_t` with its ODP timer, the destination queue and the cores. The
number of deliveries is not part of the code. -/
structure State (κ : Type) where
  state : TmoState
  period : BitVec 64
  lastTick : BitVec 64
  timer : OdpTimer
  queue : List QueueItem
  held : κ → Nat
  pc : κ → Pc
  delivered : Nat

/-- What the calls of one step answer: the ODP timer, `em_send` and the current tick. -/
structure Answer where
  ret : OdpRet := .success
  sent : Status := .ok
  now : BitVec 64 := 0

inductive Label (κ : Type) where
  | callCancel (c : κ)
  | callAck (c : κ)
  | callSet (c : κ) (args : SetArgs)
  | run (c : κ) (answer : Answer)
  | ret (c : κ)
  | expire
  | deliver (c : κ)
  | enqueue

namespace State
variable {κ : Type} [DecidableEq κ]

def setPc (s : State κ) (c : κ) (pc : Pc) : State κ := { s with pc := Function.update s.pc c pc }

/-- The core takes the timeout event. -/
def take (s : State κ) (c : κ) : State κ :=
  { s with held := Function.update s.held c (s.held c + 1) }

/-- The core gives the timeout event away. -/
def give (s : State κ) (c : κ) : State κ :=
  { s with held := Function.update s.held c (s.held c - 1) }

/-- The rest of the loop in `tmo_ack_rearm` after a try that failed. -/
def ackRetry (s : State κ) (c : κ) (tries : Nat) : State κ :=
  if tries - 1 < 1 then s.setPc c (.done .ack .operationFailed) else s.setPc c (.ackStart (tries - 1))

/-- The next step of `em_tmo_cancel`. -/
def cancelStep (s : State κ) (c : κ) (x : Answer) : Pc → Option (State κ)
  | .cancelLoad =>
    some (if s.state = .active then s.setPc c .cancelStore else s.setPc c (.done .cancel .badState))
  | .cancelStore => some ({ s with state := .idle }.setPc c .cancelOdp)
  | .cancelOdp => match x.ret with
    | .success =>
      if s.timer = .armed then some (({ s with timer := .free }.take c).setPc c (.done .cancel .ok))
      else none
    | .tooNear => if s.timer = .free then none else some (s.setPc c (.done .cancel .tooNear))
    | .fail => some (s.setPc c (.done .cancel .badState))
    | _ => none
  | _ => none

/-- The next step of `em_tmo_ack` and `tmo_ack_rearm`. -/
def ackStep (cfg : Config) (s : State κ) (c : κ) (x : Answer) : Pc → Option (State κ)
  | .ackLoad => match s.state with
    | .active =>
      some ({ s with lastTick := s.lastTick + s.period }.setPc c (.ackStart emTimerAckTries))
    | .idle => some (s.setPc c (.done .ack .canceled))
    | .unknown => some (s.setPc c (.done .ack .badState))
  | .ackStart tries => match x.ret with
    | .success =>
      if s.timer = .armed then none
      else some (({ s with timer := .armed }.give c).setPc c (.done .ack .ok))
    | .tooNear =>
      if cfg.noskip then some (s.setPc c .ackSend)
      else (handleAckSkip s.lastTick s.period x.now).map fun lastTick =>
        { s with lastTick }.ackRetry c tries
    | .busy => some (if cfg.pre150 then s.setPc c (.done .ack .libFailed) else s.ackRetry c tries)
    | _ => some (s.setPc c (.done .ack .libFailed))
  -- `handle_ack_noskip`
  | .ackSend =>
    some (if x.sent = .ok then
        ({ s with queue := s.queue ++ [QueueItem.timeout] }.give c).setPc c (.done .ack .ok)
      else s.setPc c (.done .ack x.sent))
  | _ => none

/-- The period and the first tick are set, and `EM_TMO_STATE_ACTIVE` is stored. -/
def activate (s : State κ) (args : SetArgs) (now : BitVec 64) : State κ :=
  { s with
    period := args.period
    lastTick := if args.startAbs = 0 then now + args.period else args.startAbs
    state := .active }

/-- The next step of `em_tmo_set_periodic`. -/
def setStep (cfg : Config) (s : State κ) (c : κ) (x : Answer) : Pc → Option (State κ)
  | .setLoad args =>
    some (if 1 < cfg.checkLevel ∧ s.state = .unknown then s.setPc c (.done .setPeriodic .badState)
      else s.setPc c (.setStore args))
  | .setStore args => some ((s.activate args x.now).setPc c .setStart)
  | .setStart =>
    if x.ret = .success then
      if s.timer = .armed then none
      else some (({ s with timer := .armed }.give c).setPc c (.done .setPeriodic .ok))
    else some (s.setPc c (.setIdle x.ret))
  | .setIdle ret => some ({ s with state := .idle }.setPc c
      (.done .setPeriodic (timerRvOdp2em cfg.pre150 ret)))
  | _ => none

/-- The next step of the call that core `c` is in. -/
def runStep (cfg : Config) (s : State κ) (c : κ) (x : Answer) : Option (State κ) :=
  match s.pc c with
  | .idle | .done .. => none
  | .cancelLoad | .cancelStore | .cancelOdp => s.cancelStep c x (s.pc c)
  | .ackLoad | .ackStart _ | .ackSend => s.ackStep cfg c x (s.pc c)
  | _ => s.setStep cfg c x (s.pc c)

/-- Only the owner of the timeout event acknowledges it or sets the timeout with it; any
core cancels. -/
def step (cfg : Config) (s : State κ) : Label κ → Option (State κ)
  | .callCancel c => if s.pc c = .idle then some (s.setPc c .cancelLoad) else none
  | .callAck c => if s.pc c = .idle ∧ 0 < s.held c then some (s.setPc c .ackLoad) else none
  | .callSet c args =>
    if s.pc c = .idle ∧ 0 < s.held c then some (s.setPc c (.setLoad args)) else none
  | .run c x => s.runStep cfg c x
  | .ret c => match s.pc c with
    | .done .. => some (s.setPc c .idle)
    | _ => none
  | .expire =>
    if s.timer = .armed then some { s with timer := .expired, queue := s.queue ++ [.timeout] }
    else none
  | .deliver c =>
    if s.pc c = .idle then match s.queue with
      | .timeout :: rest => some ({ s with queue := rest, delivered := s.delivered + 1 }.take c)
      | .other :: rest => some { s with queue := rest }
      | [] => none
    else none
  | .enqueue => some { s with queue := s.queue ++ [.other] }

/-- A timeout that has been created and not been set; one core owns the timeout event. -/
def Initial (s : State κ) : Prop :=
  s.state = .idle ∧ s.timer = .free ∧ s.queue = [] ∧ (∀ c, s.pc c = .idle) ∧
    ∃ c, s.held = fun d => if d = c then 1 else 0

/-- The periodic timeout from its creation on. -/
def system (cfg : Config) (κ : Type) [DecidableEq κ] : System (State κ) (Label κ) :=
  .ofFn Initial (step cfg)

/-- The step does not activate the timeout: no core in `em_tmo_set_periodic` stores
`EM_TMO_STATE_ACTIVE`. -/
def NoActivation (s : State κ) : Label κ → Prop
  | .run c _ => (s.pc c).storesActive = false
  | _ => True

instance (s : State κ) : DecidablePred s.NoActivation := fun l => by
  cases l <;> simp only [NoActivation] <;> infer_instance

end State
end Periodic
end EmOdp.Timer
