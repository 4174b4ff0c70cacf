import EmOdp.Lib.WhileLoop

/-! `em_dispatch_duration` and its variants: the dispatch loops with and without user functions,
the rounds that drain the scheduler, and the results. -/
namespace EmOdp.Dispatch.Loops
open Lib

/-- `EM_SCHED_MULTI_MAX_BURST` -/
def emSchedMultiMaxBurst : BitVec 16 := 32

/-- `em_dispatch_duration_t` -/
structure Duration where
  select : BitVec 32
  rounds : BitVec 64 := 0
  ns : BitVec 64 := 0
  events : BitVec 64 := 0
  noEventsRounds : BitVec 64 := 0
  noEventsNs : BitVec 64 := 0
  deriving DecidableEq, Repr

namespace Duration
variable (d : Duration)

/-- `EM_DISPATCH_DURATION_FOREVER` -/
def forever : Bool := d.select = 0

def selects (flag : BitVec 32) : Bool := d.select &&& flag ≠ 0

/-- `EM_DISPATCH_DURATION_ROUNDS` -/
def durationRounds : Bool := d.selects 1

/-- `EM_DISPATCH_DURATION_NS` -/
def durationNs : Bool := d.selects 2

/-- `EM_DISPATCH_DURATION_EVENTS` -/
def durationEvents : Bool := d.selects 4

/-- `EM_DISPATCH_DURATION_NO_EVENTS_ROUNDS` -/
def durationNoevRounds : Bool := d.selects 8

/-- `EM_DISPATCH_DURATION_NO_EVENTS_NS` -/
def durationNoevNs : Bool := d.selects 16

/-- The clock is read. -/
def readsTime : Bool := d.durationNs || d.durationNoevNs

end Duration

/-- `em_dispatch_opt_t` -/
structure Opt where
  waitNs : BitVec 64 := 0
  burstSize : BitVec 16 := emSchedMultiMaxBurst
  skipInputPoll : Bool := false
  skipOutputDrain : Bool := false
  schedPause : Bool := false
  /-- `__internal_check` -/
  initCalled : Bool := true
  deriving DecidableEq, Repr

/-- `em_dispatch_results_t` -/
structure Results where
  rounds : BitVec 64 := 0
  ns : BitVec 64 := 0
  events : BitVec 64 := 0
  deriving DecidableEq, Repr

inductive Status where
  | ok | badArg | notInitialized | notSupported
  deriving DecidableEq, Repr

/-- A call of `dispatch_round`: the events that it returns, and those that it has dispatched from
local queues -/
structure Round where
  events : Nat
  localEvents : Nat := 0
  deriving DecidableEq, Repr

/-- What a call meets. `τ` is the type `odp_time_t`. -/
structure Env (τ : Type) where
  /-- the rounds of the dispatch loop, numbered from 0 -/
  round : Nat → Round
  /-- `odp_time_local_ns` before each round, and after the one before it -/
  clock : Nat → Nat
  /-- `odp_time_local` in each round -/
  localTime : Nat → τ
  /-- the rounds after `odp_schedule_pause`; when they are over there are no more events -/
  drain : List Round
  /-- the time that these rounds take -/
  drainNs : Nat

/-- What is done, in order: waiting for 0 ns is `ODP_SCHED_NO_WAIT`. -/
inductive Act where
  | odpScheduleResume
  | inputPollFn
  | dispatchRound (waitNs : BitVec 64) (burstSize : BitVec 16)
  | outputDrainFn
  | odpSchedulePause
  deriving DecidableEq, Repr

/-- `locm->poll_drain_dispatch_cnt` and `locm->poll_drain_dispatch_last_run` -/
structure PollDrain (τ : Type) where
  cnt : BitVec 32
  lastRun : τ

/-- The configuration, of EM and of the core -/
structure Config (τ : Type) where
  emCheckLevel : Nat
  isEmCore : Bool
  inputPollFn : Bool
  outputDrainFn : Bool
  pollDrainInterval : BitVec 32
  pollDrainPeriod : τ
  /-- `odp_time_diff` -/
  odpTimeDiff : τ → τ → τ
  /-- `odp_time_cmp` is negative. -/
  odpTimeLt : τ → τ → Bool

variable {τ : Type}

/-- `check_poll_drain_round` -/
def checkPollDrainRound (cfg : Config τ) (now : τ) (p : PollDrain τ) : PollDrain τ × Bool :=
  if 1 < cfg.pollDrainInterval then
    let p := { p with cnt := p.cnt - 1 }
    if p.cnt = 0 then
      let period := cfg.odpTimeDiff now p.lastRun
      let p := { p with cnt := cfg.pollDrainInterval }
      if cfg.odpTimeLt cfg.pollDrainPeriod period then ({ p with lastRun := now },true) else (p,false)
    else (p,false)
  else (p,true)

/-- The variables of a dispatch loop, with `locm->local_event_cnt` -/
structure Loop (τ : Type) where
  events : BitVec 64 := 0
  rounds : BitVec 64 := 0
  noevRounds : BitVec 64 := 0
  startNs : BitVec 64 := 0
  stopNs : BitVec 64 := 0
  noevStopNs : BitVec 64 := 0
  timeNs : BitVec 64 := 0
  localEventCnt : BitVec 64 := 0
  pollDrain : PollDrain τ
  acts : List Act := []

namespace Loop
variable (l : Loop τ)

def act (a : Act) : Loop τ := { l with acts := l.acts ++ [a] }

def readTime (d : Duration) (env : Env τ) : Loop τ :=
  if d.readsTime then
    let startNs := BitVec.ofNat 64 (env.clock 0)
    { l with
      startNs
      stopNs := startNs + d.ns
      noevStopNs := startNs + d.noEventsNs
      timeNs := startNs }
  else l

/-- The condition of both loops -/
def keepsOn (d : Duration) : Bool :=
  (!d.durationRounds || l.rounds < d.rounds) &&
  (!d.durationNs || l.timeNs < l.stopNs) &&
  (!d.durationEvents || l.events + l.localEventCnt < d.events) &&
  (!d.durationNoevRounds || l.noevRounds < d.noEventsRounds) &&
  (!d.durationNoevNs || l.timeNs < l.noevStopNs)

/-- `dispatch_round` -/
def dispatchRound (waitNs : BitVec 64) (opt : Opt) (r : Round) : Loop τ :=
  { l.act (.dispatchRound waitNs opt.burstSize) with
    localEventCnt := l.localEventCnt + BitVec.ofNat 64 r.localEvents }

def results (d : Duration) : Results where
  rounds := l.rounds
  ns := if d.readsTime then l.timeNs - l.startNs else 0
  events := l.events

end Loop

section Rounds
variable (cfg : Config τ) (d : Duration) (opt : Opt) (env : Env τ) (k : Nat) (l : Loop τ)

/-- The infinite loop of `dispatch_duration_with_userfn` -/
def foreverWithUserfn : Loop τ :=
  let check := checkPollDrainRound cfg (env.localTime k) l.pollDrain
  let l := { l with pollDrain := check.1 }
  let l := if cfg.inputPollFn && check.2 then l.act .inputPollFn else l
  let l := l.dispatchRound opt.waitNs opt (env.round k)
  if cfg.outputDrainFn && check.2 then l.act .outputDrainFn else l

/-- The infinite loop of `dispatch_duration_no_userfn` -/
def foreverNoUserfn : Loop τ := l.dispatchRound opt.waitNs opt (env.round k)

/-- The body of the while loop of `dispatch_duration_with_userfn` -/
def roundWithUserfn : Loop τ :=
  let check := checkPollDrainRound cfg (env.localTime k) l.pollDrain
  let l := { l with pollDrain := check.1 }
  let l := if cfg.inputPollFn && check.2 then l.act .inputPollFn else l
  let roundEvents := (env.round k).events
  let l := l.dispatchRound opt.waitNs opt (env.round k)
  let l := { l with events := l.events + BitVec.ofNat 64 roundEvents, rounds := l.rounds + 1 }
  let l := if cfg.outputDrainFn && check.2 then l.act .outputDrainFn else l
  let l :=
    if d.durationNoevRounds then
      { l with noevRounds := if roundEvents = 0 then l.noevRounds + 1 else 0 }
    else l
  if d.durationNs || d.durationNoevNs then
    let l := { l with timeNs := BitVec.ofNat 64 (env.clock (k+1)) }
    if d.durationNoevNs && decide (0 < roundEvents) then
      { l with noevStopNs := l.timeNs + d.noEventsNs }
    else l
  else l

/-- The body of the while loop of `dispatch_duration_no_userfn` -/
def roundNoUserfn : Loop τ :=
  let roundEvents := (env.round k).events
  let l := l.dispatchRound opt.waitNs opt (env.round k)
  let l := { l with events := l.events + BitVec.ofNat 64 roundEvents, rounds := l.rounds + 1 }
  let l :=
    if d.durationNoevRounds then
      { l with noevRounds := if roundEvents = 0 then l.noevRounds + 1 else 0 }
    else l
  if d.durationNs || d.durationNoevNs then
    let l := { l with timeNs := BitVec.ofNat 64 (env.clock (k+1)) }
    if d.durationNoevNs && decide (0 < roundEvents) then
      { l with noevStopNs := l.timeNs + d.noEventsNs }
    else l
  else l

end Rounds

section Dispatch
variable (cfg : Config τ) (d : Duration) (opt : Opt) (env : Env τ)

def withUserfn : Nat → Loop τ → Loop τ :=
  if d.forever then foreverWithUserfn cfg opt env else roundWithUserfn cfg d opt env

def noUserfn : Nat → Loop τ → Loop τ :=
  if d.forever then foreverNoUserfn opt env else roundNoUserfn d opt env

/-- `dispatch_duration_with_userfn`: the number of rounds and the variables at its end; it does not
end within `fuel` tests of its condition where there are none. -/
def dispatchDurationWithUserfn (fuel : Nat) (l : Loop τ) : Option (Nat × Loop τ) :=
  whileLoop (·.keepsOn d) (withUserfn cfg d opt env) fuel 0 (l.readTime d env)

/-- `dispatch_duration_no_userfn` -/
def dispatchDurationNoUserfn (fuel : Nat) (l : Loop τ) : Option (Nat × Loop τ) :=
  whileLoop (·.keepsOn d) (noUserfn d opt env) fuel 0 (l.readTime d env)

def doInputPoll : Bool := cfg.inputPollFn && !opt.skipInputPoll

def doOutputDrain : Bool := cfg.outputDrainFn && !opt.skipOutputDrain

/-- The body of the loop that is used -/
def roundBody : Nat → Loop τ → Loop τ :=
  if doInputPoll cfg opt || doOutputDrain cfg opt then withUserfn cfg d opt env
  else noUserfn d opt env

/-- The variables of the loop that empties the scheduler -/
structure Drain where
  events : BitVec 64
  rounds : BitVec 64 := 0
  localEventCnt : BitVec 64
  acts : List Act
  deriving DecidableEq, Repr

def Drain.round (a : Drain) (r : Round) : Drain where
  events := a.events + BitVec.ofNat 64 r.events
  rounds := a.rounds + 1
  localEventCnt := a.localEventCnt + BitVec.ofNat 64 r.localEvents
  acts := a.acts ++ [.dispatchRound 0 opt.burstSize]

def drainLoop : List Round → Drain → Drain
  | [], a => a.round opt { events := 0 }
  | r :: rs, a => if 0 < r.events then drainLoop rs (a.round opt r) else a.round opt r

/-- `locm` of the core, as far as a call leaves it to the next one -/
structure Locm (τ : Type) where
  isSchedPaused : Bool
  pollDrain : PollDrain τ

/-- What a call returns; where it fails, `results` is untouched. -/
structure Outcome (τ : Type) where
  status : Status
  results : Option Results
  locm : Locm τ
  acts : List Act

/-- `dispatch_duration` after its loop -/
def finish (l : Loop τ) : Outcome τ :=
  let results := l.results d
  if opt.schedPause then
    let a := drainLoop opt env.drain
      { events := l.events, localEventCnt := l.localEventCnt, acts := l.acts ++ [.odpSchedulePause] }
    { status := .ok
      results := some { results with
        rounds := results.rounds + a.rounds
        events := a.events + a.localEventCnt }
      locm := ⟨true,l.pollDrain⟩
      acts := a.acts }
  else
    { status := .ok
      results := some { results with events := results.events + l.localEventCnt }
      locm := ⟨false,l.pollDrain⟩
      acts := l.acts }

/-- What a dispatch loop starts with -/
def startLoop (locm : Locm τ) : Loop τ where
  pollDrain := locm.pollDrain
  acts := if locm.isSchedPaused then [.odpScheduleResume] else []

/-- `dispatch_duration` -/
def dispatchDuration (locm : Locm τ) (fuel : Nat) : Option (Outcome τ) :=
  if 3 ≤ cfg.emCheckLevel ∧ cfg.isEmCore = false then
    some { status := .notSupported, results := some {}, locm, acts := [] }
  else
    let ended :=
      if doInputPoll cfg opt || doOutputDrain cfg opt then
        dispatchDurationWithUserfn cfg d opt env fuel (startLoop locm)
      else dispatchDurationNoUserfn d opt env fuel (startLoop locm)
    ended.map fun r => finish d opt env r.2

end Dispatch

/-- A call of one of the functions -/
inductive Call where
  | emDispatchDuration (d : Duration)
  | emDispatchNs (ns : BitVec 64)
  | emDispatchEvents (events : BitVec 64)
  | emDispatchRounds (rounds : BitVec 64)
  deriving DecidableEq, Repr

def Call.duration : Call → Duration
  | .emDispatchDuration d => d
  | .emDispatchNs ns => { select := 2, ns }
  | .emDispatchEvents events => { select := 4, events }
  | .emDispatchRounds rounds => { select := 1, rounds }

/-- The checks of the options, which all functions make -/
def checkOpt (emCheckLevel : Nat) (opt : Opt) : Status :=
  if !opt.initCalled then .notInitialized
  else if 0 < emCheckLevel ∧ (opt.burstSize = 0 ∨ emSchedMultiMaxBurst < opt.burstSize) then .badArg
  else .ok

/-- The checks of `duration` in `em_dispatch_duration`; all flags are below 32. -/
def checkDuration (emCheckLevel : Nat) (d : Duration) : Status :=
  if emCheckLevel ≤ 1 then .ok
  else if 32 ≤ d.select then .badArg
  else if (d.durationRounds ∧ d.rounds = 0) ∨ (d.durationNs ∧ d.ns = 0) ∨
      (d.durationEvents ∧ d.events = 0) ∨ (d.durationNoevRounds ∧ d.noEventsRounds = 0) ∨
      (d.durationNoevNs ∧ d.noEventsNs = 0) then .badArg
  else .ok

/-- `em_dispatch_ns`, `em_dispatch_events` and `em_dispatch_rounds` check their own argument
first. -/
def Call.check (emCheckLevel : Nat) (opt : Opt) : Call → Status
  | .emDispatchDuration d =>
    if checkOpt emCheckLevel opt ≠ .ok then checkOpt emCheckLevel opt
    else checkDuration emCheckLevel d
  | .emDispatchNs ns => if ns = 0 then .badArg else checkOpt emCheckLevel opt
  | .emDispatchEvents events => if events = 0 then .badArg else checkOpt emCheckLevel opt
  | .emDispatchRounds rounds => if rounds = 0 then .badArg else checkOpt emCheckLevel opt

/-- The function is called; without options it takes the default ones. -/
def Call.run (cfg : Config τ) (env : Env τ) (locm : Locm τ) (fuel : Nat) (c : Call)
    (opt : Option Opt) : Option (Outcome τ) :=
  let opt := opt.getD {}
  if c.check cfg.emCheckLevel opt ≠ .ok then
    some { status := c.check cfg.emCheckLevel opt, results := none, locm, acts := [] }
  else dispatchDuration cfg c.duration opt env locm fuel

/-- The rounds that empty the scheduler, up to the first one without an event -/
def drained : List Round → List Round
  | [] => [{ events := 0 }]
  | r :: rs => if 0 < r.events then r :: drained rs else [r]

def total (f : Round → Nat) : List Round → Nat
  | [] => 0
  | r :: rs => f r + total f rs

theorem drainLoop_eq (opt : Opt) (rs : List Round) (a : Drain) : drainLoop opt rs a = {
    events := a.events + BitVec.ofNat 64 (total Round.events (drained rs))
    rounds := a.rounds + BitVec.ofNat 64 (drained rs).length
    localEventCnt := a.localEventCnt + BitVec.ofNat 64 (total Round.localEvents (drained rs))
    acts := a.acts ++ (drained rs).map fun _ => .dispatchRound 0 opt.burstSize } := by
  induction rs generalizing a with
  | nil => rfl
  | cons r rs ih =>
    by_cases hr : 0 < r.events
    · simp only [drainLoop, drained, if_pos hr, ih, Drain.round, total, List.length_cons, List.map_cons,
        BitVec.ofNat_add, BitVec.add_assoc, List.append_assoc, List.singleton_append]
      rw [BitVec.add_comm (BitVec.ofNat 64 (drained rs).length)]
      rfl
    · simp only [drainLoop, drained, if_neg hr]
      rfl

/-- The results of a call that has run its dispatch loop -/
theorem finish_results (d : Duration) (opt : Opt) (env : Env τ) (l : Loop τ) :
    (finish d opt env l).results = some {
      rounds := l.rounds + if opt.schedPause then BitVec.ofNat 64 (drained env.drain).length else 0#64
      ns := if d.readsTime then l.timeNs - l.startNs else 0
      events := l.events + l.localEventCnt + if opt.schedPause then
        BitVec.ofNat 64 (total Round.events (drained env.drain)) +
          BitVec.ofNat 64 (total Round.localEvents (drained env.drain)) else 0#64 } := by
  rw [finish]
  cases opt.schedPause with
  | true =>
    have hadd (a b c e : BitVec 64) : a + b + (c + e) = a + c + (b + e) := by ac_rfl
    simp only [if_true, drainLoop_eq, Loop.results, hadd]
    rw [show (0 : BitVec 64) = 0#64 from rfl, BitVec.zero_add]
  | false =>
    simp only [Bool.false_eq_true, if_false, Loop.results, BitVec.add_zero]

end EmOdp.Dispatch.Loops
