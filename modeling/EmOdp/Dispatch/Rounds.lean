import Mathlib.Algebra.BigOperators.Group.Finset.Basic
import EmOdp.Dispatch.Duration
import EmOdp.Lib.History

/-! `em_dispatch`: its rounds with and without user functions, what one round polls, and the idle
hooks that it calls. -/
namespace EmOdp.Dispatch.Rounds
open Lib
open Loops (PollDrain checkPollDrainRound)

/-- What `dispatch_schedule` and the steps after it meet in one round -/
inductive Sched where
  /-- There is no event; `locm->local_queues.empty`, or the events of the local queues. -/
  | nothing (localEmpty : Bool) (localEvents : Nat)
  /-- `is_invalid_queue` -/
  | invalidQueue
  /-- The events of the burst, and those of local queues that are dispatched after it -/
  | burst (num : Nat) (pos : 0 < num) (localEvents : Nat)

/-- The events that the round returns -/
def Sched.events : Sched → Nat
  | .burst num _ _ => num
  | _ => 0

def Sched.localEvents : Sched → Nat
  | .nothing false n | .burst _ _ n => n
  | _ => 0

/-- No event is found at all. -/
def Sched.empty : Sched → Bool
  | .nothing true _ => true
  | _ => false

/-- `IDLE_STATE_ACTIVE` and `IDLE_STATE_IDLE` -/
inductive IdleState where
  | active | idle
  deriving DecidableEq, Repr

inductive Act where
  | odpScheduleResume
  | odpSchedulePause
  | inputPollFn
  | outputDrainFn
  /-- `poll_unsched_ctrl_queue` -/
  | pollCtrl
  | idleHooksToIdle (toIdleDelayNs : BitVec 64)
  | idleHooksWhileIdle
  | idleHooksToActive
  | checkLocalQueues
  | freeInvalidEvents
  /-- `dispatch_events` or `atomic_group_dispatch` -/
  | dispatchEvents (num : Nat)
  deriving DecidableEq, Repr

structure Config (τ : Type) extends Loops.Config τ where
  pollCtrlInterval : BitVec 32
  /-- `locm->poll_ctrl_interval_time` -/
  pollCtrlPeriod : τ
  /-- `EM_IDLE_HOOKS_ENABLE` -/
  idleHooksEnable : Bool
  /-- `em_shm->opt.dispatch.sched_pause` -/
  schedPause : Bool

/-- What a core meets in its rounds, numbered from its `dispatch_init_local` on -/
structure Env (τ : Type) where
  sched : Nat → Sched
  /-- `odp_time_local` in `dispatch_poll_ctrl_queue` -/
  localTime : Nat → τ
  /-- `odp_time_local` in `check_poll_drain_round` before the round -/
  drainTime : Nat → τ
  /-- the result of `input_poll_fn` before the round -/
  rxEvents : Nat → Int
  toIdleDelayNs : Nat → BitVec 64

/-- `locm` of the core, and what it has done -/
structure Core (τ : Type) where
  dispatchCnt : BitVec 32
  dispatchLastRun : τ
  idleState : IdleState
  pollDrain : PollDrain τ
  isSchedPaused : Bool := false
  localEventCnt : BitVec 64 := 0
  /-- the rounds so far -/
  round : Nat := 0
  acts : List Act := []

variable {τ : Type}

namespace Core
variable (cfg : Config τ) (env : Env τ) (c : Core τ)

def act (a : Act) : Core τ := { c with acts := c.acts ++ [a] }

/-- `dispatch_poll_ctrl_queue` -/
def dispatchPollCtrlQueue : Core τ :=
  if 1 < cfg.pollCtrlInterval then
    let c := { c with dispatchCnt := c.dispatchCnt - 1 }
    if 0 < c.dispatchCnt then c
    else
      let c := { c with dispatchCnt := cfg.pollCtrlInterval }
      let now := env.localTime c.round
      let period := cfg.odpTimeDiff now c.dispatchLastRun
      if cfg.odpTimeLt period cfg.pollCtrlPeriod then c
      else act { c with dispatchLastRun := now } .pollCtrl
  else c.act .pollCtrl

/-- `to_idle` -/
def toIdle : Core τ :=
  if cfg.idleHooksEnable then
    match c.idleState with
    | .active => { c.act (.idleHooksToIdle (env.toIdleDelayNs c.round)) with idleState := .idle }
    | .idle => c.act .idleHooksWhileIdle
  else c

/-- `to_active` -/
def toActive : Core τ :=
  if cfg.idleHooksEnable then
    match c.idleState with
    | .active => c
    | .idle => { c.act .idleHooksToActive with idleState := .active }
  else c

/-- What `dispatch_round` does with the result of the scheduler -/
def handle : Sched → Core τ
  | .nothing true _ => c.toIdle cfg env
  | .nothing false localEvents =>
    { (c.toActive cfg).act .checkLocalQueues with
      localEventCnt := c.localEventCnt + BitVec.ofNat 64 localEvents }
  | .invalidQueue => c.act .freeInvalidEvents
  | .burst num _ localEvents =>
    { (c.toActive cfg).act (.dispatchEvents num) with
      localEventCnt := c.localEventCnt + BitVec.ofNat 64 localEvents }

/-- `dispatch_round`; it returns `(env.sched c.round).events`. -/
def dispatchRound : Core τ :=
  { (c.dispatchPollCtrlQueue cfg env).handle cfg env (env.sched c.round) with round := c.round + 1 }

/-- `n` rounds -/
def rounds : Nat → Core τ → Core τ
  | 0, c => c
  | n+1, c => (rounds n c).dispatchRound cfg env

end Core

/-- The variables of `dispatch_with_userfn` and `dispatch_no_userfn` -/
structure Loop (τ : Type) where
  core : Core τ
  i : BitVec 64 := 0
  events : BitVec 64 := 0
  rxEvents : Int := 0
  dispatchedEvents : Int := 0
  roundEvents : Nat := 0

section
variable (cfg : Config τ) (env : Env τ) (rounds : BitVec 64)

/-- `do_forever || i < rounds` -/
def Loop.more (l : Loop τ) : Bool := rounds == 0 || decide (l.i < rounds)

/-- The body of the inner loop of `dispatch_with_userfn` -/
def Loop.innerRound (l : Loop τ) : Loop τ :=
  let roundEvents := (env.sched l.core.round).events
  { l with
    core := l.core.dispatchRound cfg env
    roundEvents
    dispatchedEvents := l.dispatchedEvents + roundEvents
    i := l.i + 1 }

/-- The condition of the inner loop -/
def Loop.again (l : Loop τ) : Bool :=
  decide (l.dispatchedEvents < l.rxEvents) && decide (0 < l.roundEvents) && l.more rounds

/-- The body of the outer loop before its inner loop -/
def Loop.inputPoll (l : Loop τ) : Bool × Loop τ :=
  let check := checkPollDrainRound cfg.toConfig (env.drainTime l.core.round) l.core.pollDrain
  let l := { l with core := { l.core with pollDrain := check.1 }, dispatchedEvents := 0 }
  (check.2,
    if cfg.inputPollFn && check.2 then
      { l with core := l.core.act .inputPollFn, rxEvents := env.rxEvents l.core.round }
    else l)

/-- and after it -/
def Loop.outputDrain (doPollDrainRound : Bool) (l : Loop τ) : Loop τ :=
  let l := { l with events := l.events + BitVec.ofInt 64 l.dispatchedEvents }
  if cfg.outputDrainFn && doPollDrainRound then { l with core := l.core.act .outputDrainFn } else l

/-- `dispatch_with_userfn`, with at most `fuel` iterations of each loop -/
def dispatchWithUserfn : Nat → Loop τ → Option (Loop τ)
  | 0, _ => none
  | fuel+1, l =>
    if l.more rounds then
      let r := l.inputPoll cfg env
      (whileLoop (Loop.again rounds) (fun _ => Loop.innerRound cfg env) fuel 0
        (r.2.innerRound cfg env)).bind fun e => dispatchWithUserfn fuel (e.2.outputDrain cfg r.1)
    else some l

/-- `dispatch_no_userfn` -/
def dispatchNoUserfn (fuel : Nat) (l : Loop τ) : Option (Loop τ) :=
  (whileLoop (Loop.more rounds)
    (fun _ l =>
      { l with
        core := l.core.dispatchRound cfg env
        events := if rounds = 0 then l.events else l.events + BitVec.ofNat 64 (env.sched l.core.round).events
        i := l.i + 1 })
    fuel 0 l).map Prod.snd

/-- The loop of `em_dispatch` that empties the scheduler -/
def drainLoop : Nat → BitVec 64 × Core τ → Option (BitVec 64 × Core τ)
  | 0, _ => none
  | fuel+1, (events,c) =>
    let roundEvents := (env.sched c.round).events
    let r := (events + BitVec.ofNat 64 roundEvents,c.dispatchRound cfg env)
    if 0 < roundEvents then drainLoop fuel r else some r

/-- `em_dispatch` after its dispatch loop -/
def emDispatchEnd (fuel : Nat) (l : Loop τ) : Option (BitVec 64 × Core τ) :=
  let ended :=
    if cfg.schedPause then
      drainLoop cfg env fuel (l.events,{ l.core.act .odpSchedulePause with isSchedPaused := true })
    else some (l.events,l.core)
  ended.map fun r => (r.1 + r.2.localEventCnt,r.2)

/-- `em_dispatch` -/
def emDispatch (fuel : Nat) (c : Core τ) : Option (BitVec 64 × Core τ) :=
  if 3 ≤ cfg.emCheckLevel ∧ cfg.isEmCore = false then some (0,c)
  else
    let c := if c.isSchedPaused then { c.act .odpScheduleResume with isSchedPaused := false } else c
    let c := { c with localEventCnt := 0 }
    let ended :=
      if cfg.inputPollFn || cfg.outputDrainFn then dispatchWithUserfn cfg env rounds fuel { core := c }
      else dispatchNoUserfn cfg env rounds fuel { core := c }
    ended.bind (emDispatchEnd cfg env fuel)

end
/-- `dispatch_init_local`, which reads `odp_time_local` once -/
def Core.initLocal (cfg : Config τ) (now : τ) : Core τ where
  dispatchCnt := 1
  dispatchLastRun := cfg.odpTimeDiff now cfg.pollCtrlPeriod
  idleState := .active
  pollDrain := ⟨cfg.pollDrainInterval,now⟩

/-- All but the calls of `em_dispatch` around the rounds -/
def Act.inRound : Act → Bool
  | .odpScheduleResume | .odpSchedulePause | .inputPollFn | .outputDrainFn => false
  | _ => true

/-- The rounds of both cores have been the same. -/
structure Same (c d : Core τ) : Prop where
  dispatchCnt : c.dispatchCnt = d.dispatchCnt
  dispatchLastRun : c.dispatchLastRun = d.dispatchLastRun
  idleState : c.idleState = d.idleState
  round : c.round = d.round
  acts : c.acts.filter Act.inRound = d.acts.filter Act.inRound

section
variable {cfg : Config τ} {env : Env τ} {c d e : Core τ}

theorem Same.refl (c : Core τ) : Same c c := ⟨rfl,rfl,rfl,rfl,rfl⟩

theorem Same.trans (h : Same c d) (h' : Same d e) : Same c e :=
  ⟨h.dispatchCnt.trans h'.dispatchCnt,h.dispatchLastRun.trans h'.dispatchLastRun,
    h.idleState.trans h'.idleState,h.round.trans h'.round,h.acts.trans h'.acts⟩

theorem Same.act (h : Same c d) (a : Act) : Same (c.act a) (d.act a) where
  dispatchCnt := h.dispatchCnt
  dispatchLastRun := h.dispatchLastRun
  idleState := h.idleState
  round := h.round
  acts := by rw [Core.act, Core.act, List.filter_append, List.filter_append, h.acts]

/-- An action that is not part of a round -/
theorem same_act {a : Act} (ha : a.inRound = false) : Same (c.act a) c where
  dispatchCnt := rfl
  dispatchLastRun := rfl
  idleState := rfl
  round := rfl
  acts := by
    rw [Core.act, List.filter_append, List.filter_singleton, ha]
    exact List.append_nil _

variable (cfg env) in
theorem Same.dispatchPollCtrlQueue (h : Same c d) :
    Same (c.dispatchPollCtrlQueue cfg env) (d.dispatchPollCtrlQueue cfg env) := by
  rw [Core.dispatchPollCtrlQueue, Core.dispatchPollCtrlQueue]
  split
  · dsimp only
    rw [h.dispatchCnt, h.dispatchLastRun, h.round]
    split
    · exact ⟨rfl,rfl,h.idleState,rfl,h.acts⟩
    · split
      · exact ⟨rfl,rfl,h.idleState,rfl,h.acts⟩
      · refine Same.act ?_ _
        exact ⟨rfl,rfl,h.idleState,rfl,h.acts⟩
  · exact h.act _

theorem Same.toIdle (h : Same c d) : Same (c.toIdle cfg env) (d.toIdle cfg env) := by
  rw [Core.toIdle, Core.toIdle, h.idleState, h.round]
  split
  · split
    · have hact := h.act (.idleHooksToIdle (env.toIdleDelayNs d.round))
      exact ⟨hact.dispatchCnt,hact.dispatchLastRun,rfl,hact.round,hact.acts⟩
    · exact h.act _
  · exact h

variable (cfg) in
theorem Same.toActive (h : Same c d) : Same (c.toActive cfg) (d.toActive cfg) := by
  rw [Core.toActive, Core.toActive, h.idleState]
  split
  · split
    · exact h
    · have hact := h.act .idleHooksToActive
      exact ⟨hact.dispatchCnt,hact.dispatchLastRun,rfl,hact.round,hact.acts⟩
  · exact h

variable (cfg env) in
theorem Same.handle (h : Same c d) (r : Sched) : Same (c.handle cfg env r) (d.handle cfg env r) := by
  cases r with
  | nothing localEmpty localEvents =>
    cases localEmpty with
    | true => exact h.toIdle
    | false =>
      have hact := (h.toActive cfg).act .checkLocalQueues
      exact ⟨hact.dispatchCnt,hact.dispatchLastRun,hact.idleState,hact.round,hact.acts⟩
  | invalidQueue => exact h.act _
  | burst num pos localEvents =>
    have hact := (h.toActive cfg).act (.dispatchEvents num)
    exact ⟨hact.dispatchCnt,hact.dispatchLastRun,hact.idleState,hact.round,hact.acts⟩

theorem Same.dispatchRound (h : Same c d) : Same (c.dispatchRound cfg env) (d.dispatchRound cfg env) := by
  have hr := (h.dispatchPollCtrlQueue cfg env).handle cfg env (env.sched d.round)
  rw [Core.dispatchRound, h.round]
  exact ⟨hr.dispatchCnt,hr.dispatchLastRun,hr.idleState,rfl,hr.acts⟩

theorem Same.rounds (h : Same c d) (n : Nat) : Same (c.rounds cfg env n) (d.rounds cfg env n) := by
  induction n with
  | zero => exact h
  | succ n ih => exact ih.dispatchRound

theorem rounds_round (n : Nat) : (c.rounds cfg env n).round = c.round + n := by
  induction n with
  | zero => rfl
  | succ n ih =>
    rw [Core.rounds, Core.dispatchRound, ih]
    rfl

theorem rounds_add (m n : Nat) : (c.rounds cfg env m).rounds cfg env n = c.rounds cfg env (m+n) := by
  induction n with
  | zero => rfl
  | succ n ih => rw [Core.rounds, ih, ← Nat.add_assoc, Core.rounds]

end
/-- `core` has made the `t` rounds that follow `c`. -/
structure Ran (cfg : Config τ) (env : Env τ) (c : Core τ) (t : Nat) (core : Core τ) : Prop where
  same : Same core (c.rounds cfg env t)
  localEventCnt : core.localEventCnt =
    BitVec.ofNat 64 (∑ k ∈ Finset.range t, (env.sched (c.round+k)).localEvents)

/-- The events that these rounds return -/
def sumEvents (env : Env τ) (c : Core τ) (t : Nat) : Nat :=
  ∑ k ∈ Finset.range t, (env.sched (c.round+k)).events

section
variable {cfg : Config τ} {env : Env τ} {c core : Core τ} {rounds : BitVec 64} {t : Nat} {l : Loop τ}

theorem dispatchRound_localEventCnt : (c.dispatchRound cfg env).localEventCnt =
    c.localEventCnt + BitVec.ofNat 64 (env.sched c.round).localEvents := by
  have hpoll : (c.dispatchPollCtrlQueue cfg env).localEventCnt = c.localEventCnt := by
    rw [Core.dispatchPollCtrlQueue]
    split
    · dsimp only
      split
      · rfl
      · split <;> rfl
    · rfl
  have hidle (d : Core τ) : (d.toIdle cfg env).localEventCnt = d.localEventCnt := by
    rw [Core.toIdle]
    split
    · split <;> rfl
    · rfl
  rw [Core.dispatchRound]
  cases env.sched c.round with
  | nothing localEmpty localEvents =>
    cases localEmpty with
    | true => exact (hidle _).trans (hpoll.trans (BitVec.add_zero _).symm)
    | false => exact congrArg (· + BitVec.ofNat 64 localEvents) hpoll
  | invalidQueue => exact hpoll.trans (BitVec.add_zero _).symm
  | burst num pos localEvents => exact congrArg (· + BitVec.ofNat 64 localEvents) hpoll

theorem Ran.round_eq (h : Ran cfg env c t core) : core.round = c.round + t :=
  h.same.round.trans (rounds_round t)

theorem Ran.dispatchRound (h : Ran cfg env c t core) :
    Ran cfg env c (t+1) (core.dispatchRound cfg env) where
  same := h.same.dispatchRound
  localEventCnt := by
    rw [dispatchRound_localEventCnt, h.localEventCnt, h.round_eq, Finset.sum_range_succ, BitVec.ofNat_add]

/-- Between two rounds -/
theorem Ran.same_left {d : Core τ} (h : Ran cfg env c t core) (hd : Same d core)
    (hl : d.localEventCnt = core.localEventCnt) : Ran cfg env c t d :=
  ⟨hd.trans h.same,hl.trans h.localEventCnt⟩

/-- The variables after `t` of at most `rounds` rounds -/
structure Counts (cfg : Config τ) (env : Env τ) (rounds : BitVec 64) (c : Core τ) (t : Nat)
    (l : Loop τ) : Prop where
  ran : Ran cfg env c t l.core
  i : l.i.toNat = t
  le : t ≤ rounds.toNat

theorem Counts.step (h : Counts cfg env rounds c t l) (hlt : l.i < rounds) {l' : Loop τ}
    (hcore : l'.core = l.core.dispatchRound cfg env) (hi : l'.i = l.i + 1) :
    Counts cfg env rounds c (t+1) l' := by
  have hlt : t < rounds.toNat := h.i ▸ BitVec.lt_def.1 hlt
  refine ⟨hcore ▸ h.ran.dispatchRound,?_,hlt⟩
  have hbound := rounds.isLt
  rw [hi, BitVec.toNat_add, h.i]
  exact Nat.mod_eq_of_lt (by change t + 1 < _; omega)

theorem more_iff (hr : rounds ≠ 0) : l.more rounds = true ↔ l.i < rounds := by
  rw [Loop.more, Bool.or_eq_true, decide_eq_true_eq, beq_iff_eq, or_iff_right hr]

/-- The loop is over after exactly `rounds` rounds. -/
theorem Counts.ended (h : Counts cfg env rounds c t l) (hr : rounds ≠ 0) (hmore : l.more rounds = false) :
    t = rounds.toNat := by
  have hge : ¬l.i < rounds := fun hlt => Bool.false_ne_true (hmore.symm.trans ((more_iff hr).2 hlt))
  have hle := BitVec.le_def.1 (BitVec.not_lt.1 hge)
  have hle' := h.le
  rw [h.i] at hle
  omega

theorem innerRound_events (h : Counts cfg env rounds c t l)
    (he : l.events + BitVec.ofInt 64 l.dispatchedEvents = BitVec.ofNat 64 (sumEvents env c t)) :
    (l.innerRound cfg env).events + BitVec.ofInt 64 (l.innerRound cfg env).dispatchedEvents =
      BitVec.ofNat 64 (sumEvents env c (t+1)) := by
  rw [Loop.innerRound]
  dsimp only
  rw [h.ran.round_eq, BitVec.ofInt_add, BitVec.ofInt_natCast, ← BitVec.add_assoc, he, ← BitVec.ofNat_add,
    sumEvents, sumEvents, Finset.sum_range_succ]

/-- In the inner loop, which began after `t` rounds -/
def Between (cfg : Config τ) (env : Env τ) (rounds : BitVec 64) (c : Core τ) (t : Nat) (l : Loop τ) :
    Prop :=
  ∃ s, t < s ∧ Counts cfg env rounds c s l ∧
    l.events + BitVec.ofInt 64 l.dispatchedEvents = BitVec.ofNat 64 (sumEvents env c s)

/-- The outer loop with user functions ends after exactly `rounds` rounds. -/
theorem dispatchWithUserfn_ends (hr : rounds ≠ 0) {fuel : Nat} (h : Counts cfg env rounds c t l)
    (he : l.events = BitVec.ofNat 64 (sumEvents env c t)) (hfuel : rounds.toNat - t < fuel) :
    ∃ l', dispatchWithUserfn cfg env rounds fuel l = some l' ∧
      Counts cfg env rounds c rounds.toNat l' ∧
      l'.events = BitVec.ofNat 64 (sumEvents env c rounds.toNat) := by
  induction fuel generalizing l t with
  | zero => exact absurd hfuel (Nat.not_lt_zero _)
  | succ fuel ih =>
    rw [dispatchWithUserfn]
    cases hmore : l.more rounds with
    | false =>
      obtain rfl := h.ended hr hmore
      exact ⟨l,rfl,h,he⟩
    | true =>
      have hlt := (more_iff hr).1 hmore
      have hpoll : Counts cfg env rounds c t (l.inputPoll cfg env).2 ∧
          (l.inputPoll cfg env).2.events + BitVec.ofInt 64 (l.inputPoll cfg env).2.dispatchedEvents =
            BitVec.ofNat 64 (sumEvents env c t) ∧ (l.inputPoll cfg env).2.i = l.i := by
        rw [Loop.inputPoll]
        dsimp only
        split
        · refine ⟨⟨h.ran.same_left ?_ rfl,h.i,h.le⟩,(BitVec.add_zero _).trans he,rfl⟩
          have hact : Same (l.core.act .inputPollFn) l.core := same_act rfl
          exact ⟨rfl,rfl,rfl,rfl,hact.acts⟩
        · exact ⟨⟨h.ran.same_left ⟨rfl,rfl,rfl,rfl,rfl⟩ rfl,h.i,h.le⟩,(BitVec.add_zero _).trans he,rfl⟩
      obtain ⟨hp,hpe,hpi⟩ := hpoll
      have hstep : Counts cfg env rounds c (t+1) ((l.inputPoll cfg env).2.innerRound cfg env) :=
        hp.step (by rw [hpi]; exact hlt) rfl rfl
      -- the inner loop makes at least one round, and no more than are left
      have hinner : ∃ n l', whileLoop (Loop.again rounds) (fun _ => Loop.innerRound cfg env) fuel 0
          ((l.inputPoll cfg env).2.innerRound cfg env) = some (n,l') ∧ Between cfg env rounds c t l' ∧
            l'.again rounds = false := by
        refine whileLoop_ends (v := fun l => rounds.toNat - l.i.toNat) (fun k l hI hc => ?_)
          ⟨t+1,Nat.lt_succ_self t,hstep,innerRound_events hp hpe⟩ ?_
        · obtain ⟨s,hts,hs,hse⟩ := hI
          have hlt := (more_iff hr).1 (Bool.and_eq_true_iff.1 hc).2
          have hnext : Counts cfg env rounds c (s+1) (l.innerRound cfg env) := hs.step hlt rfl rfl
          refine ⟨⟨s+1,Nat.lt_succ_of_lt hts,hnext,innerRound_events hs hse⟩,?_⟩
          have hlt := BitVec.lt_def.1 hlt
          have hi := hnext.i
          have hi' := hs.i
          omega
        · have hi := hstep.i
          have hle := hstep.le
          omega
      obtain ⟨n,l',hl',⟨s,hts,hs,hse⟩,-⟩ := hinner
      dsimp only
      rw [if_pos rfl, hl', Option.bind_some]
      refine ih (t := s) ?_ ?_ (by have hle := hs.le; omega)
      · rw [Loop.outputDrain]
        dsimp only
        split
        · exact ⟨hs.ran.same_left (same_act rfl) rfl,hs.i,hs.le⟩
        · exact ⟨hs.ran,hs.i,hs.le⟩
      · rw [Loop.outputDrain]
        dsimp only
        split <;> exact hse

/-- So does the loop without user functions. -/
theorem dispatchNoUserfn_ends (hr : rounds ≠ 0) {fuel : Nat} (h : Counts cfg env rounds c t l)
    (he : l.events = BitVec.ofNat 64 (sumEvents env c t)) (hfuel : rounds.toNat - t < fuel) :
    ∃ l', dispatchNoUserfn cfg env rounds fuel l = some l' ∧ Counts cfg env rounds c rounds.toNat l' ∧
      l'.events = BitVec.ofNat 64 (sumEvents env c rounds.toNat) := by
  rw [dispatchNoUserfn]
  generalize hbody : (fun (_ : Nat) (l : Loop τ) =>
    { l with
      core := l.core.dispatchRound cfg env
      events := if rounds = 0 then l.events else l.events + BitVec.ofNat 64 (env.sched l.core.round).events
      i := l.i + 1 }) = body
  have hends : ∃ n l', whileLoop (Loop.more rounds) body fuel 0 l = some (n,l') ∧
      (∃ s, Counts cfg env rounds c s l' ∧ l'.events = BitVec.ofNat 64 (sumEvents env c s)) ∧
        l'.more rounds = false := by
    refine whileLoop_ends (v := fun l => rounds.toNat - l.i.toNat) (fun k l hI hc => ?_) ⟨t,h,he⟩ ?_
    · obtain ⟨s,hs,hse⟩ := hI
      have hlt := (more_iff hr).1 hc
      have hnext : Counts cfg env rounds c (s+1) (body k l) := hs.step hlt (by rw [← hbody]) (by rw [← hbody])
      refine ⟨⟨s+1,hnext,?_⟩,?_⟩
      · rw [← hbody]
        dsimp only
        rw [if_neg hr, hse, hs.ran.round_eq, ← BitVec.ofNat_add, sumEvents, sumEvents,
          Finset.sum_range_succ]
      · have hlt := BitVec.lt_def.1 hlt
        have hi := hnext.i
        have hi' := hs.i
        omega
    · rw [h.i]
      exact hfuel
  obtain ⟨n,l',hl',⟨s,hs,hse⟩,hmore⟩ := hends
  obtain rfl := hs.ended hr hmore
  exact ⟨l',by rw [hl']; rfl,hs,hse⟩

/-- The scheduler is emptied: `extra` rounds with events are followed by one without. -/
theorem drainLoop_ends {extra fuel : Nat} {events : BitVec 64} (h : Ran cfg env c t core)
    (he : events = BitVec.ofNat 64 (sumEvents env c t)) (hfuel : extra < fuel)
    (hbusy : ∀ k < extra, 0 < (env.sched (c.round+t+k)).events)
    (hlast : (env.sched (c.round+t+extra)).events = 0) :
    ∃ core', drainLoop cfg env fuel (events,core) =
        some (BitVec.ofNat 64 (sumEvents env c (t+extra+1)),core') ∧
      Ran cfg env c (t+extra+1) core' := by
  have hsum (t : Nat) : BitVec.ofNat 64 (sumEvents env c t) + BitVec.ofNat 64 (env.sched (c.round+t)).events =
      BitVec.ofNat 64 (sumEvents env c (t+1)) := by
    rw [← BitVec.ofNat_add, sumEvents, sumEvents, Finset.sum_range_succ]
  induction extra generalizing t fuel events core with
  | zero =>
    obtain ⟨fuel,rfl⟩ := Nat.exists_eq_succ_of_ne_zero (Nat.ne_of_gt hfuel)
    refine ⟨_,?_,h.dispatchRound⟩
    rw [Nat.add_zero] at hlast
    rw [drainLoop, h.round_eq, if_neg (Nat.not_lt.2 (Nat.le_of_eq hlast)), he, hsum]
  | succ extra ih =>
    obtain ⟨fuel,rfl⟩ := Nat.exists_eq_succ_of_ne_zero (Nat.ne_zero_of_lt hfuel)
    have hnext := ih h.dispatchRound rfl (Nat.lt_of_succ_lt_succ hfuel)
      (fun k hk => by
        have hb := hbusy (k+1) (Nat.succ_lt_succ hk)
        rwa [show c.round+t+(k+1) = c.round+(t+1)+k by omega] at hb)
      (by rwa [show c.round+t+(extra+1) = c.round+(t+1)+extra by omega] at hlast)
    obtain ⟨core',hc,hran⟩ := hnext
    rw [show t+1+extra+1 = t+(extra+1)+1 by omega] at hc hran
    have hfirst : 0 < (env.sched (c.round+t)).events := hbusy 0 (Nat.succ_pos _)
    refine ⟨core',?_,hran⟩
    rw [drainLoop, h.round_eq, if_pos hfirst, he, hsum]
    exact hc

/-- The rounds of an `em_dispatch`: `extra` are made to empty the scheduler. -/
structure Drains (cfg : Config τ) (env : Env τ) (c : Core τ) (rounds : BitVec 64) (extra : Nat) : Prop where
  none : cfg.schedPause = false → extra = 0
  some : cfg.schedPause = true → ∃ m, extra = m+1 ∧
    (∀ k < m, 0 < (env.sched (c.round+rounds.toNat+k)).events) ∧
    (env.sched (c.round+rounds.toNat+m)).events = 0

/-- With and without user functions a call makes the requested number of rounds, and those that it
takes to empty the scheduler. It returns the events of all these rounds. -/
theorem emDispatch_exact (hcore : ¬(3 ≤ cfg.emCheckLevel ∧ cfg.isEmCore = false)) (hr : rounds ≠ 0)
    {extra fuel : Nat} (hx : Drains cfg env c rounds extra) (hfuel : rounds.toNat + extra < fuel) :
    ∃ c', emDispatch cfg env rounds fuel c = some (BitVec.ofNat 64
        (∑ k ∈ Finset.range (rounds.toNat + extra),
          ((env.sched (c.round+k)).events + (env.sched (c.round+k)).localEvents)),c') ∧
      Same c' (c.rounds cfg env (rounds.toNat + extra)) := by
  rw [emDispatch, if_neg hcore]
  generalize hd : (if c.isSchedPaused then { c.act .odpScheduleResume with isSchedPaused := false } else c) = d
  have hsame : Same d c := by
    rw [← hd]
    split
    · have hact : Same (c.act .odpScheduleResume) c := same_act rfl
      exact ⟨rfl,rfl,rfl,rfl,hact.acts⟩
    · exact .refl c
  have hstart : Counts cfg env rounds c 0 { core := { d with localEventCnt := 0 } } :=
    ⟨⟨⟨hsame.dispatchCnt,hsame.dispatchLastRun,hsame.idleState,hsame.round,hsame.acts⟩,rfl⟩,rfl,
      Nat.zero_le _⟩
  have hloop : ∃ l, (if cfg.inputPollFn || cfg.outputDrainFn then
        dispatchWithUserfn cfg env rounds fuel { core := { d with localEventCnt := 0 } }
      else dispatchNoUserfn cfg env rounds fuel { core := { d with localEventCnt := 0 } }) = some l ∧
      Counts cfg env rounds c rounds.toNat l ∧
      l.events = BitVec.ofNat 64 (sumEvents env c rounds.toNat) := by
    split
    · exact dispatchWithUserfn_ends hr hstart rfl (by omega)
    · exact dispatchNoUserfn_ends hr hstart rfl (by omega)
  obtain ⟨l,hl,hcounts,hevents⟩ := hloop
  dsimp only
  rw [hl, Option.bind_some, emDispatchEnd]
  have hend : ∃ core, (if cfg.schedPause then
        drainLoop cfg env fuel (l.events,{ l.core.act .odpSchedulePause with isSchedPaused := true })
      else some (l.events,l.core)) =
        some (BitVec.ofNat 64 (sumEvents env c (rounds.toNat + extra)),core) ∧
      Ran cfg env c (rounds.toNat + extra) core := by
    cases hpause : cfg.schedPause with
    | false =>
      obtain rfl := hx.none hpause
      refine ⟨l.core,?_,hcounts.ran⟩
      rw [if_neg Bool.false_ne_true, hevents]
      rfl
    | true =>
      obtain ⟨m,rfl,hbusy,hlast⟩ := hx.some hpause
      refine drainLoop_ends (hcounts.ran.same_left ?_ rfl) hevents (by omega) hbusy hlast
      have hact : Same (l.core.act .odpSchedulePause) l.core := same_act rfl
      exact ⟨rfl,rfl,rfl,rfl,hact.acts⟩
  obtain ⟨core,hcore,hran⟩ := hend
  dsimp only
  rw [hcore]
  refine ⟨core,?_,hran.same⟩
  rw [Option.map_some, hran.localEventCnt, ← BitVec.ofNat_add, sumEvents, ← Finset.sum_add_distrib]

end

private def oneBurst : Env Nat where
  sched k := if k = 0 then .burst 3 (Nat.succ_pos 2) 1 else .nothing true 0
  localTime k := k
  drainTime k := k
  rxEvents _ := 8
  toIdleDelayNs _ := 0

private def polling : Config Nat where
  emCheckLevel := 3
  isEmCore := true
  inputPollFn := true
  outputDrainFn := false
  pollDrainInterval := 1
  pollDrainPeriod := 0
  odpTimeDiff := (· - ·)
  odpTimeLt a b := decide (a < b)
  pollCtrlInterval := 1
  pollCtrlPeriod := 0
  idleHooksEnable := true
  schedPause := true

theorem emDispatch_exact_polling : ∃ c', emDispatch polling oneBurst 2 4 (.initLocal polling 0) =
    some (4,c') ∧ c'.round = 3 := by
  have hcore : ¬(3 ≤ polling.emCheckLevel ∧ polling.isEmCore = false) := by decide
  have hdrains : Drains polling oneBurst (.initLocal polling 0) 2 1 :=
    ⟨fun h => (by cases h),fun _ => ⟨0,rfl,fun k hk => absurd hk (Nat.not_lt_zero k),rfl⟩⟩
  obtain ⟨c',hc,hsame⟩ := emDispatch_exact hcore (by decide) hdrains
    (show (2 : BitVec 64).toNat + 1 < 4 by decide)
  exact ⟨c',hc,hsame.round⟩

end EmOdp.Dispatch.Rounds
