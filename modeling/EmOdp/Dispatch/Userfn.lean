import EmOdp.Dispatch.Duration

/-! The dispatch loops with and without user functions run the same rounds; when the user functions
are called. -/
namespace EmOdp.Dispatch.Loops
open Lib
variable {τ : Type} {cfg : Config τ} {d : Duration} {opt : Opt} {env : Env τ} {l l' : Loop τ}
  {locm : Locm τ} {k : Nat}

def Act.userfn : Act → Bool
  | .inputPollFn | .outputDrainFn => true
  | _ => false

/-- All but the calls of user functions and the state of their checks is the same. -/
structure SameLoop (l l' : Loop τ) : Prop where
  events : l.events = l'.events
  rounds : l.rounds = l'.rounds
  noevRounds : l.noevRounds = l'.noevRounds
  startNs : l.startNs = l'.startNs
  stopNs : l.stopNs = l'.stopNs
  noevStopNs : l.noevStopNs = l'.noevStopNs
  timeNs : l.timeNs = l'.timeNs
  localEventCnt : l.localEventCnt = l'.localEventCnt
  acts : l.acts.filter (!·.userfn) = l'.acts.filter (!·.userfn)

theorem SameLoop.keepsOn (h : SameLoop l l') : l.keepsOn d = l'.keepsOn d := by
  rw [Loop.keepsOn, Loop.keepsOn, h.events, h.rounds, h.noevRounds, h.stopNs, h.noevStopNs, h.timeNs,
    h.localEventCnt]

theorem SameLoop.results (h : SameLoop l l') : l.results d = l'.results d := by
  rw [Loop.results, Loop.results, h.events, h.rounds, h.startNs, h.timeNs]

/-- The check of round `k` -/
def check (cfg : Config τ) (env : Env τ) (k : Nat) (p : PollDrain τ) : PollDrain τ × Bool :=
  checkPollDrainRound cfg (env.localTime k) p

/-- What is done in a round of the loop with user functions -/
def actsWithUserfn (cfg : Config τ) (opt : Opt) (pollDrainRound : Bool) : List Act :=
  (if cfg.inputPollFn && pollDrainRound then [.inputPollFn] else []) ++
    .dispatchRound opt.waitNs opt.burstSize ::
      if cfg.outputDrainFn && pollDrainRound then [.outputDrainFn] else []

/-- The variables after a round, but for the user functions -/
def counted (d : Duration) (env : Env τ) (k : Nat) (l : Loop τ) : Loop τ :=
  { l with
    events := l.events + BitVec.ofNat 64 (env.round k).events
    rounds := l.rounds + 1
    noevRounds :=
      if d.durationNoevRounds then if (env.round k).events = 0 then l.noevRounds + 1 else 0
      else l.noevRounds
    timeNs := if d.readsTime then BitVec.ofNat 64 (env.clock (k+1)) else l.timeNs
    noevStopNs :=
      if d.durationNoevNs && decide (0 < (env.round k).events) then
        BitVec.ofNat 64 (env.clock (k+1)) + d.noEventsNs
      else l.noevStopNs
    localEventCnt := l.localEventCnt + BitVec.ofNat 64 (env.round k).localEvents }

theorem roundNoUserfn_eq : roundNoUserfn d opt env k l = { counted d env k l with
    acts := l.acts ++ [.dispatchRound opt.waitNs opt.burstSize] } := by
  rw [roundNoUserfn, counted, Duration.readsTime]
  cases d.durationNoevRounds <;> cases d.durationNs <;> cases d.durationNoevNs <;>
    cases decide (0 < (env.round k).events) <;> rfl

theorem roundWithUserfn_eq : roundWithUserfn cfg d opt env k l = { counted d env k l with
    pollDrain := (check cfg env k l.pollDrain).1
    acts := l.acts ++ actsWithUserfn cfg opt (check cfg env k l.pollDrain).2 } := by
  rw [roundWithUserfn, counted, Duration.readsTime, check, actsWithUserfn]
  generalize checkPollDrainRound cfg (env.localTime k) l.pollDrain = c
  cases cfg.inputPollFn && c.2 <;> cases cfg.outputDrainFn && c.2 <;>
    cases d.durationNoevRounds <;> cases d.durationNs <;> cases d.durationNoevNs <;>
    cases decide (0 < (env.round k).events) <;> simp [Loop.dispatchRound, Loop.act]

theorem foreverNoUserfn_eq : foreverNoUserfn opt env k l = { l with
    localEventCnt := l.localEventCnt + BitVec.ofNat 64 (env.round k).localEvents
    acts := l.acts ++ [.dispatchRound opt.waitNs opt.burstSize] } := rfl

theorem foreverWithUserfn_eq : foreverWithUserfn cfg opt env k l = { l with
    localEventCnt := l.localEventCnt + BitVec.ofNat 64 (env.round k).localEvents
    pollDrain := (check cfg env k l.pollDrain).1
    acts := l.acts ++ actsWithUserfn cfg opt (check cfg env k l.pollDrain).2 } := by
  rw [foreverWithUserfn, check, actsWithUserfn]
  generalize checkPollDrainRound cfg (env.localTime k) l.pollDrain = c
  cases cfg.inputPollFn && c.2 <;> cases cfg.outputDrainFn && c.2 <;>
    simp [Loop.dispatchRound, Loop.act]

theorem filter_actsWithUserfn (pollDrainRound : Bool) :
    (actsWithUserfn cfg opt pollDrainRound).filter (!·.userfn) =
      [.dispatchRound opt.waitNs opt.burstSize] := by
  rw [actsWithUserfn]
  cases cfg.inputPollFn && pollDrainRound <;> cases cfg.outputDrainFn && pollDrainRound <;> rfl

/-- A round adds the same to both loops. -/
theorem SameLoop.round (h : SameLoop l l') (k : Nat) :
    SameLoop (withUserfn cfg d opt env k l) (noUserfn d opt env k l') := by
  have hacts (c : Bool) : (l.acts ++ actsWithUserfn cfg opt c).filter (!·.userfn) =
      (l'.acts ++ [Act.dispatchRound opt.waitNs opt.burstSize]).filter (!·.userfn) := by
    rw [List.filter_append, List.filter_append, h.acts, filter_actsWithUserfn]
    rfl
  rw [withUserfn, noUserfn]
  cases d.forever with
  | true =>
    simp only [if_true, foreverWithUserfn_eq, foreverNoUserfn_eq]
    exact ⟨h.events,h.rounds,h.noevRounds,h.startNs,h.stopNs,h.noevStopNs,h.timeNs,
      congrArg (· + _) h.localEventCnt,hacts _⟩
  | false =>
    simp only [Bool.false_eq_true, if_false, roundWithUserfn_eq, roundNoUserfn_eq, counted]
    constructor
    · rw [h.events]
    · rw [h.rounds]
    · rw [h.noevRounds]
    · exact h.startNs
    · exact h.stopNs
    · rw [h.noevStopNs]
    · rw [h.timeNs]
    · rw [h.localEventCnt]
    · exact hacts _

theorem SameLoop.refl (l : Loop τ) : SameLoop l l := ⟨rfl,rfl,rfl,rfl,rfl,rfl,rfl,rfl,rfl⟩

/-- The rounds of both loops -/
theorem sameLoop_rounds (l : Loop τ) (k : Nat) :
    SameLoop (iterate (withUserfn cfg d opt env) l k) (iterate (noUserfn d opt env) l k) :=
  iterate_rel (SameLoop.refl l) (fun k _ _ h => h.round k) k

theorem iterates_noUserfn_iff (l : Loop τ) (k : Nat) :
    Iterates (·.keepsOn d) (withUserfn cfg d opt env) l k ↔
      Iterates (·.keepsOn d) (noUserfn d opt env) l k :=
  iterates_rel (SameLoop.refl l) (fun k _ _ h => h.round k) (fun _ _ h => h.keepsOn) k

/-- The checks that the rounds before round `k` leave to it -/
def checksBefore (cfg : Config τ) (env : Env τ) (p : PollDrain τ) : Nat → PollDrain τ
  | 0 => p
  | k+1 => (check cfg env k (checksBefore cfg env p k)).1

/-- Round `k` is a poll and drain round when every round makes the check. -/
def pollDrainRound (cfg : Config τ) (env : Env τ) (p : PollDrain τ) (k : Nat) : Bool :=
  (check cfg env k (checksBefore cfg env p k)).2

/-- The state that the loop of a call starts in -/
def start (d : Duration) (env : Env τ) (locm : Locm τ) : Loop τ := (startLoop locm).readTime d env

/-- Round `k` does it. -/
def DoneIn (body : Nat → Loop τ → Loop τ) (l : Loop τ) (k : Nat) (a : Act) : Prop :=
  ∃ added, (iterate body l (k+1)).acts = (iterate body l k).acts ++ added ∧ a ∈ added

theorem start_pollDrain : (start d env locm).pollDrain = locm.pollDrain := by
  rw [start, Loop.readTime]
  split <;> rfl

theorem withUserfn_pollDrain :
    (withUserfn cfg d opt env k l).pollDrain = (check cfg env k l.pollDrain).1 := by
  rw [withUserfn]
  cases d.forever with
  | true => rw [if_pos rfl, foreverWithUserfn_eq]
  | false => rw [if_neg Bool.false_ne_true, roundWithUserfn_eq]

theorem withUserfn_acts : (withUserfn cfg d opt env k l).acts =
    l.acts ++ actsWithUserfn cfg opt (check cfg env k l.pollDrain).2 := by
  rw [withUserfn]
  cases d.forever with
  | true => rw [if_pos rfl, foreverWithUserfn_eq]
  | false => rw [if_neg Bool.false_ne_true, roundWithUserfn_eq]

theorem noUserfn_acts : (noUserfn d opt env k l).acts =
    l.acts ++ [.dispatchRound opt.waitNs opt.burstSize] := by
  rw [noUserfn]
  cases d.forever with
  | true => rw [if_pos rfl, foreverNoUserfn_eq]
  | false => rw [if_neg Bool.false_ne_true, roundNoUserfn_eq]

theorem iterate_pollDrain (l : Loop τ) (k : Nat) :
    (iterate (withUserfn cfg d opt env) l k).pollDrain = checksBefore cfg env l.pollDrain k := by
  induction k with
  | zero => rfl
  | succ k ih => rw [iterate, withUserfn_pollDrain, ih, checksBefore]

theorem doneIn_withUserfn {a : Act} : DoneIn (withUserfn cfg d opt env) l k a ↔
    a ∈ actsWithUserfn cfg opt (pollDrainRound cfg env l.pollDrain k) := by
  rw [DoneIn, iterate, withUserfn_acts, iterate_pollDrain, pollDrainRound]
  constructor
  · rintro ⟨added,he,ha⟩
    rwa [List.append_cancel_left he]
  · exact fun ha => ⟨_,rfl,ha⟩

theorem doneIn_noUserfn {a : Act} : DoneIn (noUserfn d opt env) l k a ↔
    a = .dispatchRound opt.waitNs opt.burstSize := by
  rw [DoneIn, iterate, noUserfn_acts]
  constructor
  · rintro ⟨added,he,ha⟩
    rw [← List.append_cancel_left he] at ha
    exact List.mem_singleton.1 ha
  · rintro rfl
    exact ⟨_,rfl,List.mem_singleton_self _⟩

theorem inputPollFn_mem {pollDrainRound : Bool} :
    Act.inputPollFn ∈ actsWithUserfn cfg opt pollDrainRound ↔
      cfg.inputPollFn = true ∧ pollDrainRound = true := by
  rw [actsWithUserfn, ← Bool.and_eq_true]
  cases cfg.inputPollFn && pollDrainRound <;> cases cfg.outputDrainFn && pollDrainRound <;> simp

theorem outputDrainFn_mem {pollDrainRound : Bool} :
    Act.outputDrainFn ∈ actsWithUserfn cfg opt pollDrainRound ↔
      cfg.outputDrainFn = true ∧ pollDrainRound = true := by
  rw [actsWithUserfn, ← Bool.and_eq_true]
  cases cfg.inputPollFn && pollDrainRound <;> cases cfg.outputDrainFn && pollDrainRound <;> simp

theorem SameLoop.finish (h : SameLoop l l') :
    (finish d opt env l).results = (finish d opt env l').results := by
  rw [finish_results, finish_results, h.events, h.rounds, h.timeNs, h.startNs, h.localEventCnt]

/-- Both loops are left after the same rounds, with the same results. -/
theorem ended_eq (fuel : Nat) (l : Loop τ) :
    (dispatchDurationWithUserfn cfg d opt env fuel l).map
        (fun r => (r.1,(finish d opt env r.2).results)) =
      (dispatchDurationNoUserfn d opt env fuel l).map
        (fun r => (r.1,(finish d opt env r.2).results)) :=
  whileLoop_rel (SameLoop.refl _) (fun k _ _ h => h.round k) (fun _ _ h => h.keepsOn)
    (fun _ _ h => h.finish) 0

/-- Round `k` of the loop that is used is run. -/
def IsRun (cfg : Config τ) (d : Duration) (opt : Opt) (env : Env τ) (locm : Locm τ) (k : Nat) : Prop :=
  Iterates (·.keepsOn d) (roundBody cfg d opt env) (start d env locm) (k+1)

/-- The loops agree, and a user function is called in the poll and drain rounds if it is
configured and not skipped. -/
structure UserfnsAgree (cfg : Config τ) (d : Duration) (opt : Opt) (env : Env τ) (locm : Locm τ) :
    Prop where
  rounds : ∀ k, SameLoop (iterate (withUserfn cfg d opt env) (start d env locm) k)
    (iterate (noUserfn d opt env) (start d env locm) k)
  ended : ∀ fuel, (dispatchDurationWithUserfn cfg d opt env fuel (startLoop locm)).map
      (fun r => (r.1,(finish d opt env r.2).results)) =
    (dispatchDurationNoUserfn d opt env fuel (startLoop locm)).map
      (fun r => (r.1,(finish d opt env r.2).results))
  inputPollFn : ∀ k, IsRun cfg d opt env locm k →
    (DoneIn (roundBody cfg d opt env) (start d env locm) k .inputPollFn ↔
      cfg.inputPollFn = true ∧ opt.skipInputPoll = false ∧
        pollDrainRound cfg env locm.pollDrain k = true)
  outputDrainFn : ∀ k, IsRun cfg d opt env locm k →
    (DoneIn (roundBody cfg d opt env) (start d env locm) k .outputDrainFn ↔
      cfg.outputDrainFn = true ∧ opt.skipOutputDrain = false ∧
        pollDrainRound cfg env locm.pollDrain k = true)

/-- Where both functions are configured and one of them is skipped, no round of the loop without
user functions is a poll and drain round. -/
def SkipsApart (cfg : Config τ) (d : Duration) (opt : Opt) (env : Env τ) (locm : Locm τ) : Prop :=
  cfg.inputPollFn = true → cfg.outputDrainFn = true → opt.skipInputPoll ≠ opt.skipOutputDrain →
    ∀ k, Iterates (·.keepsOn d) (noUserfn d opt env) (start d env locm) (k+1) →
      pollDrainRound cfg env locm.pollDrain k = false

theorem isRun_iff : IsRun cfg d opt env locm k ↔
    Iterates (·.keepsOn d) (noUserfn d opt env) (start d env locm) (k+1) := by
  rw [IsRun, roundBody]
  split
  · exact iterates_noUserfn_iff _ _
  · exact .rfl

/-- When a user function is called: its own options do not matter where the other one makes EM use
the loop with user functions. -/
theorem doneIn_roundBody : (DoneIn (roundBody cfg d opt env) (start d env locm) k .inputPollFn ↔
      (doInputPoll cfg opt || doOutputDrain cfg opt) = true ∧ cfg.inputPollFn = true ∧
        pollDrainRound cfg env locm.pollDrain k = true) ∧
    (DoneIn (roundBody cfg d opt env) (start d env locm) k .outputDrainFn ↔
      (doInputPoll cfg opt || doOutputDrain cfg opt) = true ∧ cfg.outputDrainFn = true ∧
        pollDrainRound cfg env locm.pollDrain k = true) := by
  rw [roundBody]
  cases doInputPoll cfg opt || doOutputDrain cfg opt with
  | true =>
    simp only [if_true, true_and, doneIn_withUserfn, start_pollDrain]
    exact ⟨inputPollFn_mem,outputDrainFn_mem⟩
  | false =>
    simp only [Bool.false_eq_true, if_false, false_and, doneIn_noUserfn, iff_false]
    exact ⟨Act.noConfusion,Act.noConfusion⟩

/-- A function `f` is called as it should be unless it is skipped while the other one, `g`, is not. -/
private theorem called_iff : ∀ f g skipF skipG pollDrain : Bool,
    (((f && !skipF || g && !skipG) = true ∧ f = true ∧ pollDrain = true ↔
      f = true ∧ skipF = false ∧ pollDrain = true) ↔
    (f = true → g = true → skipF = true → skipG = false → pollDrain = false)) := by
  decide

/-- The function pointers are passed on without the skip options. -/
theorem userfns_agree_iff :
    UserfnsAgree cfg d opt env locm ↔ SkipsApart cfg d opt env locm := by
  have hin (k : Nat) := called_iff cfg.inputPollFn cfg.outputDrainFn opt.skipInputPoll
    opt.skipOutputDrain (pollDrainRound cfg env locm.pollDrain k)
  have hout (k : Nat) := called_iff cfg.outputDrainFn cfg.inputPollFn opt.skipOutputDrain
    opt.skipInputPoll (pollDrainRound cfg env locm.pollDrain k)
  simp only [Bool.or_comm (cfg.outputDrainFn && _)] at hout
  constructor
  · intro h hi ho hskip k hk
    have hpoll := h.inputPollFn k (isRun_iff.2 hk)
    have hdrain := h.outputDrainFn k (isRun_iff.2 hk)
    rw [doneIn_roundBody.1] at hpoll
    rw [doneIn_roundBody.2] at hdrain
    cases hs : opt.skipInputPoll with
    | true =>
      rw [hs] at hskip
      exact (hin k).1 hpoll hi ho hs (Bool.eq_false_iff.2 (Ne.symm hskip))
    | false =>
      rw [hs] at hskip
      exact (hout k).1 hdrain ho hi (eq_true_of_ne_false (Ne.symm hskip)) hs
  · intro h
    refine ⟨fun k => sameLoop_rounds _ k,fun fuel => ended_eq fuel _,fun k hk => ?_,fun k hk => ?_⟩
    · rw [doneIn_roundBody.1]
      refine (hin k).2 fun hi ho hs hs' => h hi ho ?_ k (isRun_iff.1 hk)
      rw [hs, hs']
      exact Ne.symm Bool.false_ne_true
    · rw [doneIn_roundBody.2]
      refine (hout k).2 fun ho hi hs hs' => h hi ho ?_ k (isRun_iff.1 hk)
      rw [hs, hs']
      exact Bool.false_ne_true

/-- Both user functions are configured and called in every round. -/
private def bothUserfns : Config Nat where
  emCheckLevel := 1
  isEmCore := true
  inputPollFn := true
  outputDrainFn := true
  pollDrainInterval := 1
  pollDrainPeriod := 0
  odpTimeDiff a b := a-b
  odpTimeLt a b := a < b

private def idle : Env Nat where
  round _ := { events := 0 }
  clock _ := 0
  localTime _ := 0
  drain := []
  drainNs := 0

/-- The input is polled although that is to be skipped. -/
theorem skipped_input_polled : ¬∀ (opt : Opt) (locm : Locm Nat),
    UserfnsAgree bothUserfns { select := 1, rounds := 1 } opt idle locm := by
  intro hall
  have hround := (hall { skipInputPoll := true } ⟨false,1,0⟩).inputPollFn 0 <| isRun_iff.2 fun j hj => by
    obtain rfl : j = 0 := by omega
    rfl
  rw [doneIn_roundBody.1] at hround
  have hcalled := hround.1 ⟨by decide,by decide,by decide⟩
  exact absurd hcalled.2.1 (by decide)

end EmOdp.Dispatch.Loops
