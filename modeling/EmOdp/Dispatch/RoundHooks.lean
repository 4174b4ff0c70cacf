import EmOdp.Dispatch.Rounds

/-! What the rounds of a core announce by its idle hooks, and when they poll the control queues. -/
namespace EmOdp.Dispatch.Rounds
open Lib
variable {τ : Type}

/-- The calls of the hooks that announce an idle or an active core -/
def idleCalls (acts : List Act) : Nat := acts.countP fun a => a matches .idleHooksToIdle _
def activeCalls (acts : List Act) : Nat := acts.countP fun a => a matches .idleHooksToActive
def whileIdleCalls (acts : List Act) : Nat := acts.countP fun a => a matches .idleHooksWhileIdle

/-- A core is announced as idle or as active in turn; events are dispatched on an active core. -/
def Allowed (acts : List Act) : Act → Prop
  | .idleHooksToIdle _ => idleCalls acts = activeCalls acts
  | .idleHooksWhileIdle | .idleHooksToActive => idleCalls acts = activeCalls acts + 1
  | .checkLocalQueues | .dispatchEvents _ => idleCalls acts = activeCalls acts
  | _ => True

/-- What has been announced so far goes with `locm->idle_state`. -/
structure Hooked (cfg : Config τ) (c : Core τ) : Prop where
  allowed : Throughout Allowed c.acts
  active : c.idleState = .active → idleCalls c.acts = activeCalls c.acts
  idle : c.idleState = .idle → idleCalls c.acts = activeCalls c.acts + 1
  disabled : cfg.idleHooksEnable = false → c.idleState = .active

/-- The rounds in which a hook has been told that the core is idle -/
def announced (acts : List Act) : Nat := idleCalls acts + whileIdleCalls acts

section
variable {cfg : Config τ} {env : Env τ} {c : Core τ}

/-- An action that announces nothing -/
theorem Hooked.act (h : Hooked cfg c) {a : Act} (ha : Allowed c.acts a)
    (hi : idleCalls (c.acts ++ [a]) = idleCalls c.acts) (hact : activeCalls (c.acts ++ [a]) = activeCalls c.acts) :
    Hooked cfg (c.act a) where
  allowed := h.allowed.snoc ha
  active hs := hi.trans ((h.active hs).trans hact.symm)
  idle hs := hi.trans ((h.idle hs).trans (congrArg (· + 1) hact.symm))
  disabled := h.disabled

variable (env) in
theorem Hooked.dispatchPollCtrlQueue (h : Hooked cfg c) : Hooked cfg (c.dispatchPollCtrlQueue cfg env) := by
  have hact (d : Core τ) (hd : Hooked cfg d) : Hooked cfg (d.act .pollCtrl) :=
    hd.act trivial (by simp [idleCalls]) (by simp [activeCalls])
  rw [Core.dispatchPollCtrlQueue]
  split
  · dsimp only
    split
    · exact ⟨h.allowed,h.active,h.idle,h.disabled⟩
    · split
      · exact ⟨h.allowed,h.active,h.idle,h.disabled⟩
      · exact hact _ ⟨h.allowed,h.active,h.idle,h.disabled⟩
  · exact hact c h

theorem Hooked.toIdle (h : Hooked cfg c) : Hooked cfg (c.toIdle cfg env) := by
  rw [Core.toIdle]
  split
  · rename_i hen
    split
    · rename_i hs
      refine ⟨h.allowed.snoc (h.active hs),fun hc => (by cases hc),fun _ => ?_,fun hc => ?_⟩
      · have hbal := h.active hs
        simp only [Core.act, idleCalls, activeCalls, List.countP_append, List.countP_singleton] at hbal ⊢
        simpa using hbal
      · cases hc.symm.trans hen
    · rename_i hs
      exact h.act (h.idle hs) (by simp [idleCalls]) (by simp [activeCalls])
  · exact h

theorem Hooked.toActive (h : Hooked cfg c) : Hooked cfg (c.toActive cfg) ∧ (c.toActive cfg).idleState = .active := by
  rw [Core.toActive]
  split
  · rename_i hen
    split
    · exact ⟨h,‹_›⟩
    · rename_i hs
      refine ⟨⟨h.allowed.snoc (h.idle hs),fun _ => ?_,fun hc => (by cases hc),fun hc => ?_⟩,rfl⟩
      · have hbal := h.idle hs
        simp only [Core.act, idleCalls, activeCalls, List.countP_append, List.countP_singleton] at hbal ⊢
        simpa using hbal
      · cases hc.symm.trans hen
  · exact ⟨h,h.disabled (Bool.eq_false_iff.2 ‹¬cfg.idleHooksEnable = true›)⟩

variable (env) in
theorem Hooked.handle (h : Hooked cfg c) (r : Sched) : Hooked cfg (c.handle cfg env r) := by
  obtain ⟨ha,hs⟩ := h.toActive
  cases r with
  | nothing localEmpty localEvents =>
    cases localEmpty with
    | true => exact h.toIdle
    | false =>
      have hact := ha.act (a := .checkLocalQueues) (ha.active hs) (by simp [idleCalls]) (by simp [activeCalls])
      exact ⟨hact.allowed,hact.active,hact.idle,hact.disabled⟩
  | invalidQueue => exact h.act trivial (by simp [idleCalls]) (by simp [activeCalls])
  | burst num pos localEvents =>
    have hact := ha.act (a := .dispatchEvents num) (ha.active hs) (by simp [idleCalls]) (by simp [activeCalls])
    exact ⟨hact.allowed,hact.active,hact.idle,hact.disabled⟩

theorem Hooked.dispatchRound (h : Hooked cfg c) : Hooked cfg (c.dispatchRound cfg env) := by
  have hr := (h.dispatchPollCtrlQueue env).handle env (env.sched c.round)
  exact ⟨hr.allowed,hr.active,hr.idle,hr.disabled⟩

theorem announced_dispatchRound (hen : cfg.idleHooksEnable = true) :
    announced (c.dispatchRound cfg env).acts =
      announced c.acts + if (env.sched c.round).empty then 1 else 0 := by
  have hadd (d : Core τ) {a : Act} (hi : idleCalls [a] = 0) (hw : whileIdleCalls [a] = 0) :
      announced (d.act a).acts = announced d.acts := by
    simp only [announced, Core.act, idleCalls, whileIdleCalls, List.countP_append] at hi hw ⊢
    omega
  have hpoll : announced (c.dispatchPollCtrlQueue cfg env).acts = announced c.acts := by
    rw [Core.dispatchPollCtrlQueue]
    split
    · dsimp only
      split
      · rfl
      · split
        · rfl
        · exact hadd _ rfl rfl
    · exact hadd _ rfl rfl
  have hactive (d : Core τ) : announced (d.toActive cfg).acts = announced d.acts := by
    rw [Core.toActive, if_pos hen]
    split
    · rfl
    · exact hadd _ rfl rfl
  have hidle (d : Core τ) : announced (d.toIdle cfg env).acts = announced d.acts + 1 := by
    rw [Core.toIdle, if_pos hen]
    split
    · simp only [announced, Core.act, idleCalls, whileIdleCalls, List.countP_append, List.countP_singleton]
      simp only [if_true, Bool.false_eq_true, if_false]
      omega
    · simp only [announced, Core.act, idleCalls, whileIdleCalls, List.countP_append, List.countP_singleton]
      simp only [if_true, Bool.false_eq_true, if_false]
      omega
  rw [Core.dispatchRound]
  cases env.sched c.round with
  | nothing localEmpty localEvents =>
    cases localEmpty with
    | true => exact (hidle _).trans (congrArg (· + 1) hpoll)
    | false => exact (hadd _ rfl rfl).trans ((hactive _).trans hpoll)
  | invalidQueue => exact (hadd _ rfl rfl).trans hpoll
  | burst num pos localEvents => exact (hadd _ rfl rfl).trans ((hactive _).trans hpoll)

/-- In the rounds of a core the idle hooks announce it as idle and as active in turn, all events are
dispatched while it is announced as active, and each round that finds no event tells a hook. -/
theorem idle_hooks (cfg : Config τ) (env : Env τ) (now : τ) (n : Nat) :
    Throughout Allowed ((Core.initLocal cfg now).rounds cfg env n).acts ∧
      (cfg.idleHooksEnable = true → announced ((Core.initLocal cfg now).rounds cfg env n).acts =
        ∑ k ∈ Finset.range n, if (env.sched k).empty then 1 else 0) := by
  constructor
  · have hooked : Hooked cfg ((Core.initLocal cfg now).rounds cfg env n) := by
      induction n with
      | zero => exact ⟨.nil,fun _ => rfl,fun hc => (by cases hc),fun _ => rfl⟩
      | succ n ih => exact ih.dispatchRound
    exact hooked.allowed
  · intro hen
    induction n with
    | zero => rfl
    | succ n ih =>
      have hround : ((Core.initLocal cfg now).rounds cfg env n).round = n := by
        rw [rounds_round]
        exact Nat.zero_add n
      rw [Core.rounds, announced_dispatchRound hen, ih, hround, Finset.sum_range_succ]

end

/-- The control queues are due for a poll in round `k` if the last poll was at time `last`: in every
`pollCtrlInterval`-th round, when the period has passed. -/
def due (cfg : Config τ) (env : Env τ) (last : τ) (k : Nat) : Bool :=
  decide (k % cfg.pollCtrlInterval.toNat = 0) &&
    !cfg.odpTimeLt (cfg.odpTimeDiff (env.localTime k) last) cfg.pollCtrlPeriod

/-- The time of the last poll before round `k` -/
def lastPoll (cfg : Config τ) (env : Env τ) (now : τ) : Nat → τ
  | 0 => cfg.odpTimeDiff now cfg.pollCtrlPeriod
  | k+1 => if due cfg env (lastPoll cfg env now k) k then env.localTime k else lastPoll cfg env now k

/-- The rounds before round `n` that poll the control queues -/
def polledRounds (cfg : Config τ) (env : Env τ) (now : τ) (n : Nat) : List Nat :=
  (List.range n).filter fun k => decide (cfg.pollCtrlInterval ≤ 1) || due cfg env (lastPoll cfg env now k) k

def pollCalls (acts : List Act) : Nat := acts.countP fun a => a matches .pollCtrl

section
variable {cfg : Config τ} {env : Env τ} {c : Core τ} {now : τ}

theorem pollCalls_handle (r : Sched) : pollCalls (c.handle cfg env r).acts = pollCalls c.acts := by
  have hadd (d : Core τ) {a : Act} (ha : pollCalls [a] = 0) : pollCalls (d.act a).acts = pollCalls d.acts := by
    simp only [Core.act, pollCalls, List.countP_append] at ha ⊢
    omega
  have hactive : pollCalls (c.toActive cfg).acts = pollCalls c.acts := by
    rw [Core.toActive]
    split
    · split
      · rfl
      · exact hadd _ rfl
    · rfl
  cases r with
  | nothing localEmpty localEvents =>
    cases localEmpty with
    | true =>
      rw [Core.handle, Core.toIdle]
      split
      · split <;> exact hadd _ rfl
      · rfl
    | false => exact (hadd _ rfl).trans hactive
  | invalidQueue => exact hadd _ rfl
  | burst num pos localEvents => exact (hadd _ rfl).trans hactive

variable (cfg env c) in
theorem handle_ctrl (r : Sched) : (c.handle cfg env r).dispatchCnt = c.dispatchCnt ∧
    (c.handle cfg env r).dispatchLastRun = c.dispatchLastRun := by
  have hactive : (c.toActive cfg).dispatchCnt = c.dispatchCnt ∧
      (c.toActive cfg).dispatchLastRun = c.dispatchLastRun := by
    rw [Core.toActive]
    split
    · split <;> exact ⟨rfl,rfl⟩
    · exact ⟨rfl,rfl⟩
  cases r with
  | nothing localEmpty localEvents =>
    cases localEmpty with
    | true =>
      rw [Core.handle, Core.toIdle]
      split
      · split <;> exact ⟨rfl,rfl⟩
      · exact ⟨rfl,rfl⟩
    | false => exact hactive
  | invalidQueue => exact ⟨rfl,rfl⟩
  | burst num pos localEvents => exact hactive

/-- `locm->dispatch_cnt` counts down to the next round in which the time is checked. -/
structure Polled (cfg : Config τ) (env : Env τ) (now : τ) (n : Nat) (c : Core τ) : Prop where
  round : c.round = n
  cnt : 1 < cfg.pollCtrlInterval → c.dispatchCnt.toNat + (n + cfg.pollCtrlInterval.toNat - 1) %
    cfg.pollCtrlInterval.toNat = cfg.pollCtrlInterval.toNat
  last : 1 < cfg.pollCtrlInterval → c.dispatchLastRun = lastPoll cfg env now n
  calls : pollCalls c.acts = (polledRounds cfg env now n).length

/-- The countdown between two checks -/
private theorem countdown {N : Nat} (hN : 0 < N) (n : Nat) :
    (n+N-1) % N = if n % N = 0 then N-1 else n % N - 1 := by
  have hdiv := Nat.div_add_mod n N
  have hlt := Nat.mod_lt n hN
  split
  · rename_i hr
    rw [show n+N-1 = N-1 + N*(n/N) by omega, Nat.add_mul_mod_self_left]
    exact Nat.mod_eq_of_lt (by omega)
  · rename_i hr
    rw [show n+N-1 = (n % N - 1) + N*(n/N+1) by rw [Nat.mul_succ]; omega, Nat.add_mul_mod_self_left]
    exact Nat.mod_eq_of_lt (by omega)

theorem polledRounds_succ (n : Nat) : (polledRounds cfg env now (n+1)).length =
    (polledRounds cfg env now n).length +
      if decide (cfg.pollCtrlInterval ≤ 1) || due cfg env (lastPoll cfg env now n) n then 1 else 0 := by
  rw [polledRounds, polledRounds, List.range_succ, List.filter_append, List.length_append,
    List.filter_singleton]
  cases decide (cfg.pollCtrlInterval ≤ 1) || due cfg env (lastPoll cfg env now n) n <;> rfl

theorem pollCalls_act (d : Core τ) : pollCalls (d.act .pollCtrl).acts = pollCalls d.acts + 1 := by
  rw [Core.act, pollCalls, List.countP_append]
  rfl

theorem Polled.dispatchPollCtrlQueue {n : Nat} (h : Polled cfg env now n c) :
    let d := c.dispatchPollCtrlQueue cfg env
    (1 < cfg.pollCtrlInterval → d.dispatchCnt.toNat + n % cfg.pollCtrlInterval.toNat =
      cfg.pollCtrlInterval.toNat) ∧
    (1 < cfg.pollCtrlInterval → d.dispatchLastRun = lastPoll cfg env now (n+1)) ∧
    pollCalls d.acts = (polledRounds cfg env now (n+1)).length := by
  rw [Core.dispatchPollCtrlQueue, polledRounds_succ, ← h.calls]
  by_cases hN : 1 < cfg.pollCtrlInterval
  · have hN' : 1 < cfg.pollCtrlInterval.toNat := BitVec.lt_def.1 hN
    have hcnt := h.cnt hN
    have hlt := Nat.mod_lt (n + cfg.pollCtrlInterval.toNat - 1) (Nat.lt_of_succ_lt hN')
    have hrlt := Nat.mod_lt n (Nat.lt_of_succ_lt hN')
    have hsub : (c.dispatchCnt - 1).toNat = c.dispatchCnt.toNat - 1 := by
      rw [BitVec.toNat_sub_of_le (BitVec.le_def.2 (by change 1 ≤ _; omega))]
      rfl
    rw [countdown (Nat.lt_of_succ_lt hN')] at hcnt
    rw [if_pos hN, decide_eq_false (BitVec.not_le.2 hN), Bool.false_or, lastPoll]
    dsimp only
    rw [h.round, h.last hN]
    by_cases hr : n % cfg.pollCtrlInterval.toNat = 0
    · rw [if_pos hr] at hcnt
      have hzero : ¬0 < c.dispatchCnt - 1 := by
        rw [BitVec.lt_def, hsub]
        change ¬0 < _
        omega
      rw [if_neg hzero, due, decide_eq_true hr, Bool.true_and]
      cases cfg.odpTimeLt (cfg.odpTimeDiff (env.localTime n) (lastPoll cfg env now n)) cfg.pollCtrlPeriod with
      | true =>
        refine ⟨fun _ => ?_,fun _ => rfl,rfl⟩
        rw [hr]
        rfl
      | false =>
        refine ⟨fun _ => ?_,fun _ => rfl,pollCalls_act _⟩
        rw [hr]
        rfl
    · rw [if_neg hr] at hcnt
      have hpos : 0 < c.dispatchCnt - 1 := by
        rw [BitVec.lt_def, hsub]
        change 0 < _
        omega
      rw [if_pos hpos, due, decide_eq_false hr, Bool.false_and]
      refine ⟨fun _ => ?_,fun _ => rfl,rfl⟩
      rw [hsub]
      omega
  · rw [if_neg hN, decide_eq_true (BitVec.not_lt.1 hN)]
    exact ⟨fun hc => absurd hc hN,fun hc => absurd hc hN,pollCalls_act c⟩

theorem Polled.dispatchRound {n : Nat} (h : Polled cfg env now n c) :
    Polled cfg env now (n+1) (c.dispatchRound cfg env) := by
  obtain ⟨hcnt,hlast,hcalls⟩ := h.dispatchPollCtrlQueue
  obtain ⟨hc,hl⟩ := handle_ctrl cfg env (c.dispatchPollCtrlQueue cfg env) (env.sched c.round)
  rw [Core.dispatchRound]
  refine ⟨congrArg (· + 1) h.round,fun hN => ?_,fun hN => hl.trans (hlast hN),(pollCalls_handle _).trans hcalls⟩
  have hpos : 0 < cfg.pollCtrlInterval.toNat := Nat.lt_of_succ_lt (BitVec.lt_def.1 hN)
  rw [Nat.add_right_comm, Nat.add_sub_cancel, Nat.add_mod_right]
  dsimp only
  rw [hc]
  exact hcnt hN

theorem Polled.init (cfg : Config τ) (env : Env τ) (now : τ) :
    Polled cfg env now 0 (Core.initLocal cfg now) where
  round := rfl
  cnt hN := by
    have hN' := BitVec.lt_def.1 hN
    rw [countdown (by omega), if_pos (Nat.zero_mod _)]
    change 1 + _ = _
    change 1 < _ at hN'
    omega
  last _ := rfl
  calls := rfl

/-- After a poll the time is that of its round until there is another poll. -/
theorem lastPoll_eq {j k : Nat} (hj : due cfg env (lastPoll cfg env now j) j = true) (hjk : j < k)
    (hno : ∀ i, j < i → i < k → due cfg env (lastPoll cfg env now i) i = false) :
    lastPoll cfg env now k = env.localTime j := by
  induction k with
  | zero => exact absurd hjk (Nat.not_lt_zero _)
  | succ k ih =>
    rw [lastPoll]
    rcases Nat.eq_or_lt_of_le (Nat.le_of_lt_succ hjk) with rfl | hlt
    · rw [if_pos hj]
    · rw [if_neg (Bool.eq_false_iff.1 (hno k hlt (Nat.lt_succ_self k)))]
      exact ih hlt fun i hi hik => hno i hi (Nat.lt_succ_of_lt hik)

/-- A core polls the control queues in the rounds in which they are due. With an interval above 1
there are at least that many rounds and the period between one poll and the next. -/
theorem ctrl_polls (cfg : Config τ) (env : Env τ) (now : τ) (n : Nat) :
    pollCalls ((Core.initLocal cfg now).rounds cfg env n).acts = (polledRounds cfg env now n).length ∧
      (1 < cfg.pollCtrlInterval → ∀ j ∈ polledRounds cfg env now n, ∀ k ∈ polledRounds cfg env now n,
        j < k → (∀ i, j < i → i < k → i ∉ polledRounds cfg env now n) →
          cfg.pollCtrlInterval.toNat ≤ k-j ∧
            cfg.odpTimeLt (cfg.odpTimeDiff (env.localTime k) (env.localTime j)) cfg.pollCtrlPeriod = false) := by
  have hpolled : Polled cfg env now n ((Core.initLocal cfg now).rounds cfg env n) := by
    induction n with
    | zero => exact .init cfg env now
    | succ n ih => exact ih.dispatchRound
  refine ⟨hpolled.calls,fun hN j hj k hk hjk hno => ?_⟩
  have hmem (i : Nat) : i ∈ polledRounds cfg env now n ↔
      i < n ∧ due cfg env (lastPoll cfg env now i) i = true := by
    rw [polledRounds, List.mem_filter, List.mem_range, decide_eq_false (BitVec.not_le.2 hN), Bool.false_or]
  rw [hmem] at hj hk
  have hlast := lastPoll_eq hj.2 hjk fun i hi hik => by
    have hni := hno i hi hik
    rw [hmem, not_and] at hni
    exact Bool.eq_false_iff.2 (hni (hik.trans hk.1))
  obtain ⟨hkN,hkt⟩ := Bool.and_eq_true_iff.1 hk.2
  obtain ⟨hjN,-⟩ := Bool.and_eq_true_iff.1 hj.2
  rw [hlast, Bool.not_eq_true'] at hkt
  refine ⟨Nat.le_of_dvd (by omega) ?_,hkt⟩
  exact Nat.dvd_sub (Nat.dvd_of_mod_eq_zero (of_decide_eq_true hkN))
    (Nat.dvd_of_mod_eq_zero (of_decide_eq_true hjN))

end
end EmOdp.Dispatch.Rounds
