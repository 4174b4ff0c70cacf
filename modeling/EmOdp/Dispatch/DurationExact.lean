import EmOdp.Dispatch.Userfn

/-! When a dispatch call stops exactly as it is asked to, and returns the exact totals. -/
namespace EmOdp.Dispatch.Loops
open Lib
variable {τ : Type} {cfg : Config τ} {d : Duration} {opt : Opt} {env : Env τ} {l l' : Loop τ}
  {locm : Locm τ} {k : Nat}

/-- The number of values that 64 bits have -/
def values64 : Nat := 18446744073709551616

namespace Env
variable (env : Env τ)

/-- What the rounds before round `k` sum up to -/
def sum (f : Round → Nat) : Nat → Nat
  | 0 => 0
  | k+1 => sum f k + f (env.round k)

/-- The rounds until the last one with `p`, of those before round `k` -/
def roundsUntil (p : Round → Bool) : Nat → Nat
  | 0 => 0
  | k+1 => if p (env.round k) then k+1 else roundsUntil p k

end Env

/-- Events that the scheduler has given are dispatched. -/
def Round.scheduled (r : Round) : Bool := 0 < r.events

/-- Events are dispatched, also those of local queues. -/
def Round.dispatched (r : Round) : Bool := 0 < r.events + r.localEvents

/-- After `k` rounds no limit is reached. -/
structure Due (d : Duration) (env : Env τ) (k : Nat) : Prop where
  rounds : d.durationRounds = true → k < d.rounds.toNat
  ns : d.durationNs = true → env.clock k - env.clock 0 < d.ns.toNat
  events : d.durationEvents = true →
    env.sum Round.events k + env.sum Round.localEvents k < d.events.toNat
  noevRounds : d.durationNoevRounds = true →
    k - env.roundsUntil Round.dispatched k < d.noEventsRounds.toNat
  noevNs : d.durationNoevNs = true →
    env.clock k - env.clock (env.roundsUntil Round.dispatched k) < d.noEventsNs.toNat

/-- The rounds of a call whose dispatch loop has run `k` of them -/
def allRounds (opt : Opt) (env : Env τ) (k : Nat) : Nat :=
  k + if opt.schedPause then (drained env.drain).length else 0

/-- The events of these rounds -/
def allEvents (opt : Opt) (env : Env τ) (k : Nat) : Nat :=
  env.sum Round.events k + env.sum Round.localEvents k +
    if opt.schedPause then
      total Round.events (drained env.drain) + total Round.localEvents (drained env.drain)
    else 0

/-- The time that they take, if the call is asked to look at it -/
def allNs (d : Duration) (opt : Opt) (env : Env τ) (k : Nat) : Nat :=
  if d.readsTime then env.clock k - env.clock 0 + if opt.schedPause then env.drainNs else 0 else 0

/-- The state after `k` rounds of the loop that is used -/
def after (cfg : Config τ) (d : Duration) (opt : Opt) (env : Env τ) (locm : Locm τ) (k : Nat) :
    Loop τ :=
  iterate (roundBody cfg d opt env) (start d env locm) k

/-- The first `k` rounds of the call are run. -/
def Ran (cfg : Config τ) (d : Duration) (opt : Opt) (env : Env τ) (locm : Locm τ) (k : Nat) : Prop :=
  Iterates (·.keepsOn d) (roundBody cfg d opt env) (start d env locm) k

/-- Another round is run if and only if no limit is reached, and the results are the totals. -/
structure Exact (cfg : Config τ) (call : Call) (opt : Option Opt) (env : Env τ) (locm : Locm τ) :
    Prop where
  decides : ∀ k, Ran cfg call.duration (opt.getD {}) env locm k →
    (Ran cfg call.duration (opt.getD {}) env locm (k+1) ↔ Due call.duration env k)
  results : ∀ fuel o, call.run cfg env locm fuel opt = some o → ∃ k r,
    Ran cfg call.duration (opt.getD {}) env locm k ∧
    ¬Ran cfg call.duration (opt.getD {}) env locm (k+1) ∧ o.results = some r ∧
    r.rounds.toNat = allRounds (opt.getD {}) env k ∧ r.events.toNat = allEvents (opt.getD {}) env k ∧
    r.ns.toNat = allNs call.duration (opt.getD {}) env k

/-- What the code needs: where a further round is due, no deadline has more than 64 bits, and the
limits without events are not reached when only the events of the scheduler count; the totals
have 64 bits, and draining takes no time if the time is asked for. -/
structure Representable (d : Duration) (opt : Opt) (env : Env τ) : Prop where
  deadlines : ∀ k, (∀ j ≤ k, Due d env j) →
    (d.durationNs = true → env.clock 0 + d.ns.toNat < values64) ∧
    (d.durationNoevRounds = true →
      k - env.roundsUntil Round.scheduled k < d.noEventsRounds.toNat) ∧
    (d.durationNoevNs = true →
      env.clock (env.roundsUntil Round.scheduled k) + d.noEventsNs.toNat < values64 ∧
      env.clock k - env.clock (env.roundsUntil Round.scheduled k) < d.noEventsNs.toNat)
  totals : ∀ k, (∀ j < k, Due d env j) → ¬Due d env k →
    allRounds opt env k < values64 ∧ allEvents opt env k < values64 ∧
    (d.readsTime = true → opt.schedPause = true → env.drainNs = 0)

/-- `odp_time_local_ns` never goes back. -/
structure Env.NeverBack (env : Env τ) : Prop where
  le : ∀ k, env.clock k ≤ env.clock (k+1)
  lt : ∀ k, env.clock k < values64

/-- The variables of a loop that counts, after `k` rounds -/
structure Counted (d : Duration) (env : Env τ) (k : Nat) (l : Loop τ) : Prop where
  rounds : l.rounds = BitVec.ofNat 64 k
  events : l.events = BitVec.ofNat 64 (env.sum Round.events k)
  localEventCnt : l.localEventCnt = BitVec.ofNat 64 (env.sum Round.localEvents k)
  noevRounds : d.durationNoevRounds = true →
    l.noevRounds = BitVec.ofNat 64 (k - env.roundsUntil Round.scheduled k)
  startNs : d.readsTime = true → l.startNs = BitVec.ofNat 64 (env.clock 0)
  timeNs : d.readsTime = true → l.timeNs = BitVec.ofNat 64 (env.clock k)
  stopNs : d.readsTime = true → l.stopNs = BitVec.ofNat 64 (env.clock 0) + d.ns
  noevStopNs : d.durationNoevNs = true →
    l.noevStopNs = BitVec.ofNat 64 (env.clock (env.roundsUntil Round.scheduled k)) + d.noEventsNs

theorem Env.roundsUntil_le (env : Env τ) (p : Round → Bool) (k : Nat) : env.roundsUntil p k ≤ k := by
  induction k with
  | zero => exact Nat.le_refl _
  | succ k ih =>
    rw [Env.roundsUntil]
    split
    · exact Nat.le_refl _
    · exact Nat.le_succ_of_le ih

theorem readsTime_of_noevNs (h : d.durationNoevNs = true) : d.readsTime = true := by
  rw [Duration.readsTime, h, Bool.or_true]

theorem Counted.start (locm : Locm τ) : Counted d env 0 (start d env locm) := by
  rw [Loops.start, Loop.readTime]
  cases ht : d.readsTime with
  | true => exact ⟨rfl,rfl,rfl,fun _ => rfl,fun _ => rfl,fun _ => rfl,fun _ => rfl,fun _ => rfl⟩
  | false =>
    have hno {P : Prop} (h : d.readsTime = true) : P := absurd (ht.symm.trans h) Bool.false_ne_true
    exact ⟨rfl,rfl,rfl,fun _ => rfl,hno,hno,hno,fun h => hno (readsTime_of_noevNs h)⟩

theorem Counted.round (h : Counted d env k l) : Counted d env (k+1) (roundNoUserfn d opt env k l) := by
  have hle := env.roundsUntil_le Round.scheduled k
  have hone : (1 : BitVec 64) = BitVec.ofNat 64 1 := rfl
  rw [roundNoUserfn_eq]
  constructor
  · simp only [counted, h.rounds, hone, BitVec.ofNat_add]
  · simp only [counted, h.events, Env.sum, BitVec.ofNat_add]
  · simp only [counted, h.localEventCnt, Env.sum, BitVec.ofNat_add]
  · intro hr
    simp only [counted, if_pos hr, Env.roundsUntil, Round.scheduled, decide_eq_true_eq]
    by_cases he : (env.round k).events = 0
    · rw [if_pos he, if_neg (by omega), h.noevRounds hr, hone, ← BitVec.ofNat_add, Nat.sub_add_comm hle]
    · rw [if_neg he, if_pos (Nat.pos_of_ne_zero he), Nat.sub_self]
      rfl
  · exact h.startNs
  · intro ht
    simp only [counted, if_pos ht]
  · exact h.stopNs
  · intro hn
    simp only [counted, hn, Bool.true_and, Env.roundsUntil, Round.scheduled, decide_eq_true_eq]
    by_cases he : 0 < (env.round k).events
    · rw [if_pos he, if_pos he]
    · rw [if_neg he, if_neg he, h.noevStopNs hn]

theorem toNat_ofNat64 (n : Nat) : (BitVec.ofNat 64 n).toNat = n % values64 := BitVec.toNat_ofNat ..

theorem toNat_add64 (n : Nat) (x : BitVec 64) :
    (BitVec.ofNat 64 n + x).toNat = (n+x.toNat) % values64 := by
  refine (BitVec.toNat_add _ _).trans ?_
  rw [toNat_ofNat64]
  exact Nat.mod_add_mod ..

private theorem selected_iff {a b : Bool} : (!a || b) = true ↔ (a = true → b = true) := by
  revert a b
  decide

/-- Which limits the loop has not reached, with its 64-bit variables -/
theorem Counted.keepsOn_iff (h : Counted d env k l) (hclock : env.NeverBack) :
    l.keepsOn d = true ↔
      (d.durationRounds = true → k % values64 < d.rounds.toNat) ∧
      (d.durationNs = true → env.clock k < (env.clock 0 + d.ns.toNat) % values64) ∧
      (d.durationEvents = true →
        (env.sum Round.events k + env.sum Round.localEvents k) % values64 < d.events.toNat) ∧
      (d.durationNoevRounds = true →
        (k - env.roundsUntil Round.scheduled k) % values64 < d.noEventsRounds.toNat) ∧
      (d.durationNoevNs = true → env.clock k <
        (env.clock (env.roundsUntil Round.scheduled k) + d.noEventsNs.toNat) % values64) := by
  have htime (hr : d.readsTime = true) : l.timeNs.toNat = env.clock k := by
    rw [h.timeNs hr, toNat_ofNat64, Nat.mod_eq_of_lt (hclock.lt k)]
  simp only [Loop.keepsOn, Bool.and_eq_true, selected_iff, decide_eq_true_eq, BitVec.lt_def, and_assoc]
  refine and_congr ?_ (and_congr (forall_congr' fun hn => ?_) (and_congr ?_ (and_congr
    (forall_congr' fun hr => ?_) (forall_congr' fun hn => ?_))))
  · rw [h.rounds, toNat_ofNat64]
  · have hr : d.readsTime = true := by rw [Duration.readsTime, hn, Bool.true_or]
    rw [htime hr, h.stopNs hr, toNat_add64]
  · rw [h.events, h.localEventCnt, ← BitVec.ofNat_add, toNat_ofNat64]
  · rw [h.noevRounds hr, toNat_ofNat64]
  · rw [htime (readsTime_of_noevNs hn), h.noevStopNs hn, toNat_add64]

theorem Counted.of_sameLoop (h : Counted d env k l') (hs : SameLoop l l') : Counted d env k l where
  rounds := hs.rounds.trans h.rounds
  events := hs.events.trans h.events
  localEventCnt := hs.localEventCnt.trans h.localEventCnt
  noevRounds hr := hs.noevRounds.trans (h.noevRounds hr)
  startNs ht := hs.startNs.trans (h.startNs ht)
  timeNs ht := hs.timeNs.trans (h.timeNs ht)
  stopNs ht := hs.stopNs.trans (h.stopNs ht)
  noevStopNs hn := hs.noevStopNs.trans (h.noevStopNs hn)

theorem counted_after (hf : d.forever = false) (k : Nat) :
    Counted d env k (after cfg d opt env locm k) := by
  have hno : Counted d env k (iterate (noUserfn d opt env) (start d env locm) k) := by
    induction k with
    | zero => exact .start locm
    | succ k ih =>
      have hbody : noUserfn d opt env = roundNoUserfn d opt env := if_neg (Bool.eq_false_iff.1 hf)
      rw [hbody] at ih ⊢
      exact ih.round
  rw [after, roundBody]
  split
  · exact hno.of_sameLoop (sameLoop_rounds _ k)
  · exact hno

theorem not_selects_of_forever (hf : d.forever = true) (flag : BitVec 32) :
    d.selects flag = false := by
  rw [Duration.forever, decide_eq_true_eq] at hf
  rw [Duration.selects, hf]
  exact decide_eq_false (not_not.2 BitVec.zero_and)

/-- Without a limit every further round is due and is run. -/
theorem forever_due (hf : d.forever = true) (k : Nat) : l.keepsOn d = true ∧ Due d env k := by
  have hno {flag : BitVec 32} {P : Prop} (h : d.selects flag = true) : P :=
    absurd ((not_selects_of_forever hf flag).symm.trans h) Bool.false_ne_true
  refine ⟨?_,⟨hno,hno,hno,hno,hno⟩⟩
  simp only [Loop.keepsOn, Bool.and_eq_true, selected_iff]
  exact ⟨⟨⟨⟨hno,hno⟩,hno⟩,hno⟩,hno⟩

theorem Env.NeverBack.mono (h : env.NeverBack) {i j : Nat} (hij : i ≤ j) : env.clock i ≤ env.clock j := by
  induction hij with
  | refl => exact Nat.le_refl _
  | step _ ih => exact Nat.le_trans ih (h.le _)

theorem Env.scheduled_le_dispatched (env : Env τ) (k : Nat) :
    env.roundsUntil Round.scheduled k ≤ env.roundsUntil Round.dispatched k := by
  induction k with
  | zero => exact Nat.le_refl _
  | succ k ih =>
    simp only [Env.roundsUntil, Round.scheduled, Round.dispatched, decide_eq_true_eq]
    by_cases hs : 0 < (env.round k).events
    · have hd : 0 < (env.round k).events + (env.round k).localEvents := by omega
      exact Nat.le_of_eq ((if_pos hs).trans (if_pos hd).symm)
    · rw [if_neg hs]
      split
      · exact Nat.le_succ_of_le (env.roundsUntil_le _ _)
      · exact ih

/-- The loop does not run a round that is not due, as long as its counters do not wrap. -/
theorem Counted.due (h : Counted d env k l) (hclock : env.NeverBack) (hk : k < values64)
    (hevents : env.sum Round.events k + env.sum Round.localEvents k < values64)
    (hkeeps : l.keepsOn d = true) : Due d env k := by
  obtain ⟨hrounds,hns,hev,hnoev,hnoevNs⟩ := (h.keepsOn_iff hclock).1 hkeeps
  have hle := env.scheduled_le_dispatched k
  have hc := hclock.mono hle
  have h0 := hclock.mono (Nat.zero_le k)
  have hk' := hclock.mono (env.roundsUntil_le Round.dispatched k)
  constructor
  · intro hr
    rw [← Nat.mod_eq_of_lt hk]
    exact hrounds hr
  · intro hn
    have := Nat.lt_of_lt_of_le (hns hn) (Nat.mod_le _ _)
    omega
  · intro he
    rw [← Nat.mod_eq_of_lt hevents]
    exact hev he
  · intro hr
    have := hnoev hr
    rw [Nat.mod_eq_of_lt (by omega)] at this
    omega
  · intro hn
    have := Nat.lt_of_lt_of_le (hnoevNs hn) (Nat.mod_le _ _)
    omega

/-- A deadline that wraps is over at once. -/
theorem lt_of_lt_wrapped {now since len : Nat} (hsince : since ≤ now) (hnow : now < values64)
    (hlen : len < values64) (h : now < (since+len) % values64) :
    since+len < values64 ∧ now < since+len := by
  have hsum : since+len < values64 := by
    refine Nat.lt_of_not_le fun hge => ?_
    rw [Nat.mod_eq_sub_mod hge, Nat.mod_eq_of_lt (by omega)] at h
    omega
  exact ⟨hsum,Nat.mod_eq_of_lt hsum ▸ h⟩

theorem toNat_lt_values64 (x : BitVec 64) : x.toNat < values64 := x.isLt

/-- The rounds without scheduled events are counted right while the loop goes on. -/
theorem noevRounds_lt (hclock : env.NeverBack) (hr : d.durationNoevRounds = true)
    (hf : d.forever = false)
    (h : ∀ j ≤ k, (after cfg d opt env locm j).keepsOn d = true) :
    k - env.roundsUntil Round.scheduled k < d.noEventsRounds.toNat := by
  have hlt := toNat_lt_values64 d.noEventsRounds
  have hwrapped (j : Nat) (hj : j ≤ k) :
      (j - env.roundsUntil Round.scheduled j) % values64 < d.noEventsRounds.toNat :=
    (((counted_after hf j).keepsOn_iff hclock).1 (h j hj)).2.2.2.1 hr
  suffices hall : ∀ j ≤ k, j - env.roundsUntil Round.scheduled j < d.noEventsRounds.toNat from
    hall k (Nat.le_refl k)
  intro j
  induction j with
  | zero => exact fun hj => hwrapped 0 hj
  | succ j ih =>
    intro hj
    have hw := hwrapped (j+1) hj
    have hprev := ih (Nat.le_of_succ_le hj)
    have hle : j+1 - env.roundsUntil Round.scheduled (j+1) ≤ d.noEventsRounds.toNat := by
      rw [Env.roundsUntil]
      split <;> omega
    rwa [Nat.mod_eq_of_lt (by omega)] at hw

/-- What the code needs of a due round, if it runs it. -/
theorem deadlines_of_keepsOn (hclock : env.NeverBack) (hf : d.forever = false)
    (h : ∀ j ≤ k, (after cfg d opt env locm j).keepsOn d = true) :
    (d.durationNs = true → env.clock 0 + d.ns.toNat < values64) ∧
    (d.durationNoevRounds = true →
      k - env.roundsUntil Round.scheduled k < d.noEventsRounds.toNat) ∧
    (d.durationNoevNs = true →
      env.clock (env.roundsUntil Round.scheduled k) + d.noEventsNs.toNat < values64 ∧
      env.clock k - env.clock (env.roundsUntil Round.scheduled k) < d.noEventsNs.toNat) := by
  obtain ⟨-,hns,-,-,hnoevNs⟩ := ((counted_after hf k).keepsOn_iff hclock).1 (h k (Nat.le_refl k))
  have hk := hclock.mono (env.roundsUntil_le Round.scheduled k)
  refine ⟨fun hn => ?_,fun hr => noevRounds_lt hclock hr hf h,fun hn => ?_⟩
  · exact (lt_of_lt_wrapped (hclock.mono (Nat.zero_le k)) (hclock.lt k) (toNat_lt_values64 _)
      (hns hn)).1
  · obtain ⟨hsum,hlt⟩ := lt_of_lt_wrapped hk (hclock.lt k) (toNat_lt_values64 _) (hnoevNs hn)
    exact ⟨hsum,by omega⟩

/-- A round that is due is run if its deadlines can be represented. -/
theorem Counted.keepsOn (h : Counted d env k l) (hclock : env.NeverBack) (hdue : Due d env k)
    (hns : d.durationNs = true → env.clock 0 + d.ns.toNat < values64)
    (hnoev : d.durationNoevRounds = true →
      k - env.roundsUntil Round.scheduled k < d.noEventsRounds.toNat)
    (hnoevNs : d.durationNoevNs = true →
      env.clock (env.roundsUntil Round.scheduled k) + d.noEventsNs.toNat < values64 ∧
      env.clock k - env.clock (env.roundsUntil Round.scheduled k) < d.noEventsNs.toNat) :
    l.keepsOn d = true := by
  refine (h.keepsOn_iff hclock).2 ⟨fun hr => ?_,fun hn => ?_,fun he => ?_,fun hr => ?_,fun hn => ?_⟩
  · exact Nat.lt_of_le_of_lt (Nat.mod_le _ _) (hdue.rounds hr)
  · rw [Nat.mod_eq_of_lt (hns hn)]
    have := hdue.ns hn
    omega
  · exact Nat.lt_of_le_of_lt (Nat.mod_le _ _) (hdue.events he)
  · exact Nat.lt_of_le_of_lt (Nat.mod_le _ _) (hnoev hr)
  · obtain ⟨hsum,hlt⟩ := hnoevNs hn
    rw [Nat.mod_eq_of_lt hsum]
    omega

/-- The results are the totals as far as they have 64 bits, and the time before the draining. -/
theorem Counted.finish (h : Counted d env k l) (hclock : env.NeverBack) :
    ∃ r, (finish d opt env l).results = some r ∧ r.rounds.toNat = allRounds opt env k % values64 ∧
      r.events.toNat = allEvents opt env k % values64 ∧
      r.ns.toNat = if d.readsTime then env.clock k - env.clock 0 else 0 := by
  refine ⟨_,finish_results d opt env l,?_,?_,?_⟩
  · rw [h.rounds, allRounds]
    cases opt.schedPause with
    | true => simp only [if_true, ← BitVec.ofNat_add, toNat_ofNat64]
    | false => simp only [Bool.false_eq_true, if_false, BitVec.add_zero, toNat_ofNat64, Nat.add_zero]
  · rw [h.events, h.localEventCnt, allEvents]
    cases opt.schedPause with
    | true => simp only [if_true, ← BitVec.ofNat_add, toNat_ofNat64]
    | false =>
      simp only [Bool.false_eq_true, if_false, BitVec.add_zero, ← BitVec.ofNat_add, toNat_ofNat64,
        Nat.add_zero]
  · cases ht : d.readsTime with
    | false => rfl
    | true =>
      have h0 := hclock.mono (Nat.zero_le k)
      rw [if_pos rfl, if_pos rfl, h.timeNs ht, h.startNs ht, BitVec.toNat_sub_of_le]
      · rw [toNat_ofNat64, toNat_ofNat64, Nat.mod_eq_of_lt (hclock.lt k), Nat.mod_eq_of_lt (hclock.lt 0)]
      · rw [BitVec.le_def, toNat_ofNat64, toNat_ofNat64, Nat.mod_eq_of_lt (hclock.lt k),
          Nat.mod_eq_of_lt (hclock.lt 0)]
        exact h0

theorem ran_succ : Ran cfg d opt env locm (k+1) ↔
    Ran cfg d opt env locm k ∧ (after cfg d opt env locm k).keepsOn d = true :=
  iterates_succ

theorem leaves_iff : Leaves (·.keepsOn d) (roundBody cfg d opt env) (start d env locm) k ↔
    Ran cfg d opt env locm k ∧ ¬Ran cfg d opt env locm (k+1) := by
  constructor
  · rintro ⟨hran,hstop⟩
    exact ⟨hran,fun hc => Bool.false_ne_true (hstop.symm.trans (ran_succ.1 hc).2)⟩
  · rintro ⟨hran,hnot⟩
    exact ⟨hran,Bool.eq_false_iff.2 fun hc => hnot (ran_succ.2 ⟨hran,hc⟩)⟩

/-- After rounds that were due the next one is run if it is due. -/
theorem Representable.next (h : Representable d opt env) (hclock : env.NeverBack)
    (hf : d.forever = false) (hran : Ran cfg d opt env locm k) (hdue : ∀ j < k, Due d env j) :
    Ran cfg d opt env locm (k+1) ↔ Due d env k := by
  have hcount : Counted d env k (after cfg d opt env locm k) := counted_after hf k
  constructor
  · intro hnext
    refine Classical.byContradiction fun hnot => ?_
    obtain ⟨hrounds,hevents,-⟩ := h.totals k hdue hnot
    rw [allRounds] at hrounds
    rw [allEvents] at hevents
    exact hnot (hcount.due hclock (by omega) (by omega) (ran_succ.1 hnext).2)
  · intro hk
    have hall : ∀ j ≤ k, Due d env j := fun j hj => by
      rcases Nat.lt_or_eq_of_le hj with hlt | rfl
      · exact hdue j hlt
      · exact hk
    obtain ⟨hns,hnoev,hnoevNs⟩ := h.deadlines k hall
    exact ran_succ.2 ⟨hran,hcount.keepsOn hclock hk hns hnoev hnoevNs⟩

theorem Representable.ran_due (h : Representable d opt env) (hclock : env.NeverBack)
    (hf : d.forever = false) (hran : Ran cfg d opt env locm k) : ∀ j < k, Due d env j := by
  induction k with
  | zero => exact fun j hj => absurd hj (Nat.not_lt_zero j)
  | succ k ih =>
    have hk := (ran_succ.1 hran).1
    have hdue := ih hk
    exact Nat.forall_lt_succ_right.2 ⟨hdue,(h.next hclock hf hk hdue).1 hran⟩

section Run
variable {call : Call} {opt : Option Opt} {fuel : Nat} {o : Outcome τ}

/-- A call that passes its checks returns when its loop is left. -/
theorem run_eq_some (hok : call.check cfg.emCheckLevel (opt.getD {}) = .ok)
    (hcore : 3 ≤ cfg.emCheckLevel → cfg.isEmCore = true) : call.run cfg env locm fuel opt = some o ↔
      ∃ k, k < fuel ∧ Leaves (·.keepsOn call.duration) (roundBody cfg call.duration (opt.getD {}) env)
        (start call.duration env locm) k ∧
        finish call.duration (opt.getD {}) env (after cfg call.duration (opt.getD {}) env locm k) =
          o := by
  have hcheck : ¬(3 ≤ cfg.emCheckLevel ∧ cfg.isEmCore = false) := fun h =>
    Bool.false_ne_true (h.2.symm.trans (hcore h.1))
  rw [Call.run, if_neg (not_not.2 hok), dispatchDuration, if_neg hcheck]
  simp only [after, roundBody]
  cases doInputPoll cfg (opt.getD {}) || doOutputDrain cfg (opt.getD {}) with
  | true => exact whileLoop_map_eq_some
  | false => exact whileLoop_map_eq_some

theorem Representable.exact (h : Representable call.duration (opt.getD {}) env)
    (hok : call.check cfg.emCheckLevel (opt.getD {}) = .ok) (hcore : 3 ≤ cfg.emCheckLevel → cfg.isEmCore = true)
    (hclock : env.NeverBack) (hf : call.duration.forever = false) : Exact cfg call opt env locm := by
  refine ⟨fun k hran => h.next hclock hf hran (h.ran_due hclock hf hran),fun fuel o ho => ?_⟩
  obtain ⟨k,-,hleaves,rfl⟩ := (run_eq_some hok hcore).1 ho
  obtain ⟨hran,hnot⟩ := leaves_iff.1 hleaves
  have hdue := h.ran_due hclock hf hran
  obtain ⟨hrounds,hevents,hns⟩ := h.totals k hdue (mt (h.next hclock hf hran hdue).2 hnot)
  obtain ⟨r,hr,hr1,hr2,hr3⟩ := (counted_after hf k).finish hclock
  refine ⟨k,r,hran,hnot,hr,hr1.trans (Nat.mod_eq_of_lt hrounds),hr2.trans (Nat.mod_eq_of_lt hevents),?_⟩
  rw [hr3, allNs]
  cases ht : call.duration.readsTime with
  | false => rfl
  | true =>
    rw [if_pos rfl, if_pos rfl]
    cases hp : (opt.getD {}).schedPause with
    | false => rfl
    | true =>
      rw [if_pos rfl, hns ht hp]
      rfl

theorem Exact.representable (h : Exact cfg call opt env locm)
    (hok : call.check cfg.emCheckLevel (opt.getD {}) = .ok) (hcore : 3 ≤ cfg.emCheckLevel → cfg.isEmCore = true)
    (hclock : env.NeverBack) (hf : call.duration.forever = false) :
    Representable call.duration (opt.getD {}) env := by
  have hran (k : Nat) (hdue : ∀ j < k, Due call.duration env j) :
      Ran cfg call.duration (opt.getD {}) env locm k := by
    induction k with
    | zero => exact Iterates.zero
    | succ k ih =>
      obtain ⟨hdue,hk⟩ := Nat.forall_lt_succ_right.1 hdue
      exact (h.decides k (ih hdue)).2 hk
  refine ⟨fun k hdue => ?_,fun k hdue hnot => ?_⟩
  · have hnext := hran (k+1) fun j hj => hdue j (Nat.le_of_lt_succ hj)
    have hkeeps : ∀ j ≤ k, (after cfg call.duration (opt.getD {}) env locm j).keepsOn
        call.duration = true := fun j hj => hnext j (Nat.lt_succ_of_le hj)
    exact deadlines_of_keepsOn hclock hf hkeeps
  · have hleaves := leaves_iff.2 ⟨hran k hdue,fun hc => hnot ((h.decides k (hran k hdue)).1 hc)⟩
    obtain ⟨k',r,hran',hnot',hr,hrounds,hevents,hns⟩ := h.results (k+1) _
      ((run_eq_some hok hcore).2 ⟨k,Nat.lt_succ_self k,hleaves,rfl⟩)
    obtain rfl := Leaves.unique hleaves (leaves_iff.2 ⟨hran',hnot'⟩)
    obtain ⟨r',hr',hr1,hr2,hr3⟩ := (counted_after hf k).finish hclock
    obtain rfl := Option.some.inj (hr'.symm.trans hr)
    refine ⟨hrounds ▸ toNat_lt_values64 _,hevents ▸ toNat_lt_values64 _,fun ht hp => ?_⟩
    rw [hr3, allNs, ht, hp, if_pos rfl, if_pos rfl, if_pos rfl] at hns
    omega

/-- The deadlines are 64-bit sums, and the limits without events do not see local queues. -/
theorem duration_exact_iff (hok : call.check cfg.emCheckLevel (opt.getD {}) = .ok)
    (hcore : 3 ≤ cfg.emCheckLevel → cfg.isEmCore = true) (hclock : env.NeverBack) :
    Exact cfg call opt env locm ↔ Representable call.duration (opt.getD {}) env := by
  cases hf : call.duration.forever with
  | false => exact ⟨fun h => h.representable hok hcore hclock hf,fun h => h.exact hok hcore hclock hf⟩
  | true =>
    have hno {flag : BitVec 32} {P : Prop} (h : call.duration.selects flag = true) : P :=
      absurd ((not_selects_of_forever hf flag).symm.trans h) Bool.false_ne_true
    have hran (k : Nat) : Ran cfg call.duration (opt.getD {}) env locm k := fun _ _ =>
      (show _ ∧ Due call.duration env 0 from forever_due hf 0).1
    refine iff_of_true ⟨fun k _ => iff_of_true (hran (k+1)) (forever_due (l := startLoop locm) hf k).2,
      fun fuel o ho => ?_⟩ ⟨fun k _ => ⟨hno,hno,hno⟩,fun k _ hnot => ?_⟩
    · obtain ⟨k,-,hleaves,-⟩ := (run_eq_some hok hcore).1 ho
      exact absurd (hran (k+1)) (leaves_iff.1 hleaves).2
    · exact absurd (forever_due (l := startLoop locm) hf k).2 hnot

end Run

private def plainConfig : Config Nat where
  emCheckLevel := 3
  isEmCore := true
  inputPollFn := false
  outputDrainFn := false
  pollDrainInterval := 1
  pollDrainPeriod := 0
  odpTimeDiff a b := a-b
  odpTimeLt a b := a < b

/-- There are no events, and no time passes. -/
private def quietEnv : Env Nat where
  round _ := { events := 0 }
  clock _ := 1
  localTime _ := 0
  drain := []
  drainNs := 0

private theorem quietEnv_neverBack : quietEnv.NeverBack :=
  ⟨fun _ => Nat.le_refl _,fun _ => (by decide : 1 < values64)⟩

theorem duration_exact_one_round : Exact plainConfig (.emDispatchRounds 1) none quietEnv ⟨false,1,0⟩ ↔
    Representable { select := 1, rounds := 1 } {} quietEnv :=
  duration_exact_iff rfl (fun _ => rfl) quietEnv_neverBack

/-- The longest time wraps to a deadline before the start: no round is run. -/
theorem longest_time_runs_nothing : ¬∀ (call : Call) (opt : Option Opt) (env : Env Nat)
    (locm : Locm Nat), call.check plainConfig.emCheckLevel (opt.getD {}) = .ok → env.NeverBack →
      Exact plainConfig call opt env locm := by
  intro hall
  have hexact := hall (.emDispatchNs (BitVec.allOnes 64)) none quietEnv ⟨false,1,0⟩ (by decide)
    quietEnv_neverBack
  have hdue (j : Nat) (hj : j ≤ 0) : Due { select := 2, ns := BitVec.allOnes 64 } quietEnv j := by
    obtain rfl : j = 0 := by omega
    constructor <;> decide
  have hdeadline := (hexact.representable (by decide) (fun _ => rfl) quietEnv_neverBack rfl).deadlines 0 hdue
  exact absurd (hdeadline.1 (by decide)) (by decide)

end EmOdp.Dispatch.Loops
