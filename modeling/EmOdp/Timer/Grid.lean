import Mathlib.Order.Bounds.Basic
import Mathlib.Tactic.Ring
import EmOdp.Timer.Tmo

/-! The ticks that a periodic timeout is armed for by `em_tmo_ack`, with the statistics of the
timeout. -/
namespace EmOdp.Timer
open Lib

/-- `em_timer_timeout_t`: what `em_tmo_ack` uses of a periodic timeout -/
structure GridTmo where
  noskip : Bool
  period : BitVec 64
  lastTick : BitVec 64
  numAcks : BitVec 64
  numLateAck : BitVec 64
  numPeriodSkips : BitVec 64

namespace GridTmo

/-- A call of `odp_timer_start` in `tmo_ack_rearm` with the timeout before it and before the next
one; its tick is the target of the timeout. -/
structure Try where
  before : GridTmo
  answer : Periodic.Answer
  after : GridTmo

/-- The timer was armed, or the timeout event was sent at once. -/
def Try.delivers (y : Try) : Bool :=
  y.answer.ret = .success || y.before.noskip && y.answer.ret = .tooNear && y.answer.sent = .ok

structure Acked where
  tries : List Try
  tmo : GridTmo
  status : Status

def Acked.cons (y : Try) (a : Acked) : Acked := { a with tries := y :: a.tries }

variable (t : GridTmo)

/-- `handle_ack_skip`, which counts the skipped periods; a zero period faults. -/
def handleAckSkip (now : BitVec 64) : Option GridTmo :=
  if t.lastTick < now ∧ t.period = 0 then none
  else
    let skips := if t.lastTick < now then (now - t.lastTick) / t.period + 1 else 1
    some { t with
      lastTick := t.lastTick + skips * t.period
      numPeriodSkips := t.numPeriodSkips + skips }

/-- `tmo_ack_rearm` -/
def tmoAckRearm (pre150 : Bool) : Nat → List Periodic.Answer → GridTmo → Option Acked
  | tries + 1, x :: xs, t => match x.ret with
    | .success => some ⟨[⟨t,x,t⟩],t,.ok⟩
    | .busy =>
      if pre150 then some ⟨[⟨t,x,t⟩],t,.libFailed⟩
      else if tries < 1 then some ⟨[⟨t,x,t⟩],t,.operationFailed⟩
      else (tmoAckRearm pre150 tries xs t).map (.cons ⟨t,x,t⟩)
    | .tooNear =>
      let late := { t with numLateAck := t.numLateAck + 1 }
      -- `handle_ack_noskip`
      if t.noskip then some ⟨[⟨t,x,late⟩],late,x.sent⟩
      else (late.handleAckSkip x.now).bind fun u =>
        if tries < 1 then some ⟨[⟨t,x,u⟩],u,.operationFailed⟩
        else (tmoAckRearm pre150 tries xs u).map (.cons ⟨t,x,u⟩)
    | _ => some ⟨[⟨t,x,t⟩],t,.libFailed⟩
  | _, _, _ => none

/-- `em_tmo_ack` of an active timeout -/
def emTmoAck (pre150 : Bool) (xs : List Periodic.Answer) : Option Acked :=
  tmoAckRearm pre150 emTimerAckTries xs
    { t with numAcks := t.numAcks + 1, lastTick := t.lastTick + t.period }

end GridTmo

/-- A timeout that has been set, with the ticks of the timeouts that were armed for or sent since -/
structure GridRun where
  tmo : GridTmo
  /-- ghost: the tick that the timeout was set for -/
  start : BitVec 64
  /-- ghost: calls of `em_tmo_ack` -/
  acks : Nat
  /-- ghost -/
  delivered : List (BitVec 64)

namespace GridRun
variable (r : GridRun)

/-- The answers of one acknowledgment -/
def step (pre150 : Bool) (xs : List Periodic.Answer) : Option GridRun :=
  (r.tmo.emTmoAck pre150 xs).map fun a => { r with
    tmo := a.tmo
    acks := r.acks + 1
    delivered := r.delivered ++ (a.tries.filter (·.delivers)).map (·.before.lastTick) }

/-- `em_tmo_set_periodic` has armed the timeout. -/
structure Initial : Prop where
  set : ∃ startAbs now : BitVec 64, r.tmo.lastTick =
    if startAbs = 0 then now + r.tmo.period else startAbs
  period : 0 < r.tmo.period
  start : r.start = r.tmo.lastTick
  acks : r.acks = 0
  delivered : r.delivered = [r.start]

def system (pre150 : Bool) : System GridRun (List Periodic.Answer) :=
  System.ofFn Initial fun r xs => r.step pre150 xs

/-- A tick, a time and one more period do not wrap. -/
def Below (period tick : BitVec 64) : Prop := tick.toNat + period.toNat < 2 ^ 64

/-- The ticks of an acknowledgment and the times that are read in it are below `2^64 - period`. -/
structure TicksBelow (pre150 : Bool) (xs : List Periodic.Answer) : Prop where
  target : Below r.tmo.period r.tmo.lastTick
  now : ∀ x ∈ xs, Below r.tmo.period x.now
  ticks : ∀ a ∈ r.tmo.emTmoAck pre150 xs, ∀ y ∈ a.tries, Below r.tmo.period y.before.lastTick

end GridRun

namespace GridTmo
variable {ε : Type} [DecidableEq ε] {cfg : TmoConfig} {e : ε} {xs : List Periodic.Answer}

theorem handleAckSkip_lastTick (g : GridTmo) (now : BitVec 64) :
    (g.handleAckSkip now).map (·.lastTick) = Timer.handleAckSkip g.lastTick g.period now := by
  rw [handleAckSkip, Timer.handleAckSkip]
  by_cases hlate : g.lastTick < now
  · by_cases hzero : g.period = 0
    · rw [if_pos ⟨hlate,hzero⟩, if_pos hlate, if_pos hzero]
      rfl
    · rw [if_neg fun h => hzero h.2, if_pos hlate, if_neg hzero, Option.map_some, if_pos hlate]
  · have hone : 1 * g.period = g.period := BitVec.one_mul _
    rw [if_neg fun h => hlate h.1, if_neg hlate, Option.map_some, if_neg hlate, hone]

private theorem em2usr_lastTick (t : Tmo ε) : (t.em2usr cfg e).lastTick = t.lastTick := by
  rw [Tmo.em2usr]
  split <;> rfl

/-- The target and the result are those of the timeout with its event and its ODP timer. -/
theorem tmoAckRearm_eq {tries : Nat} {g : GridTmo} {t : Tmo ε} (hnoskip : g.noskip = t.noskip)
    (hperiod : g.period = t.period) (htick : g.lastTick = t.lastTick) (harmed : t.armed = none) :
    (t.tmoAckRearm cfg e tries xs).map (fun r => (r.1.lastTick,r.2)) =
      (g.tmoAckRearm cfg.pre150 tries xs).map fun a => (a.tmo.lastTick,a.status) := by
  induction tries generalizing g t xs with
  | zero => cases xs <;> rfl
  | succ tries ih =>
    cases xs with
    | nil => rfl
    | cons x xs =>
      have herr (t : Tmo ε) (st : Status) : (t.ackErr cfg e st).1.lastTick = t.lastTick ∧
          (t.ackErr cfg e st).2 = st := ⟨em2usr_lastTick _,rfl⟩
      have hmap (y : Try) (o : Option Acked) :
          (o.map (Acked.cons y)).map (fun a : Acked => (a.tmo.lastTick,a.status)) =
            o.map fun a => (a.tmo.lastTick,a.status) := by
        rw [Option.map_map]
        rfl
      rw [Tmo.tmoAckRearm, GridTmo.tmoAckRearm]
      cases hx : x.ret with
      | success => simp only [harmed, if_true, Option.map_some, htick]
      | tooFar | fail => simp only [Option.map_some, herr, htick]
      | busy =>
        by_cases hpre : cfg.pre150 = true
        · simp only [if_pos hpre, Option.map_some, herr, htick]
        by_cases hlast : tries < 1
        · simp only [if_neg hpre, if_pos hlast, Option.map_some, herr, htick]
        · simp only [if_neg hpre, if_neg hlast, hmap]
          exact ih hnoskip hperiod htick harmed
      | tooNear =>
        by_cases hno : g.noskip = true
        · simp only [if_pos hno, if_pos (hnoskip ▸ hno), Option.map_some]
          split
          · rename_i hok
            simp only [em2usr_lastTick, htick, hok]
          · simp only [Tmo.resetHdr, Tmo.setHdr, em2usr_lastTick, htick]
        · have hskip : (({ g with numLateAck := g.numLateAck + 1 } : GridTmo).handleAckSkip x.now).map
              (·.lastTick) = Timer.handleAckSkip t.lastTick t.period x.now := by
            rw [← htick, ← hperiod]
            exact handleAckSkip_lastTick { g with numLateAck := g.numLateAck + 1 } x.now
          simp only [if_neg hno, if_neg (hnoskip ▸ hno), ← hskip]
          cases hu : ({ g with numLateAck := g.numLateAck + 1 } : GridTmo).handleAckSkip x.now with
          | none => rfl
          | some u =>
            have hkeep : u.noskip = g.noskip ∧ u.period = g.period := by
              rw [handleAckSkip] at hu
              split at hu
              · cases hu
              · cases hu
                exact ⟨rfl,rfl⟩
            simp only [Option.map_some, Option.bind_some]
            by_cases hlast : tries < 1
            · simp only [if_pos hlast, Option.map_some, herr]
            · simp only [if_neg hlast, hmap]
              exact ih (hkeep.1.trans hnoskip) (hkeep.2.trans hperiod) rfl harmed

/-- With an answer for each try the acknowledgment returns, unless the period is zero. -/
theorem tmoAckRearm_isSome {pre150 : Bool} {tries : Nat} {g : GridTmo} (hperiod : g.period ≠ 0)
    (hpos : 0 < tries) (hlen : tries ≤ xs.length) : (g.tmoAckRearm pre150 tries xs).isSome = true := by
  induction tries generalizing g xs with
  | zero => cases hpos
  | succ tries ih =>
    cases xs with
    | nil => cases hlen
    | cons x xs =>
      rw [GridTmo.tmoAckRearm]
      have hlen' := Nat.le_of_succ_le_succ hlen
      cases x.ret with
      | success | tooFar | fail => rfl
      | busy =>
        dsimp only
        split
        · rfl
        split
        · rfl
        · rw [Option.isSome_map]
          exact ih hperiod (by omega) hlen'
      | tooNear =>
        dsimp only
        split
        · rfl
        rw [handleAckSkip, if_neg fun h => hperiod h.2, Option.bind_some]
        split
        · rfl
        · rw [Option.isSome_map]
          exact ih hperiod (by omega) hlen'

end GridTmo

section Arithmetic
variable {s p now : Nat}

/-- The first point of a grid after a time at which one of its points is passed -/
theorem isLeast_grid {k : Nat} (hp : 0 < p) (hpassed : s + k * p ≤ now) :
    IsLeast {m | now < s + m * p} (k + ((now - (s + k * p)) / p + 1)) := by
  obtain ⟨d,rfl⟩ := Nat.exists_eq_add_of_le hpassed
  rw [Nat.add_sub_cancel_left]
  constructor
  · have h := Nat.lt_mul_div_succ d hp
    have hmul : (k + (d / p + 1)) * p = k * p + p * (d / p + 1) := by ring
    show s + k * p + d < s + (k + (d / p + 1)) * p
    omega
  · intro m (hm : s + k * p + d < s + m * p)
    by_contra hlt
    have hle : m * p ≤ (k + d / p) * p := Nat.mul_le_mul_right p (by omega)
    have hdiv := Nat.div_mul_le_self d p
    rw [Nat.add_mul] at hle
    omega

end Arithmetic

namespace GridRun
variable {r u : GridRun} {pre150 : Bool} {xs : List Periodic.Answer} {s p : BitVec 64}

/-- The tick is `s + k * p`. -/
def AtGrid (s p tick : BitVec 64) (k : Nat) : Prop := tick.toNat = s.toNat + k * p.toNat

theorem AtGrid.next {tick : BitVec 64} {k : Nat} (h : AtGrid s p tick k) (hb : Below p tick) :
    AtGrid s p (tick + p) (k + 1) := by
  rw [AtGrid, BitVec.toNat_add, Nat.mod_eq_of_lt hb, h, Nat.add_mul, Nat.one_mul, Nat.add_assoc]

theorem AtGrid.lt {tick tick' : BitVec 64} {k k' : Nat} (hp : 0 < p) (h : AtGrid s p tick k)
    (h' : AtGrid s p tick' k') (hk : k < k') : tick < tick' := by
  have hmul := Nat.mul_lt_mul_of_pos_right hk (BitVec.lt_def.1 hp : 0 < p.toNat)
  rw [AtGrid] at h h'
  rw [BitVec.lt_def]
  omega

/-- The target after a late try: the first grid tick after the current time if the time has passed
the old target, else the next grid tick; the passed grid ticks are counted. -/
def Skipped (s p now : BitVec 64) (before after : GridTmo) : Prop :=
  ∃ k k', AtGrid s p before.lastTick k ∧ AtGrid s p after.lastTick k' ∧ k < k' ∧
    (if before.lastTick < now then IsLeast {m | now.toNat < s.toNat + m * p.toNat} k' else k' = k + 1) ∧
    after.numPeriodSkips = before.numPeriodSkips + BitVec.ofNat 64 (k' - k)

/-- The skipped periods do not wrap, and the new target neither. -/
private theorem late_target {tick now : BitVec 64} (hp : 0 < p) (hpassed : tick < now)
    (hnow : Below p now) :
    (now - tick) / p + 1 = BitVec.ofNat 64 ((now.toNat - tick.toNat) / p.toNat + 1) ∧
      (tick + ((now - tick) / p + 1) * p).toNat =
        tick.toNat + ((now.toNat - tick.toNat) / p.toNat + 1) * p.toNat := by
  have hle : tick.toNat < now.toNat := BitVec.lt_def.1 hpassed
  have hpos : 0 < p.toNat := BitVec.lt_def.1 hp
  have hsub : (now - tick).toNat = now.toNat - tick.toNat :=
    BitVec.toNat_sub_of_le (BitVec.le_def.2 hle.le)
  have hdiv := Nat.div_mul_le_self (now.toNat - tick.toNat) p.toNat
  have hself := Nat.div_le_self (now.toNat - tick.toNat) p.toNat
  have hone : (1 : BitVec 64).toNat = 1 := rfl
  rw [Below] at hnow
  have hskips : ((now - tick) / p + 1).toNat = (now.toNat - tick.toNat) / p.toNat + 1 := by
    rw [BitVec.toNat_add, BitVec.toNat_udiv, hsub, hone]
    exact Nat.mod_eq_of_lt (by omega)
  constructor
  · apply BitVec.eq_of_toNat_eq
    rw [hskips, BitVec.toNat_ofNat, Nat.mod_eq_of_lt (by omega)]
  · have hprod : (((now - tick) / p + 1) * p).toNat =
        ((now.toNat - tick.toNat) / p.toNat + 1) * p.toNat := by
      rw [BitVec.toNat_mul, hskips, Nat.add_mul, Nat.one_mul]
      exact Nat.mod_eq_of_lt (by omega)
    rw [BitVec.toNat_add, hprod, Nat.add_mul, Nat.one_mul]
    exact Nat.mod_eq_of_lt (by omega)

theorem skipped {t u : GridTmo} {now : BitVec 64} {k : Nat} (hp : 0 < t.period)
    (hk : AtGrid s t.period t.lastTick k) (htick : Below t.period t.lastTick)
    (hnow : Below t.period now) (hu : t.handleAckSkip now = some u) :
    Skipped s t.period now t u ∧ u.period = t.period ∧ u.noskip = t.noskip := by
  simp only [GridTmo.handleAckSkip] at hu
  split at hu
  · cases hu
  cases hu
  refine ⟨?_,rfl,rfl⟩
  by_cases hpassed : t.lastTick < now
  · obtain ⟨hskips,htarget⟩ := late_target hp hpassed hnow
    rw [hk] at hskips htarget
    have hle : s.toNat + k * t.period.toNat ≤ now.toNat := hk ▸ (BitVec.lt_def.1 hpassed).le
    refine ⟨k,k + ((now.toNat - (s.toNat + k * t.period.toNat)) / t.period.toNat + 1),hk,?_,?_,?_,?_⟩
    · rw [AtGrid, if_pos hpassed, htarget]
      ring
    · exact Nat.lt_add_of_pos_right (Nat.succ_pos _)
    · rw [if_pos hpassed]
      exact isLeast_grid (BitVec.lt_def.1 hp) hle
    · rw [if_pos hpassed, hskips, Nat.add_sub_cancel_left]
  · refine ⟨k,k+1,hk,?_,Nat.lt_succ_self k,?_,?_⟩
    · have hone : 1 * t.period = t.period := BitVec.one_mul _
      rw [if_neg hpassed, hone]
      exact hk.next htick
    · rw [if_neg hpassed]
    · rw [if_neg hpassed, Nat.add_sub_cancel_left]
      rfl

/-- The tries of an acknowledgment, one after the other -/
def Tries : GridTmo → List GridTmo.Try → GridTmo → Prop
  | t, [], u => t = u
  | t, y :: ys, u => y.before = t ∧ Tries y.after ys u

/-- A try is for a tick of the grid, and leaves the target unless it is late and periods are
skipped. -/
structure OnGrid (s p : BitVec 64) (y : GridTmo.Try) : Prop where
  target : ∃ k, AtGrid s p y.before.lastTick k
  late : y.before.noskip = false → y.answer.ret = .tooNear →
    Skipped s p y.answer.now y.before y.after
  kept : y.before.noskip = true ∨ y.answer.ret ≠ .tooNear →
    y.after.lastTick = y.before.lastTick ∧ y.after.numPeriodSkips = y.before.numPeriodSkips

/-- What an acknowledgment does from the target `s + k * p` on -/
structure AckSpec (s p : BitVec 64) (t : GridTmo) (k : Nat) (a : GridTmo.Acked) : Prop where
  tries : Tries t a.tries a.tmo
  onGrid : ∀ y ∈ a.tries, OnGrid s p y
  period : a.tmo.period = p
  noskip : a.tmo.noskip = t.noskip
  target : ∃ k', AtGrid s p a.tmo.lastTick k' ∧ k ≤ k'
  kept : t.noskip = true → a.tmo.lastTick = t.lastTick
  delivered : (a.tries.filter (·.delivers)).map (·.before.lastTick) =
    if a.status = .ok then [a.tmo.lastTick] else []

namespace AckSpec
variable {t v : GridTmo} {k k' : Nat} {x : Periodic.Answer} {st : Status} {a : GridTmo.Acked}

/-- The last try -/
private theorem last (hon : OnGrid s p ⟨t,x,v⟩) (hperiod : v.period = p) (hnoskip : v.noskip = t.noskip)
    (htarget : ∃ k', AtGrid s p v.lastTick k' ∧ k ≤ k') (hkept : t.noskip = true → v.lastTick = t.lastTick)
    (hst : GridTmo.Try.delivers ⟨t,x,v⟩ = true ↔ st = .ok) (hok : st = .ok → v.lastTick = t.lastTick) :
    AckSpec s p t k ⟨[⟨t,x,v⟩],v,st⟩ := by
  refine ⟨⟨rfl,rfl⟩,List.forall_mem_singleton.2 hon,hperiod,hnoskip,htarget,hkept,?_⟩
  by_cases h : st = .ok
  · rw [List.filter_cons_of_pos (hst.2 h), if_pos h, hok h]
    rfl
  · rw [List.filter_cons_of_neg (mt hst.1 h), if_neg h]
    rfl

/-- A try before the last one -/
private theorem cons (h : AckSpec s p v k' a) (hon : OnGrid s p ⟨t,x,v⟩) (hle : k ≤ k')
    (hnoskip : v.noskip = t.noskip) (hkept : t.noskip = true → v.lastTick = t.lastTick)
    (hdel : GridTmo.Try.delivers ⟨t,x,v⟩ = false) : AckSpec s p t k (a.cons ⟨t,x,v⟩) := by
  obtain ⟨j,hj,hkj⟩ := h.target
  refine ⟨⟨rfl,h.tries⟩,List.forall_mem_cons.2 ⟨hon,h.onGrid⟩,h.period,h.noskip.trans hnoskip,
    ⟨j,hj,hle.trans hkj⟩,fun ht => (h.kept (hnoskip.trans ht)).trans (hkept ht),?_⟩
  rw [GridTmo.Acked.cons, List.filter_cons_of_neg (Bool.eq_false_iff.1 hdel)]
  exact h.delivered

end AckSpec

/-- Every call of `odp_timer_start` is for a tick of the grid, in at most `tries` tries. -/
theorem tmoAckRearm_spec {tries : Nat} {t : GridTmo} {k : Nat} {a : GridTmo.Acked} (hp : 0 < p)
    (hperiod : t.period = p) (hk : AtGrid s p t.lastTick k)
    (ha : t.tmoAckRearm pre150 tries xs = some a) (hnow : ∀ x ∈ xs, Below p x.now)
    (hticks : ∀ y ∈ a.tries, Below p y.before.lastTick) :
    AckSpec s p t k a ∧ a.tries.length ≤ tries := by
  induction tries generalizing t k xs a with
  | zero => cases xs <;> cases ha
  | succ tries ih =>
    cases xs with
    | nil => cases ha
    | cons x xs =>
      have hstay : ∃ k', AtGrid s p t.lastTick k' ∧ k ≤ k' := ⟨k,hk,le_rfl⟩
      have hon (hret : x.ret ≠ .tooNear) : OnGrid s p ⟨t,x,t⟩ :=
        ⟨⟨k,hk⟩,fun _ h => absurd h hret,fun _ => ⟨rfl,rfl⟩⟩
      have hone (y : GridTmo.Try) : [y].length ≤ tries + 1 := Nat.succ_le_succ (Nat.zero_le _)
      have hfail {st : Status} (hret : x.ret ≠ .tooNear) (hne : x.ret ≠ .success) (hst : st ≠ .ok) :
          AckSpec s p t k ⟨[⟨t,x,t⟩],t,st⟩ :=
        .last (hon hret) hperiod rfl hstay (fun _ => rfl)
          (iff_of_false (by simp [GridTmo.Try.delivers, hret, hne]) hst) fun _ => rfl
      rw [GridTmo.tmoAckRearm] at ha
      cases hx : x.ret with
      | success =>
        simp only [hx] at ha
        cases ha
        exact ⟨.last (hon (by simp [hx])) hperiod rfl hstay (fun _ => rfl)
          (iff_of_true (by simp [GridTmo.Try.delivers, hx]) rfl) fun _ => rfl,hone _⟩
      | tooFar | fail =>
        simp only [hx] at ha
        cases ha
        exact ⟨hfail (by simp [hx]) (by simp [hx]) (by decide),hone _⟩
      | busy =>
        simp only [hx] at ha
        split at ha
        · cases ha
          exact ⟨hfail (by simp [hx]) (by simp [hx]) (by decide),hone _⟩
        split at ha
        · cases ha
          exact ⟨hfail (by simp [hx]) (by simp [hx]) (by decide),hone _⟩
        obtain ⟨b,hb,rfl⟩ := Option.map_eq_some_iff.1 ha
        obtain ⟨hspec,hlen⟩ := ih hperiod hk hb (fun y hy => hnow y (List.mem_cons_of_mem x hy))
          fun y hy => hticks y (List.mem_cons_of_mem _ hy)
        exact ⟨hspec.cons (hon (by simp [hx])) le_rfl rfl (fun _ => rfl)
          (by simp [GridTmo.Try.delivers, hx]),Nat.succ_le_succ hlen⟩
      | tooNear =>
        simp only [hx] at ha
        split at ha
        · rename_i hnoskip
          cases ha
          refine ⟨.last ⟨⟨k,hk⟩,fun h => ?_,fun _ => ⟨rfl,rfl⟩⟩ hperiod rfl hstay (fun _ => rfl) ?_
            fun _ => rfl,hone _⟩
          · exact absurd hnoskip (h ▸ Bool.false_ne_true)
          · simp [GridTmo.Try.delivers, hx, hnoskip]
        · rename_i hskip
          rw [Bool.not_eq_true] at hskip
          obtain ⟨u,hu,ha⟩ := Option.bind_eq_some_iff.1 ha
          have hmem : ∃ l, a.tries = ⟨t,x,u⟩ :: l := by
            split at ha
            · cases ha
              exact ⟨[],rfl⟩
            · obtain ⟨b,-,rfl⟩ := Option.map_eq_some_iff.1 ha
              exact ⟨b.tries,rfl⟩
          obtain ⟨l,hl⟩ := hmem
          have htick : Below p t.lastTick := hticks ⟨t,x,u⟩ (hl ▸ List.mem_cons_self)
          obtain ⟨hs,hup,hun⟩ := @skipped s { t with numLateAck := t.numLateAck + 1 } u x.now k
            (by rw [hperiod]; exact hp) (by rw [hperiod]; exact hk) (by rw [hperiod]; exact htick)
            (by rw [hperiod]; exact hnow x List.mem_cons_self) hu
          rw [hperiod] at hs hup
          have hlate : OnGrid s p ⟨t,x,u⟩ :=
            ⟨⟨k,hk⟩,fun _ _ => hs,fun h => absurd h (by simp [hskip, hx])⟩
          have hdel : GridTmo.Try.delivers ⟨t,x,u⟩ = false := by
            simp [GridTmo.Try.delivers, hx, hskip]
          have hkept (h : t.noskip = true) : u.lastTick = t.lastTick :=
            absurd (hskip.symm.trans h) Bool.false_ne_true
          obtain ⟨k₀,k',hk₀,hk',hlt,-⟩ := hs
          have hkk : k₀ = k := by
            have hmul : k₀ * p.toNat = k * p.toNat := Nat.add_left_cancel (hk₀.symm.trans hk)
            exact Nat.eq_of_mul_eq_mul_right (BitVec.lt_def.1 hp) hmul
          subst hkk
          split at ha
          · cases ha
            exact ⟨.last hlate hup hun ⟨k',hk',hlt.le⟩ hkept
              (iff_of_false (by rw [hdel]; exact Bool.false_ne_true) (by decide))
              fun h => absurd h (by decide),hone _⟩
          · obtain ⟨b,hb,rfl⟩ := Option.map_eq_some_iff.1 ha
            obtain ⟨hspec,hlen⟩ := ih hup hk' hb (fun y hy => hnow y (List.mem_cons_of_mem x hy))
              fun y hy => hticks y (List.mem_cons_of_mem _ hy)
            exact ⟨hspec.cons hlate hlt.le hun hkept hdel,Nat.succ_le_succ hlen⟩

/-- What every acknowledgment keeps: the target and the delivered ticks are on the grid, the target
is not before them, and without skips it is one period further each time. -/
structure Inv (r : GridRun) : Prop where
  period : 0 < r.tmo.period
  target : ∃ k, AtGrid r.start r.tmo.period r.tmo.lastTick k
  delivered : ∀ d ∈ r.delivered, d ≤ r.tmo.lastTick ∧ ∃ k, AtGrid r.start r.tmo.period d k
  increasing : r.delivered.Pairwise (· < ·)
  length : r.delivered.length ≤ r.acks + 1
  noskip : r.tmo.noskip = true → AtGrid r.start r.tmo.period r.tmo.lastTick r.acks ∧
    (r.delivered.length = r.acks + 1 → ∀ i < r.delivered.length, ∃ d, r.delivered[i]? = some d ∧
      AtGrid r.start r.tmo.period d i)

theorem Initial.inv (h : r.Initial) : r.Inv := by
  have hzero : AtGrid r.start r.tmo.period r.start 0 := by rw [AtGrid, Nat.zero_mul, Nat.add_zero]
  refine ⟨h.period,⟨0,h.start ▸ hzero⟩,?_,?_,?_,fun _ => ⟨?_,fun _ i hi => ?_⟩⟩
  · rw [h.delivered, List.forall_mem_singleton]
    exact ⟨h.start ▸ BitVec.le_def.2 le_rfl,0,hzero⟩
  · rw [h.delivered]
    exact List.pairwise_singleton _ _
  · rw [h.delivered, h.acks]
    exact le_rfl
  · rw [h.acks, ← h.start]
    exact hzero
  · rw [h.delivered] at hi ⊢
    obtain rfl := Nat.lt_one_iff.1 hi
    exact ⟨r.start,rfl,hzero⟩

/-- An acknowledgment starts one period after the last target. -/
theorem ack_spec (h : r.Inv) {a : GridTmo.Acked} (ha : r.tmo.emTmoAck pre150 xs = some a)
    (hb : r.TicksBelow pre150 xs) {k : Nat} (hk : AtGrid r.start r.tmo.period r.tmo.lastTick k) :
    AckSpec r.start r.tmo.period
      { r.tmo with numAcks := r.tmo.numAcks + 1, lastTick := r.tmo.lastTick + r.tmo.period } (k+1) a ∧
      a.tries.length ≤ emTimerAckTries :=
  tmoAckRearm_spec h.period rfl (hk.next hb.target) ha hb.now (hb.ticks a ha)

theorem Inv.step (h : r.Inv) (hst : r.step pre150 xs = some u) (hb : r.TicksBelow pre150 xs) :
    u.Inv := by
  obtain ⟨a,ha,rfl⟩ := Option.map_eq_some_iff.1 hst
  obtain ⟨k,hk⟩ := h.target
  obtain ⟨hspec,-⟩ := ack_spec h ha hb hk
  obtain ⟨k',hk',hle⟩ := hspec.target
  have hperiod : a.tmo.period = r.tmo.period := hspec.period
  have hlt : r.tmo.lastTick < a.tmo.lastTick := hk.lt h.period hk' (Nat.lt_of_succ_le hle)
  have hbelow (d : BitVec 64) (hd : d ≤ r.tmo.lastTick) : d.toNat < a.tmo.lastTick.toNat :=
    Nat.lt_of_le_of_lt (BitVec.le_def.1 hd) (BitVec.lt_def.1 hlt)
  have hnew (d : BitVec 64) (hd : d ∈ if a.status = .ok then [a.tmo.lastTick] else []) :
      d = a.tmo.lastTick := by
    split at hd
    · exact List.mem_singleton.1 hd
    · cases hd
  refine ⟨?_,?_,?_,?_,?_,?_⟩ <;> dsimp only
  · rw [hperiod]
    exact h.period
  · rw [hperiod]
    exact ⟨k',hk'⟩
  · rw [hspec.delivered, hperiod]
    intro d hd
    rcases List.mem_append.1 hd with hd | hd
    · obtain ⟨hd',hgrid⟩ := h.delivered d hd
      exact ⟨BitVec.le_def.2 (hbelow d hd').le,hgrid⟩
    · obtain rfl := hnew d hd
      exact ⟨BitVec.le_def.2 le_rfl,k',hk'⟩
  · rw [hspec.delivered]
    refine List.pairwise_append.2 ⟨h.increasing,?_,fun d hd d' hd' => ?_⟩
    · split
      · exact List.pairwise_singleton _ _
      · exact List.Pairwise.nil
    · obtain rfl := hnew d' hd'
      exact BitVec.lt_def.2 (hbelow d (h.delivered d hd).1)
  · have hlen := h.length
    rw [hspec.delivered, List.length_append]
    split <;> simp only [List.length_singleton, List.length_nil] <;> omega
  · intro hno
    have hno' : r.tmo.noskip = true := hspec.noskip.symm.trans hno
    obtain ⟨hacks,hall⟩ := h.noskip hno'
    have htarget := hspec.kept hno'
    rw [hperiod, htarget, hspec.delivered]
    refine ⟨hacks.next hb.target,fun hlen i hi => ?_⟩
    have hle := h.length
    split at hlen
    · rename_i hok
      rw [if_pos hok] at hi ⊢
      rw [List.length_append, List.length_singleton] at hlen hi
      by_cases hlast : i < r.delivered.length
      · rw [List.getElem?_append_left hlast]
        exact hall (by omega) i hlast
      · obtain rfl : i = r.delivered.length := by omega
        rw [List.getElem?_append_right le_rfl, Nat.sub_self]
        refine ⟨_,rfl,?_⟩
        rw [htarget, show r.delivered.length = r.acks + 1 by omega]
        exact hacks.next hb.target
    · rw [List.append_nil] at hlen
      omega

/-- In every run of acknowledgments of a periodic timeout: each call of `odp_timer_start` is for a
tick of the grid, the delivered ticks increase, a late try skips to the first tick that is not
passed, and without skips every grid tick is delivered if every acknowledgment succeeds. -/
theorem periodic_grid (h : (system pre150).ReachableVia (fun r xs _ => r.TicksBelow pre150 xs) r) :
    r.delivered.Pairwise (· < ·) ∧ (∀ d ∈ r.delivered, ∃ k, AtGrid r.start r.tmo.period d k) ∧
    (r.tmo.noskip = true → r.delivered.length = r.acks + 1 → ∀ i < r.delivered.length,
      ∃ d, r.delivered[i]? = some d ∧ AtGrid r.start r.tmo.period d i) ∧
    (∀ xs, r.TicksBelow pre150 xs → ∀ a, r.tmo.emTmoAck pre150 xs = some a →
      Tries { r.tmo with numAcks := r.tmo.numAcks + 1, lastTick := r.tmo.lastTick + r.tmo.period }
        a.tries a.tmo ∧
      (∀ y ∈ a.tries, OnGrid r.start r.tmo.period y) ∧
      (r.tmo.noskip = true → a.tmo.lastTick = r.tmo.lastTick + r.tmo.period) ∧
      (a.tries.filter (·.delivers)).map (·.before.lastTick) =
        (if a.status = .ok then [a.tmo.lastTick] else []) ∧
      a.tries.length ≤ emTimerAckTries) ∧
    ∀ xs, emTimerAckTries ≤ xs.length → (r.tmo.emTmoAck pre150 xs).isSome = true := by
  have hinv : r.Inv := h.invariant (I := Inv) (fun _ => Initial.inv) fun _ _ _ hi hst hb => hi.step hst hb
  refine ⟨hinv.increasing,fun d hd => (hinv.delivered d hd).2,fun hno => (hinv.noskip hno).2,
    fun xs hb a ha => ?_,fun xs hlen => ?_⟩
  · obtain ⟨k,hk⟩ := hinv.target
    obtain ⟨hspec,hlen⟩ := ack_spec hinv ha hb hk
    exact ⟨hspec.tries,hspec.onGrid,fun hno => hspec.kept hno,hspec.delivered,hlen⟩
  · refine GridTmo.tmoAckRearm_isSome (fun hzero => ?_) (by decide) hlen
    exact absurd hinv.period (by rw [show r.tmo.period = 0 from hzero]; decide)

instance (period tick : BitVec 64) : Decidable (Below period tick) :=
  inferInstanceAs (Decidable (_ < _))

instance (r : GridRun) (pre150 : Bool) (xs : List Periodic.Answer) :
    Decidable (r.TicksBelow pre150 xs) :=
  decidable_of_iff (Below r.tmo.period r.tmo.lastTick ∧ (∀ x ∈ xs, Below r.tmo.period x.now) ∧
      ∀ a ∈ r.tmo.emTmoAck pre150 xs, ∀ y ∈ a.tries, Below r.tmo.period y.before.lastTick)
    ⟨fun h => ⟨h.1,h.2.1,h.2.2⟩,fun h => ⟨h.target,h.now,h.ticks⟩⟩

private def everyTen : GridRun := ⟨⟨false,10,100,0,0,0⟩,100,0,[100]⟩

private theorem everyTen_initial : everyTen.Initial := ⟨⟨100,0,rfl⟩,by decide,rfl,rfl,rfl⟩

/-- The second acknowledgment comes three periods late, and the timer is busy then. -/
private def ackedLate : Option GridRun :=
  System.exec (fun r xs => r.step false xs) (fun r xs _ => decide (r.TicksBelow false xs)) everyTen
    [[{}],[{ ret := .tooNear, now := 145 },{ ret := .busy },{}]]

private theorem ackedLate_isSome : ackedLate.isSome = true := by decide

theorem periodic_grid_late : (ackedLate.get ackedLate_isSome).delivered = [100,110,150] ∧
    (ackedLate.get ackedLate_isSome).delivered.Pairwise (· < ·) :=
  ⟨by decide,(periodic_grid (System.ReachableVia.exec (fun _ _ _ => of_decide_eq_true)
    (.start everyTen_initial) (Option.some_get ackedLate_isSome).symm)).1⟩

end GridRun
end EmOdp.Timer
