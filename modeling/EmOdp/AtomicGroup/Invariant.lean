import EmOdp.Lib.CoreSum
import EmOdp.AtomicGroup.Machine

/-! What every step of `atomic_group_dispatch` keeps: the lock bit counts the holder,
`evcnt` counts the stashed events and those on their way in or out. -/
namespace EmOdp.AtomicGroup
open Lib
variable {ι E : Type}

namespace Core

/-- The core is between taking the lock and giving it up. -/
def holds (k : Core E) : Nat :=
  match k.pc with
  | .deqHi | .deqLo _ | .deqSub _ | .dispatch _ | .releaseLoad | .releaseCas _ => 1
  | .lastReceive | .unlock => if k.released then 0 else 1
  | _ => 0

/-- Size of the burst that is to be dispatched or enqueued. -/
def scheduled (k : Core E) : Nat :=
  match k.pc with
  | .acquireIfIdle _ evTbl | .enqAdd _ evTbl => evTbl.length
  | _ => 0

/-- Events added to `evcnt` by an enqueue that is not completed. -/
def enqueuing (k : Core E) : Nat :=
  match k.pc with
  | .enqPut _ evTbl => evTbl.length
  | .enqSub rejected => rejected
  | _ => 0

/-- Events taken from the stash and not yet subtracted from `evcnt`. -/
def dequeued (k : Core E) : Nat :=
  match k.pc with
  | .deqLo deq | .deqSub deq => deq.length
  | _ => 0

/-- Events in `evcnt` that no stash stores. -/
def counted (k : Core E) : Nat := k.enqueuing + k.dequeued

/-- Accepted events that the core has yet to pass to a receive function. -/
def inHand (k : Core E) : List E :=
  match k.pc with
  | .deqLo evTbl | .deqSub evTbl | .dispatch evTbl => evTbl
  | _ => []

/-- The core will look at the lock before it leaves. -/
def retries (k : Core E) : Bool :=
  match k.pc with
  | .enqPut .. | .enqSub _ | .trylockLoad | .trylockCas _ | .relockLoad | .relockCas _ => true
  | .lastReceive | .unlock => k.released
  | _ => false

/-- The next access of the core is a get from the stash. -/
def getsNext (k : Core E) : Bool :=
  match k.pc with
  | .deqHi | .deqLo _ => true
  | _ => false

structure Ok (cfg : Config) (k : Core E) : Prop where
  released : k.released = true → k.pc = .lastReceive ∨ k.pc = .unlock
  scheduled : k.scheduled ≤ cfg.maxBurst
  enqueuing : k.enqueuing ≤ cfg.maxBurst
  dequeued : k.dequeued ≤ cfg.agMaxBurst
  relock : ∀ expected, k.pc = .relockCas expected → expected.lock ≠ 1

theorem holds_of_getsNext {k : Core E} (h : k.getsNext = true) : k.holds = 1 := by
  obtain ⟨pc,r⟩ := k
  cases pc <;> simp_all [getsNext, holds]

end Core

structure Inv [Fintype ι] [DecidableEq E] (cfg : Config) (s : State ι E) : Prop where
  cores : ∀ c, (s.core c).Ok cfg
  hiStash : s.hiStash.length ≤ cfg.stashSize
  loStash : s.loStash.length ≤ cfg.stashSize
  wrap : s.lock.wrap = wrapProtect
  bit : s.lock.lock = 0 ∨ s.lock.lock = 1
  holder : s.lock.lock.toNat = ∑ c, (s.core c).holds
  evcnt : s.lock.evcnt.toNat =
    s.hiStash.length + s.loStash.length + ∑ c, (s.core c).counted
  wake : s.lock.lock = 0 → s.lock.evcnt ≠ 0 → ∃ c, (s.core c).retries = true
  events : ∀ e, s.accepted.count e = s.dispatched.count e +
    (s.hiStash.count e + s.loStash.count e + ∑ c, (s.core c).inHand.count e)

variable [Fintype ι] [DecidableEq ι] [DecidableEq E] {cfg : Config} {s t : State ι E} {c : ι}
  {k : Core E}

omit [DecidableEq E] in
private theorem sum_move (f : Core E → Nat) (ht : t.core = Function.update s.core c k) :
    ∑ i, f (t.core i) + f (s.core c) = ∑ i, f (s.core i) + f k := by
  have h := sum_update (fun i => f (s.core i)) c (f k)
  have hf : (fun i => f (t.core i)) = Function.update (fun i => f (s.core i)) c (f k) := by
    funext i
    by_cases hi : i = c
    · subst hi; simp [ht]
    · simp [ht, hi]
  rw [← hf] at h
  exact h

/-- A step of one core keeps the invariant when it accounts for what it changes. -/
theorem Inv.move (h : Inv cfg s) (ht : t.core = Function.update s.core c k) (hk : k.Ok cfg)
    (hhi : t.hiStash.length ≤ cfg.stashSize) (hlo : t.loStash.length ≤ cfg.stashSize)
    (hwrap : t.lock.wrap = wrapProtect) (hbit : t.lock.lock = 0 ∨ t.lock.lock = 1)
    (hholder : t.lock.lock.toNat + (s.core c).holds = s.lock.lock.toNat + k.holds)
    (hevcnt : t.lock.evcnt.toNat + (s.hiStash.length + s.loStash.length +
        (s.core c).counted) =
      s.lock.evcnt.toNat + (t.hiStash.length + t.loStash.length + k.counted))
    (hwake : t.lock.lock = 0 → t.lock.evcnt ≠ 0 → k.retries = true ∨
      s.lock.lock = 0 ∧ s.lock.evcnt ≠ 0 ∧ (s.core c).retries = false)
    (hevents : ∀ e, t.accepted.count e + (s.dispatched.count e +
        (s.hiStash.count e + s.loStash.count e + (s.core c).inHand.count e)) =
      s.accepted.count e + (t.dispatched.count e +
        (t.hiStash.count e + t.loStash.count e + k.inHand.count e))) : Inv cfg t := by
  refine ⟨fun i => ?_,hhi,hlo,hwrap,hbit,?_,?_,fun h0 h1 => ?_,fun e => ?_⟩
  · by_cases hi : i = c
    · subst hi; simpa [ht] using hk
    · simpa [ht, hi] using h.cores i
  · have hs := sum_move Core.holds ht
    have hh := h.holder
    omega
  · have hs := sum_move Core.counted ht
    have he := h.evcnt
    omega
  · rcases hwake h0 h1 with hr | ⟨hl,he,hr⟩
    · exact ⟨c,by simpa [ht] using hr⟩
    · obtain ⟨i,hi⟩ := h.wake hl he
      have hne : i ≠ c := by rintro rfl; rw [hr] at hi; cases hi
      exact ⟨i,by simpa [ht, hne] using hi⟩
  · have hs := sum_move (fun k => k.inHand.count e) ht
    have he := h.events e
    have hv := hevents e
    omega

/-- A step that only moves the core on. -/
theorem Inv.moveLocal (h : Inv cfg s) (hk : k.Ok cfg) (hholder : k.holds = (s.core c).holds)
    (hevcnt : k.counted = (s.core c).counted)
    (hhand : k.inHand = (s.core c).inHand)
    (hwake : (s.core c).retries = true → k.retries = true ∨
      (s.lock.lock = 0 → s.lock.evcnt = 0)) :
    Inv cfg { s with core := Function.update s.core c k } := by
  refine h.move rfl hk h.hiStash h.loStash h.wrap h.bit (by simp only; omega) (by simp only; omega)
    (fun h0 h1 => ?_) (fun e => by rw [hhand])
  rcases hr : (s.core c).retries with _ | _
  · exact .inr ⟨h0,h1,rfl⟩
  · rcases hwake hr with hk | he
    · exact .inl hk
    · exact absurd (he h0) h1

omit [DecidableEq ι] in
/-- The lock is held while some core holds it. -/
theorem Inv.locked (h : Inv cfg s) (c : ι) (hc : (s.core c).holds = 1) : s.lock.lock = 1 := by
  have hle := le_sum (fun i => (s.core i).holds) c
  have hh := h.holder
  rcases h.bit with hb | hb
  · have h0 : s.lock.lock.toNat = 0 := by rw [hb]; rfl
    omega
  · exact hb

omit [DecidableEq ι] in
theorem Inv.counted_le (h : Inv cfg s) (c : ι) :
    (s.core c).counted ≤ s.lock.evcnt.toNat := by
  have hle := le_sum (fun i => (s.core i).counted) c
  have he := h.evcnt
  omega

/-- `evcnt` has room for the burst of every core and for all that the stashes store. -/
theorem Inv.room (hfit : cfg.Fits (Fintype.card ι)) (h : Inv cfg s) (hk : k.Ok cfg) (hz : (s.core c).counted = 0) :
    s.lock.evcnt.toNat + k.counted < 2 ^ 32 := by
  have hs := sum_move Core.counted (s := s)
    (t := { s with core := Function.update s.core c k }) rfl
  have hle : ∑ i, (Function.update s.core c k i).counted ≤
      Fintype.card ι * (cfg.maxBurst + cfg.agMaxBurst) := by
    refine (Finset.sum_le_card_nsmul _ _ (cfg.maxBurst + cfg.agMaxBurst) fun i _ => ?_).trans_eq
      (by simp)
    have hok : (Function.update s.core c k i).Ok cfg := by
      by_cases hi : i = c
      · subst hi; simpa using hk
      · simpa [hi] using h.cores i
    exact Nat.add_le_add hok.enqueuing hok.dequeued
  dsimp only at hs
  have he := h.evcnt
  have hh := h.hiStash
  have hl := h.loStash
  unfold Config.Fits at hfit
  omega

end EmOdp.AtomicGroup
