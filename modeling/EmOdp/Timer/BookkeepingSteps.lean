import EmOdp.Timer.Bookkeeping

/-! New and deleted timers keep the bookkeeping of the timer storage. -/
namespace EmOdp.Timer
open Lib
variable {opt : Options} {τ π : Type}

namespace Storage
variable {s t : Storage opt τ π} {i : Fin opt.maxTimers} {x : EventTimer τ π} {p : π}

/-- `p` is the pool for the timeout handles of a new timer: the shared pool, or a pool
that ODP has just made. -/
def PoolFor (s : Storage opt τ π) (p : π) : Prop :=
  s.sharedTmoPool = some p ∨ s.sharedTmoPool = none ∧ s.odpPools p = false

/-- The timer `x` was put into the free slot `i` and counted. -/
structure Added (s t : Storage opt τ π) (i : Fin opt.maxTimers) (x : EventTimer τ π) (p : π) :
    Prop where
  timer : t.timer = Function.update s.timer i x
  valid : x.Valid
  tmoPool : x.tmoPool = some p
  poolFor : s.PoolFor p
  sharedTmoPool : t.sharedTmoPool = if opt.sharedTmoPoolEnable then some p else s.sharedTmoPool
  numTimers : t.numTimers = s.numTimers + 1
  numRings : t.numRings = if x.isRing then s.numRings + 1 else s.numRings
  reserved : t.reserved =
    if opt.sharedTmoPoolEnable then s.reserved + x.numTmoReserve else s.reserved
  fits : opt.sharedTmoPoolEnable = true → x.numTmoReserve ≤ opt.sharedTmoPoolSize - s.reserved
  ringReserved : t.ringReserved =
    if x.isRing ∧ opt.pre150 then s.ringReserved + x.numTmoReserve else s.ringReserved
  ringFits : x.isRing = true → opt.pre150 = true →
    x.numTmoReserve ≤ opt.ringTimerEventPoolSize - s.ringReserved
  ringReserve : x.isRing = true → x.numRingReserve = x.numTmoReserve
  ringTmoPool : t.ringTmoPool = s.ringTmoPool ∨ opt.pre150 = true ∧ s.ringTmoPool = none ∧
    ∃ r, t.ringTmoPool = some r ∧ s.odpPools r = false ∧ t.odpPools r = true ∧ r ≠ p
  ringPool : x.isRing = true → opt.pre150 = true → t.ringTmoPool ≠ none
  odpPools : ∀ q, s.odpPools q = true → t.odpPools q = true
  created : t.odpPools p = true

/-- Adding what still fits into a total keeps it below its bound. -/
private theorem add_le_of_le_sub {a b c : BitVec 32} (ha : a ≤ c) (hb : b ≤ c - a) :
    (a + b).toNat = a.toNat + b.toNat ∧ a + b ≤ c := by
  rw [BitVec.le_def] at ha hb ⊢
  rw [BitVec.toNat_sub_of_le (BitVec.le_def.2 ha)] at hb
  have hc := c.isLt
  have hsum : (a + b).toNat = a.toNat + b.toNat := by
    rw [BitVec.toNat_add, Nat.mod_eq_of_lt (by omega)]
  exact ⟨hsum,by omega⟩

private theorem toNat_add_one {a : BitVec 32} (h : a.toNat < 2^31) : (a + 1).toNat = a.toNat + 1 := by
  have h1 : (1 : BitVec 32).toNat = 1 := rfl
  rw [BitVec.toNat_add, h1, Nat.mod_eq_of_lt (by omega)]

/-- A timer count is at most the number of slots. -/
theorem Consistent.numTimers_lt (h : s.Consistent) : s.numTimers.toNat < 2^31 := by
  have hle := sum_timer_le s.timer EventTimer.Valid
  have hlt := opt.maxTimers_lt
  rw [h.numTimers]
  omega

theorem Consistent.numRings_lt (h : s.Consistent) : s.numRings.toNat < 2^31 := by
  have hle := sum_timer_le s.timer EventTimer.Ring
  have hlt := opt.maxTimers_lt
  rw [h.numRings]
  omega

theorem Added.ringPool_mono (h : Added s t i x p) {q : π} (hq : s.ringTmoPool = some q) :
    t.ringTmoPool = some q := by
  rcases h.ringTmoPool with hs | ⟨-,hs,-⟩
  · rw [hs, hq]
  · rw [hs] at hq
    cases hq

/-- A timer that is put into a free slot and counted keeps the invariant. -/
theorem Added.consistent (hc : s.Consistent) (hfree : ¬(s.timer i).Valid)
    (h : Added s t i x p) : t.Consistent := by
  have hfreer : ¬(s.timer i).Ring := fun hr => hfree hr.1
  have hself : t.timer i = x := by rw [h.timer, Function.update_self]
  have hsame : ∀ j, j ≠ i → t.timer j = s.timer j := fun j hj => by
    rw [h.timer, Function.update_of_ne hj]
  have hxr : x.Ring ↔ x.isRing = true := ⟨fun hr => hr.2,fun hr => ⟨h.valid,hr⟩⟩
  -- the pool of the new timer is the shared pool, or no pool of another timer
  have hpool : t.ringTmoPool ≠ some p := by
    intro hr
    rcases h.ringTmoPool with hs | ⟨-,-,r,hs,-,-,hne⟩
    · rw [hs] at hr
      rcases h.poolFor with hp | ⟨-,hnew⟩
      · exact (hc.sharedPool p hp).2.2 hr
      · rw [(hc.ringPool p hr).2] at hnew
        cases hnew
    · rw [hs] at hr
      cases hr
      exact hne rfl
  have hringNew : ∀ q, s.odpPools q = true → s.ringTmoPool ≠ some q → t.ringTmoPool ≠ some q := by
    intro q hlive hne hr
    rcases h.ringTmoPool with hs | ⟨-,-,r,hs,hnew,-⟩
    · exact hne (hs ▸ hr)
    · rw [hs] at hr
      cases hr
      rw [hlive] at hnew
      cases hnew
  constructor
  case numTimers =>
    have := sum_timer_update s.timer (fun y => if y.Valid then 1 else 0) i x
    rw [if_neg hfree, if_pos h.valid] at this
    rw [h.numTimers, toNat_add_one hc.numTimers_lt, hc.numTimers, h.timer]
    omega
  case numRings =>
    have := sum_timer_update s.timer (fun y => if y.Ring then 1 else 0) i x
    rw [if_neg hfreer, if_congr hxr rfl rfl] at this
    rw [h.numRings, h.timer]
    split
    · rw [if_pos ‹_›] at this
      rw [toNat_add_one hc.numRings_lt, hc.numRings]
      omega
    · rw [if_neg ‹_›] at this
      rw [hc.numRings]
      omega
  case reserved =>
    have := sum_timer_update s.timer (EventTimer.reserve EventTimer.Valid) i x
    simp only [EventTimer.reserve, if_neg hfree, if_pos h.valid] at this
    have hs := hc.reserved
    rw [h.reserved, h.timer]
    simp only [EventTimer.reserve] at hs ⊢
    split
    · rw [if_pos ‹_›] at hs
      rw [(add_le_of_le_sub hc.reservedLe (h.fits ‹_›)).1]
      omega
    · rwa [if_neg ‹_›] at hs
  case ringReserved =>
    have := sum_timer_update s.timer (EventTimer.reserve EventTimer.Ring) i x
    simp only [EventTimer.reserve, if_neg hfreer, if_congr hxr rfl rfl] at this
    have hs := hc.ringReserved
    rw [h.ringReserved, h.timer]
    simp only [EventTimer.reserve] at hs ⊢
    by_cases hp : opt.pre150 = true
    · rw [if_pos hp] at hs ⊢
      by_cases hr : x.isRing = true
      · rw [if_pos hr] at this
        rw [if_pos ⟨hr,hp⟩, (add_le_of_le_sub hc.ringReservedLe (h.ringFits hr hp)).1]
        omega
      · rw [if_neg hr] at this
        rw [if_neg fun hb => hr hb.1]
        omega
    · rw [if_neg hp] at hs ⊢
      rwa [if_neg fun hb => hp hb.2]
  case reservedLe =>
    rw [h.reserved]
    split
    · exact (add_le_of_le_sub hc.reservedLe (h.fits ‹_›)).2
    · exact hc.reservedLe
  case ringReservedLe =>
    rw [h.ringReserved]
    split
    · exact (add_le_of_le_sub hc.ringReservedLe (h.ringFits (‹_ ∧ _› : _ ∧ _).1 (‹_ ∧ _› : _ ∧ _).2)).2
    · exact hc.ringReservedLe
  case free =>
    intro j hv
    by_cases hj : j = i
    · subst hj
      rw [hself] at hv
      exact absurd h.valid hv
    · rw [hsame j hj] at hv ⊢
      exact hc.free j hv
  case pool =>
    intro j hv
    by_cases hj : j = i
    · subst hj
      rw [hself]
      exact ⟨p,h.tmoPool,h.created,fun he => by rw [h.sharedTmoPool, if_pos he],hpool⟩
    · rw [hsame j hj] at hv ⊢
      obtain ⟨q,hq,hlive,hshared,hring⟩ := hc.pool j hv
      refine ⟨q,hq,h.odpPools q hlive,fun he => ?_,hringNew q hlive hring⟩
      rw [h.sharedTmoPool, if_pos he]
      rcases h.poolFor with hp | ⟨hp,-⟩
      · exact hp.symm.trans (hshared he)
      · rw [hshared he] at hp
        cases hp
  case distinct =>
    intro he j k q hj hk
    have hold : ∀ l, l ≠ i → (t.timer l).tmoPool = some q → q ≠ p := by
      rintro l hl hq rfl
      rw [hsame l hl] at hq
      have hv : (s.timer l).Valid := by
        by_contra hv
        rw [hc.free l hv] at hq
        cases hq
      obtain ⟨q',hq',hlive,-⟩ := hc.pool l hv
      rw [hq] at hq'
      cases hq'
      rcases h.poolFor with hp | ⟨-,hnew⟩
      · rw [(hc.sharedPool _ hp).1] at he
        cases he
      · rw [hlive] at hnew
        cases hnew
    by_cases hji : j = i
    · subst hji
      by_cases hkj : k = j
      · exact hkj.symm
      rw [hself, h.tmoPool] at hj
      cases hj
      exact absurd rfl (hold k hkj hk)
    · by_cases hki : k = i
      · subst hki
        rw [hself, h.tmoPool] at hk
        cases hk
        exact absurd rfl (hold j hji hj)
      · rw [hsame j hji] at hj
        rw [hsame k hki] at hk
        exact hc.distinct he j k q hj hk
  case sharedPool =>
    intro q hq
    rw [h.sharedTmoPool] at hq
    split at hq
    · cases hq
      exact ⟨‹_›,h.created,hpool⟩
    · obtain ⟨he,hlive,hring⟩ := hc.sharedPool q hq
      exact ⟨he,h.odpPools q hlive,hringNew q hlive hring⟩
  case ringPool =>
    intro q hq
    rcases h.ringTmoPool with hs | ⟨hpre,-,r,hs,-,hlive,-⟩
    · rw [hs] at hq
      exact ⟨(hc.ringPool q hq).1,h.odpPools q (hc.ringPool q hq).2⟩
    · rw [hs] at hq
      cases hq
      exact ⟨hpre,hlive⟩
  case ring =>
    intro j hr
    by_cases hj : j = i
    · subst hj
      rw [hself] at hr ⊢
      exact ⟨h.ringPool hr.2,h.ringReserve hr.2⟩
    · rw [hsame j hj] at hr ⊢
      refine ⟨fun hpre => ?_,(hc.ring j hr).2⟩
      obtain ⟨q,hq⟩ := Option.ne_none_iff_exists'.1 ((hc.ring j hr).1 hpre)
      rw [h.ringPool_mono hq]
      exact Option.some_ne_none q

/-- The valid timer in slot `i` was deleted and counted out. -/
structure Removed (s t : Storage opt τ π) (i : Fin opt.maxTimers) : Prop where
  timer : ∃ y : EventTimer τ π, y.odpTmrPool = none ∧ y.tmoPool = none ∧
    t.timer = Function.update s.timer i y
  numTimers : t.numTimers = s.numTimers - 1
  numRings : t.numRings = if (s.timer i).isRing then s.numRings - 1 else s.numRings
  reserved : t.reserved =
    if opt.sharedTmoPoolEnable then s.reserved - (s.timer i).numTmoReserve else s.reserved
  ringReserved : t.ringReserved = if (s.timer i).isRing ∧ opt.pre150 then
    s.ringReserved - (s.timer i).numTmoReserve else s.ringReserved
  ringTmoPool : t.ringTmoPool = s.ringTmoPool
  sharedTmoPool : t.sharedTmoPool = s.sharedTmoPool ∨ t.numTimers = 0 ∧ t.sharedTmoPool = none
  odpPools : ∀ p, s.odpPools p = true →
    ((s.timer i).tmoPool = some p → opt.sharedTmoPoolEnable = true) →
    (s.sharedTmoPool = some p → t.sharedTmoPool = some p) → t.odpPools p = true

private theorem toNat_sub_one {a : BitVec 32} (h : 1 ≤ a.toNat) : (a - 1).toNat = a.toNat - 1 := by
  rw [BitVec.toNat_sub_of_le (by rw [BitVec.le_def]; simpa using h)]
  simp

/-- What a part has reserved can be taken from the total. -/
private theorem toNat_sub_le {a b : BitVec 32} (h : b.toNat ≤ a.toNat) :
    (a - b).toNat = a.toNat - b.toNat :=
  BitVec.toNat_sub_of_le (BitVec.le_def.2 h)

theorem Removed.consistent (hc : s.Consistent) (hvalid : (s.timer i).Valid)
    (h : Removed s t i) : t.Consistent := by
  obtain ⟨y,hpool,htmo,ht⟩ := h.timer
  have hy : ¬y.Valid := by simp [EventTimer.Valid, hpool]
  have hyr : ¬y.Ring := fun hr => hy hr.1
  have hring : (s.timer i).Ring ↔ (s.timer i).isRing = true :=
    ⟨fun hr => hr.2,fun hr => ⟨hvalid,hr⟩⟩
  have hne : ∀ j, (t.timer j).Valid → j ≠ i := by
    rintro j hv rfl
    rw [ht, Function.update_self] at hv
    exact hy hv
  have hsame : ∀ j, j ≠ i → t.timer j = s.timer j := fun j hj => by
    rw [ht, Function.update_of_ne hj]
  have hcount := sum_timer_update s.timer (fun z => if z.Valid then 1 else 0) i y
  rw [if_pos hvalid, if_neg hy, ← hc.numTimers] at hcount
  have hnum : t.numTimers.toNat = s.numTimers.toNat - 1 := by
    rw [h.numTimers, toNat_sub_one (by omega)]
  have hsum : t.numTimers.toNat = ∑ j, if (t.timer j).Valid then 1 else 0 := by
    rw [hnum, ht]
    omega
  -- the shared pool is destroyed only when no timer is left
  have hshared : ∀ j, (t.timer j).Valid → t.sharedTmoPool = s.sharedTmoPool := by
    intro j hv
    rcases h.sharedTmoPool with hs | ⟨hz,-⟩
    · exact hs
    · have hle := le_sum (fun k => if (t.timer k).Valid then 1 else 0) j
      rw [← hsum, hz] at hle
      simp [hv] at hle
  constructor
  case numTimers => exact hsum
  case numRings =>
    have := sum_timer_update s.timer (fun z => if z.Ring then 1 else 0) i y
    rw [if_neg hyr, if_congr hring rfl rfl] at this
    rw [h.numRings, ht]
    have hs := hc.numRings
    split
    · rw [if_pos ‹_›] at this
      rw [toNat_sub_one (by omega)]
      omega
    · rw [if_neg ‹_›] at this
      omega
  case reserved =>
    have := sum_timer_update s.timer (EventTimer.reserve EventTimer.Valid) i y
    simp only [EventTimer.reserve, if_pos hvalid, if_neg hy] at this
    have hs := hc.reserved
    rw [h.reserved, ht]
    simp only [EventTimer.reserve] at hs ⊢
    split
    · rw [if_pos ‹_›] at hs
      rw [toNat_sub_le (by omega)]
      omega
    · rwa [if_neg ‹_›] at hs
  case ringReserved =>
    have := sum_timer_update s.timer (EventTimer.reserve EventTimer.Ring) i y
    simp only [EventTimer.reserve, if_neg hyr, if_congr hring rfl rfl] at this
    have hs := hc.ringReserved
    rw [h.ringReserved, ht]
    simp only [EventTimer.reserve] at hs ⊢
    by_cases hp : opt.pre150 = true
    · rw [if_pos hp] at hs ⊢
      by_cases hr : (s.timer i).isRing = true
      · rw [if_pos hr] at this
        rw [if_pos ⟨hr,hp⟩, toNat_sub_le (by omega)]
        omega
      · rw [if_neg hr] at this
        rw [if_neg fun hb => hr hb.1]
        omega
    · rw [if_neg hp] at hs ⊢
      rwa [if_neg fun hb => hp hb.2]
  case reservedLe =>
    have hle := BitVec.le_def.1 hc.reservedLe
    rw [h.reserved, BitVec.le_def]
    split
    · have := sum_timer_update s.timer (EventTimer.reserve EventTimer.Valid) i y
      have hs := hc.reserved
      rw [if_pos ‹_›] at hs
      simp only [EventTimer.reserve, if_pos hvalid, if_neg hy] at this hs
      rw [toNat_sub_le (by omega)]
      omega
    · exact hle
  case ringReservedLe =>
    have hle := BitVec.le_def.1 hc.ringReservedLe
    rw [h.ringReserved, BitVec.le_def]
    split
    · have hb : (s.timer i).isRing = true ∧ opt.pre150 = true := ‹_›
      have := sum_timer_update s.timer (EventTimer.reserve EventTimer.Ring) i y
      have hs := hc.ringReserved
      rw [if_pos hb.2] at hs
      simp only [EventTimer.reserve, if_neg hyr, if_pos (hring.2 hb.1)] at this hs
      rw [toNat_sub_le (by omega)]
      omega
    · exact hle
  case free =>
    intro j hv
    by_cases hj : j = i
    · rw [hj, ht, Function.update_self, htmo]
    · rw [hsame j hj] at hv ⊢
      exact hc.free j hv
  case pool =>
    intro j hv
    have hji := hne j hv
    have hsh := hshared j hv
    rw [hsame j hji] at hv ⊢
    obtain ⟨p,hp,hlive,hs,hr⟩ := hc.pool j hv
    refine ⟨p,hp,h.odpPools p hlive (fun hi => ?_) (fun he => hsh.trans he),
      fun he => hsh.trans (hs he),h.ringTmoPool ▸ hr⟩
    by_contra he
    exact hji (hc.distinct (Bool.not_eq_true _ ▸ he) j i p hp hi)
  case distinct =>
    intro he j k p hj hk
    have hji : j ≠ i := by
      rintro rfl
      rw [ht, Function.update_self, htmo] at hj
      cases hj
    have hki : k ≠ i := by
      rintro rfl
      rw [ht, Function.update_self, htmo] at hk
      cases hk
    rw [hsame j hji] at hj
    rw [hsame k hki] at hk
    exact hc.distinct he j k p hj hk
  case sharedPool =>
    intro p hp
    rcases h.sharedTmoPool with hs | ⟨-,hs⟩
    · obtain ⟨he,hlive,hr⟩ := hc.sharedPool p (hs ▸ hp)
      exact ⟨he,h.odpPools p hlive (fun _ => he) (fun _ => hp),h.ringTmoPool ▸ hr⟩
    · rw [hs] at hp
      cases hp
  case ringPool =>
    intro p hp
    rw [h.ringTmoPool] at hp
    obtain ⟨hpre,hlive⟩ := hc.ringPool p hp
    refine ⟨hpre,h.odpPools p hlive (fun hi => ?_) fun hs => absurd hp (hc.sharedPool p hs).2.2⟩
    obtain ⟨q,hq,-,-,hr⟩ := hc.pool i hvalid
    rw [hi] at hq
    cases hq
    exact absurd hp hr
  case ring =>
    intro j hr
    have hj := hsame j (hne j hr.1)
    rw [hj] at hr ⊢
    rw [h.ringTmoPool]
    exact hc.ring j hr

end Storage
end EmOdp.Timer
