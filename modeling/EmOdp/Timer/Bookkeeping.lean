import EmOdp.Lib.CoreSum
import EmOdp.Timer.Storage

/-! What the counters and the pools of the timer storage say about its timers, and
that a slot which stays free, a new timer and a deleted timer keep it so. -/
namespace EmOdp.Timer
open Lib
variable {opt : Options} {τ π : Type}

namespace EventTimer

def Valid (t : EventTimer τ π) : Prop := t.odpTmrPool.isSome = true

instance (t : EventTimer τ π) : Decidable t.Valid := inferInstanceAs (Decidable (_ = _))

def Ring (t : EventTimer τ π) : Prop := t.Valid ∧ t.isRing = true

instance (t : EventTimer τ π) : Decidable t.Ring := inferInstanceAs (Decidable (_ ∧ _))

/-- The timeouts reserved by a timer for which `p` holds. -/
def reserve (p : EventTimer τ π → Prop) [DecidablePred p] (t : EventTimer τ π) : Nat :=
  if p t then t.numTmoReserve.toNat else 0

end EventTimer

namespace Storage

/-- Timer `i` is valid and its timeout handles come from the shared pool. -/
def UsesShared [DecidableEq π] (s : Storage opt τ π) (i : Fin opt.maxTimers) : Prop :=
  (s.timer i).Valid ∧ s.sharedTmoPool ≠ none ∧ (s.timer i).tmoPool = s.sharedTmoPool

instance [DecidableEq π] (s : Storage opt τ π) : DecidablePred s.UsesShared :=
  fun _ => inferInstanceAs (Decidable (_ ∧ _ ∧ _))

/-- Timer `i` is a valid ring and its timeout events come from the pool of all rings. -/
def UsesRingPool (s : Storage opt τ π) (i : Fin opt.maxTimers) : Prop :=
  (s.timer i).Ring ∧ s.ringTmoPool ≠ none

instance (s : Storage opt τ π) : DecidablePred s.UsesRingPool :=
  fun _ => inferInstanceAs (Decidable (_ ∧ _))

/-- The bookkeeping of the timers: the counters count the valid timers, the reserved
counters add up what the timers of a shared pool have reserved, and every pool that a
valid timer uses exists. -/
structure Books [DecidableEq π] (s : Storage opt τ π) : Prop where
  numTimers : s.numTimers.toNat = (Finset.univ.filter fun i => (s.timer i).Valid).card
  numRings : s.numRings.toNat = (Finset.univ.filter fun i => (s.timer i).Ring).card
  reserved : s.reserved.toNat =
    ∑ i ∈ Finset.univ.filter s.UsesShared, (s.timer i).numTmoReserve.toNat
  ringReserved : s.ringReserved.toNat =
    ∑ i ∈ Finset.univ.filter s.UsesRingPool, (s.timer i).numTmoReserve.toNat
  pool : ∀ i, (s.timer i).Valid → ∃ p, (s.timer i).tmoPool = some p ∧ s.odpPools p = true ∧
    (opt.sharedTmoPoolEnable = true → s.sharedTmoPool = some p)
  ringPool : opt.pre150 = true → ∀ i, (s.timer i).Ring →
    ∃ p, s.ringTmoPool = some p ∧ s.odpPools p = true

/-- The invariant behind the bookkeeping. -/
structure Consistent (s : Storage opt τ π) : Prop where
  numTimers : s.numTimers.toNat = ∑ i, if (s.timer i).Valid then 1 else 0
  numRings : s.numRings.toNat = ∑ i, if (s.timer i).Ring then 1 else 0
  reserved : s.reserved.toNat =
    if opt.sharedTmoPoolEnable then ∑ i, (s.timer i).reserve EventTimer.Valid else 0
  ringReserved : s.ringReserved.toNat =
    if opt.pre150 then ∑ i, (s.timer i).reserve EventTimer.Ring else 0
  reservedLe : s.reserved ≤ opt.sharedTmoPoolSize
  ringReservedLe : s.ringReserved ≤ opt.ringTimerEventPoolSize
  free : ∀ i, ¬(s.timer i).Valid → (s.timer i).tmoPool = none
  pool : ∀ i, (s.timer i).Valid → ∃ p, (s.timer i).tmoPool = some p ∧ s.odpPools p = true ∧
    (opt.sharedTmoPoolEnable = true → s.sharedTmoPool = some p) ∧ s.ringTmoPool ≠ some p
  distinct : opt.sharedTmoPoolEnable = false → ∀ i j p, (s.timer i).tmoPool = some p →
    (s.timer j).tmoPool = some p → i = j
  sharedPool : ∀ p, s.sharedTmoPool = some p →
    opt.sharedTmoPoolEnable = true ∧ s.odpPools p = true ∧ s.ringTmoPool ≠ some p
  ringPool : ∀ p, s.ringTmoPool = some p → opt.pre150 = true ∧ s.odpPools p = true
  ring : ∀ i, (s.timer i).Ring → (opt.pre150 = true → s.ringTmoPool ≠ none) ∧
    (s.timer i).numRingReserve = (s.timer i).numTmoReserve

/-- The slot `i` was free and is free; no counter has changed. At most the shared pool
has been created. -/
structure SlotFree (s t : Storage opt τ π) (i : Fin opt.maxTimers) : Prop where
  timer : ∃ x : EventTimer τ π, x.odpTmrPool = none ∧ x.tmoPool = none ∧
    t.timer = Function.update s.timer i x
  numTimers : t.numTimers = s.numTimers
  numRings : t.numRings = s.numRings
  reserved : t.reserved = s.reserved
  ringReserved : t.ringReserved = s.ringReserved
  numRingCreateCalls : t.numRingCreateCalls = s.numRingCreateCalls
  ringTmoPool : t.ringTmoPool = s.ringTmoPool
  sharedTmoPool : t.sharedTmoPool = s.sharedTmoPool ∨ opt.sharedTmoPoolEnable = true ∧
    s.sharedTmoPool = none ∧ ∃ p, t.sharedTmoPool = some p ∧ t.odpPools p = true ∧
      s.odpPools p = false
  odpPools : ∀ p, s.odpPools p = true → t.odpPools p = true

variable {s t : Storage opt τ π} {i : Fin opt.maxTimers}

/-- Changing one slot changes a total over the slots by that slot's share. -/
theorem sum_timer_update (f : Fin opt.maxTimers → EventTimer τ π) (g : EventTimer τ π → Nat)
    (i : Fin opt.maxTimers) (x : EventTimer τ π) :
    ∑ j, g (Function.update f i x j) + g (f i) = ∑ j, g (f j) + g x := by
  have h := sum_update (fun j => g (f j)) i (g x)
  have hcomp : (fun j => g (Function.update f i x j)) = Function.update (fun j => g (f j)) i (g x) :=
    Function.comp_update g f i x
  rw [hcomp]
  exact h

theorem sum_timer_le (f : Fin opt.maxTimers → EventTimer τ π) (p : EventTimer τ π → Prop)
    [DecidablePred p] : ∑ j, (if p (f j) then 1 else 0) ≤ opt.maxTimers := by
  have h : ∀ j ∈ (Finset.univ : Finset (Fin opt.maxTimers)), (if p (f j) then 1 else 0) ≤ 1 := by
    intro j _
    split <;> omega
  simpa using Finset.sum_le_card_nsmul _ _ 1 h

theorem Consistent.books [DecidableEq π] (h : s.Consistent) : s.Books := by
  refine ⟨?_,?_,?_,?_,?_,?_⟩
  · rw [h.numTimers, Finset.card_filter]
  · rw [h.numRings, Finset.card_filter]
  · rw [h.reserved, Finset.sum_filter]
    split
    · -- with a shared pool every valid timer uses it
      refine Finset.sum_congr rfl fun i _ => ?_
      refine if_congr ⟨fun hv => ?_,fun hu => hu.1⟩ rfl rfl
      obtain ⟨p,hp,-,hshared,-⟩ := h.pool i hv
      have hs := hshared ‹_›
      exact ⟨hv,by simp [hs],hp.trans hs.symm⟩
    · symm
      apply Finset.sum_eq_zero
      intro i _
      refine if_neg fun hu => ?_
      obtain ⟨p,hp⟩ := Option.ne_none_iff_exists'.1 hu.2.1
      exact absurd (h.sharedPool p hp).1 ‹_›
  · rw [h.ringReserved, Finset.sum_filter]
    split
    · refine Finset.sum_congr rfl fun i _ => ?_
      exact if_congr ⟨fun hr => ⟨hr,(h.ring i hr).1 ‹_›⟩,fun hu => hu.1⟩ rfl rfl
    · symm
      apply Finset.sum_eq_zero
      intro i _
      refine if_neg fun hu => ?_
      obtain ⟨p,hp⟩ := Option.ne_none_iff_exists'.1 hu.2
      exact absurd (h.ringPool p hp).1 ‹_›
  · intro i hv
    obtain ⟨p,hp,hlive,hshared,-⟩ := h.pool i hv
    exact ⟨p,hp,hlive,hshared⟩
  · intro hpre i hr
    obtain ⟨p,hp⟩ := Option.ne_none_iff_exists'.1 ((h.ring i hr).1 hpre)
    exact ⟨p,hp,(h.ringPool p hp).2⟩

theorem Initial.consistent (hi : s.Initial) : s.Consistent := by
  obtain ⟨odpPools,rfl⟩ := hi
  have hvalid : ∀ i, ¬((timerInit odpPools : Storage opt τ π).timer i).Valid :=
    fun i hv => Bool.noConfusion hv
  have hring : ∀ i, ¬((timerInit odpPools : Storage opt τ π).timer i).Ring := fun i hr => hvalid i hr.1
  constructor
  case numTimers =>
    simp only [hvalid, if_false, Finset.sum_const_zero]
    rfl
  case numRings =>
    simp only [hring, if_false, Finset.sum_const_zero]
    rfl
  case reserved =>
    simp only [EventTimer.reserve, hvalid, if_false, Finset.sum_const_zero, ite_self]
    rfl
  case ringReserved =>
    simp only [EventTimer.reserve, hring, if_false, Finset.sum_const_zero, ite_self]
    rfl
  case reservedLe => simp [BitVec.le_def, timerInit]
  case ringReservedLe => simp [BitVec.le_def, timerInit]
  case free => exact fun i _ => rfl
  case pool => exact fun i hv => absurd hv (hvalid i)
  case distinct =>
    intro _ i j p hp _
    cases hp
  case sharedPool =>
    intro p hp
    cases hp
  case ringPool =>
    intro p hp
    cases hp
  case ring => exact fun i hr => absurd hr (hring i)

/-- A create that fails without having counted its timer keeps the invariant. -/
theorem SlotFree.consistent (hc : s.Consistent) (hfree : ¬(s.timer i).Valid)
    (h : SlotFree s t i) : t.Consistent := by
  obtain ⟨x,hpool,htmo,ht⟩ := h.timer
  have hx : ¬x.Valid := by simp [EventTimer.Valid, hpool]
  have hxr : ¬x.Ring := fun hr => hx hr.1
  have hfreer : ¬(s.timer i).Ring := fun hr => hfree hr.1
  have hne : ∀ j, (t.timer j).Valid → j ≠ i := by
    rintro j hv rfl
    rw [ht, Function.update_self] at hv
    exact hx hv
  have hsame : ∀ j, j ≠ i → t.timer j = s.timer j := fun j hj => by
    rw [ht, Function.update_of_ne hj]
  constructor
  case numTimers =>
    have := sum_timer_update s.timer (fun y => if y.Valid then 1 else 0) i x
    rw [if_neg hfree, if_neg hx] at this
    rw [h.numTimers, hc.numTimers, ht]
    omega
  case numRings =>
    have := sum_timer_update s.timer (fun y => if y.Ring then 1 else 0) i x
    rw [if_neg hfreer, if_neg hxr] at this
    rw [h.numRings, hc.numRings, ht]
    omega
  case reserved =>
    have := sum_timer_update s.timer (EventTimer.reserve EventTimer.Valid) i x
    simp only [EventTimer.reserve, if_neg hfree, if_neg hx] at this
    rw [h.reserved, hc.reserved, ht]
    simp only [EventTimer.reserve]
    split <;> omega
  case ringReserved =>
    have := sum_timer_update s.timer (EventTimer.reserve EventTimer.Ring) i x
    simp only [EventTimer.reserve, if_neg hfreer, if_neg hxr] at this
    rw [h.ringReserved, hc.ringReserved, ht]
    simp only [EventTimer.reserve]
    split <;> omega
  case reservedLe => exact h.reserved ▸ hc.reservedLe
  case ringReservedLe => exact h.ringReserved ▸ hc.ringReservedLe
  case free =>
    intro j hv
    by_cases hj : j = i
    · rw [hj, ht, Function.update_self, htmo]
    · rw [hsame j hj] at hv ⊢
      exact hc.free j hv
  case pool =>
    intro j hv
    have hj := hsame j (hne j hv)
    rw [hj] at hv ⊢
    obtain ⟨p,hp,hlive,hshared,hring⟩ := hc.pool j hv
    refine ⟨p,hp,h.odpPools p hlive,fun he => ?_,h.ringTmoPool ▸ hring⟩
    rcases h.sharedTmoPool with hs | ⟨-,hs,-⟩
    · rw [hs]
      exact hshared he
    · rw [hshared he] at hs
      cases hs
  case distinct =>
    intro he j k p hj hk
    have hji : j ≠ i := by
      rintro rfl
      rw [ht, Function.update_self, htmo] at hj
      cases hj
    have hki : k ≠ i := by
      rintro rfl
      rw [ht, Function.update_self, htmo] at hk
      cases hk
    rw [hsame j hji] at hj
    rw [hsame k hki] at hk
    exact hc.distinct he j k p hj hk
  case sharedPool =>
    intro p hp
    rw [h.ringTmoPool]
    rcases h.sharedTmoPool with hs | ⟨he,-,p',hs,hlive,hnew⟩
    · rw [hs] at hp
      obtain ⟨he,hlive,hring⟩ := hc.sharedPool p hp
      exact ⟨he,h.odpPools p hlive,hring⟩
    · obtain rfl : p' = p := by
        rw [hs] at hp
        cases hp
        rfl
      refine ⟨he,hlive,fun hring => ?_⟩
      rw [(hc.ringPool p' hring).2] at hnew
      cases hnew
  case ringPool =>
    intro p hp
    rw [h.ringTmoPool] at hp
    exact ⟨(hc.ringPool p hp).1,h.odpPools p (hc.ringPool p hp).2⟩
  case ring =>
    intro j hr
    have hj := hsame j (hne j hr.1)
    rw [hj] at hr ⊢
    rw [h.ringTmoPool]
    exact hc.ring j hr

end Storage
end EmOdp.Timer
