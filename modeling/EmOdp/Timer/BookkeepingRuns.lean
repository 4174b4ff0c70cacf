import EmOdp.Timer.CreateCases

/-! The bookkeeping of the timers over runs of creates and deletes. -/
namespace EmOdp.Timer
open Lib
variable {opt : Options} {τ π : Type}

namespace Storage
variable {s t : Storage opt τ π} {i : Fin opt.maxTimers}

theorem isTimerValid_some {tmr : BitVec 64} (h : s.isTimerValid tmr = some i) :
    (s.timer i).Valid ∧ (s.timer i).tmoPool ≠ none := by
  simp only [isTimerValid] at h
  repeat' split at h
  all_goals cases h
  rename_i hnone
  simpa [EventTimer.Valid, Option.isSome_iff_ne_none] using hnone

section
variable [DecidableEq π]

omit [DecidableEq π] in
theorem numRings_ne_zero (hc : s.Consistent) (hr : (s.timer i).Ring) : s.numRings ≠ 0 := by
  intro hz
  have hle := le_sum (fun j => if (s.timer j).Ring then 1 else 0) i
  rw [← hc.numRings, hz] at hle
  simp [hr] at hle

/-- The last timer takes the shared pool with it. -/
theorem Removed.deleteSharedPool {u : Storage opt τ π} (h : Removed s u i)
    (hshared : u.sharedTmoPool = s.sharedTmoPool) (rv : Status) (ok : Bool) :
    Removed s (u.deleteSharedPool rv ok).1 i := by
  rw [Storage.deleteSharedPool]
  split
  · split
    · exact h
    · rename_i hlast _
      obtain ⟨p,hp⟩ := Option.ne_none_iff_exists'.1 hlast.2
      rw [hp]
      refine ⟨h.timer,h.numTimers,h.numRings,h.reserved,h.ringReserved,h.ringTmoPool,
        .inr ⟨hlast.1,rfl⟩,fun q hq htmo hs => ?_⟩
      have hne : q ≠ p := by
        rintro rfl
        exact absurd (hs (hshared.symm.trans hp)) (by simp)
      show Function.update u.odpPools p false q = true
      rw [Function.update_of_ne hne]
      exact h.odpPools q hq htmo fun hsq => hshared.trans hsq
  · exact h

/-- The first part of `em_timer_delete`: only the slot and a pool of its own go. -/
theorem deletePools_eq (hc : s.Consistent) (hv : (s.timer i).Valid) (poolOk : Bool) :
    ∃ odpPools : π → Bool,
      (∀ p, s.odpPools p = true → ((s.timer i).tmoPool = some p → opt.sharedTmoPoolEnable = true) →
        odpPools p = true) ∧
      (if (s.timer i).tmoPool ≠ s.sharedTmoPool then s.odpPoolDestroy (s.timer i).tmoPool poolOk
        else s).setTimer i (fun t => { t with tmoPool := none, odpTmrPool := none }) =
      { s with
        timer := Function.update s.timer i { s.timer i with tmoPool := none, odpTmrPool := none }
        odpPools } := by
  obtain ⟨p,hp,-,hshared,-⟩ := hc.pool i hv
  split
  · rename_i hown
    rw [hp]
    cases poolOk with
    | false => exact ⟨s.odpPools,fun _ hq _ => hq,rfl⟩
    | true =>
      refine ⟨Function.update s.odpPools p false,fun q hq htmo => ?_,rfl⟩
      have hne : q ≠ p := by
        rintro rfl
        exact hown (hp.trans (hshared (htmo rfl)).symm)
      rwa [Function.update_of_ne hne]
  · exact ⟨s.odpPools,fun _ hq _ => hq,rfl⟩

omit [DecidableEq π] in
/-- The ring part of `em_timer_delete` counts out a ring. -/
theorem deleteRing_eq (hc : s.Consistent) (hv : (s.timer i).Valid) (odpPools : π → Bool) :
    ∃ y : EventTimer τ π, y.odpTmrPool = none ∧ y.tmoPool = none ∧
      y.numTmoReserve = (s.timer i).numTmoReserve ∧
      ({ s with
        timer := Function.update s.timer i { s.timer i with tmoPool := none, odpTmrPool := none }
        odpPools } : Storage opt τ π).deleteRing i =
      { s with
        timer := Function.update s.timer i y, odpPools
        numRings := if (s.timer i).isRing then s.numRings - 1 else s.numRings
        ringReserved := if (s.timer i).isRing ∧ opt.pre150 then
          s.ringReserved - (s.timer i).numTmoReserve else s.ringReserved } := by
  simp only [deleteRing, Function.update_self, setTimer, Function.update_idem]
  by_cases hr : (s.timer i).isRing = true
  · refine ⟨{ s.timer i with tmoPool := none, odpTmrPool := none, numRingReserve := 0 },rfl,rfl,rfl,?_⟩
    rw [if_pos ⟨hr,numRings_ne_zero hc ⟨hv,hr⟩⟩, if_pos hr, (hc.ring i ⟨hv,hr⟩).2]
    simp only [hr, true_and]
  · refine ⟨{ s.timer i with tmoPool := none, odpTmrPool := none },rfl,rfl,rfl,?_⟩
    rw [if_neg fun hb => hr hb.1, if_neg hr, if_neg fun hb => hr hb.1]

/-- What `em_timer_delete` does to the valid timer in slot `i`. -/
theorem emTimerDelete_removed (hc : s.Consistent) {tmr : BitVec 64}
    (h : s.isTimerValid tmr = some i) (poolOk sharedOk : Bool) :
    Removed s (s.emTimerDelete tmr poolOk sharedOk).1 i := by
  have hv := (isTimerValid_some h).1
  obtain ⟨odpPools,hold,he⟩ := deletePools_eq hc hv poolOk
  obtain ⟨y,hy,hytmo,hres,hring⟩ := deleteRing_eq hc hv odpPools
  simp only [emTimerDelete, h, he, hring]
  refine Removed.deleteSharedPool ?_ ?_ _ _
  · by_cases hs : s.sharedTmoPool ≠ none
    · obtain ⟨p,hp⟩ := Option.ne_none_iff_exists'.1 hs
      have hopt := (hc.sharedPool p hp).1
      rw [if_pos hs]
      refine ⟨⟨{ y with numTmoReserve := 0 },hy,hytmo,?_⟩,rfl,rfl,?_,rfl,rfl,.inl rfl,
        fun q hq htmo _ => hold q hq htmo⟩
      · simp only [setTimer, Function.update_self, Function.update_idem]
      · simp only [Function.update_self, hres, if_pos hopt]
    · rw [if_neg hs]
      have hopt : ¬opt.sharedTmoPoolEnable = true := fun hopt => by
        obtain ⟨p,-,-,hp,-⟩ := hc.pool i hv
        exact hs (by rw [hp hopt]; exact Option.some_ne_none p)
      exact ⟨⟨y,hy,hytmo,rfl⟩,rfl,rfl,(if_neg hopt).symm,rfl,rfl,.inl rfl,fun q hq htmo _ => hold q hq htmo⟩
  · split <;> rfl

/-- A create that returns `EM_TIMER_UNDEF` changes no counter, and every slot has the pools
it had. -/
def Unchanged (s t : Storage opt τ π) : Prop :=
  t.counters = s.counters ∧ ∀ i, (t.timer i).odpTmrPool = (s.timer i).odpTmrPool ∧
    (t.timer i).tmoPool = (s.timer i).tmoPool

omit [DecidableEq π] in
theorem CreateResult.consistent (hc : s.Consistent) {late : Prop}
    {r : Storage opt τ π × Except Status (Fin opt.maxTimers)} (h : CreateResult s late r)
    (hlate : ¬late) : r.1.Consistent := by
  cases h with
  | refused => exact hc
  | failed _ hfree hs => exact hs.consistent hc hfree
  | leaked _ hl => exact absurd hl hlate
  | created hfree ha => exact ha.consistent hc hfree

omit [DecidableEq π] in
/-- A create that fails leaves everything as it was exactly when it does not fail late. -/
theorem CreateResult.unchanged_iff (hc : s.Consistent) {late : Prop}
    {r : Storage opt τ π × Except Status (Fin opt.maxTimers)} (h : CreateResult s late r)
    {e : Status} (he : r.2 = .error e) : Unchanged s r.1 ↔ ¬late := by
  cases h with
  | refused _ hl => exact ⟨fun _ => hl,fun _ => ⟨rfl,fun _ => ⟨rfl,rfl⟩⟩⟩
  | @failed t i _ hfree hs hl =>
    refine ⟨fun _ => hl,fun _ => ⟨?_,fun j => ?_⟩⟩
    · simp only [counters, hs.numTimers, hs.numRings, hs.reserved, hs.ringReserved,
        hs.numRingCreateCalls]
    · obtain ⟨x,hpool,htmo,ht⟩ := hs.timer
      by_cases hj : j = i
      · subst hj
        have hnone : (s.timer j).odpTmrPool = none := by simpa [EventTimer.Valid] using hfree
        rw [ht, Function.update_self, hpool, htmo, hnone, hc.free j hfree]
        exact ⟨rfl,rfl⟩
      · rw [ht, Function.update_of_ne hj]
        exact ⟨rfl,rfl⟩
  | leaked _ hl hcount => exact iff_of_false (fun hu => hcount hu.1) fun hn => hn hl
  | created => cases he

/-- All slots and all timeouts that no valid timer has are available. -/
structure Available (s : Storage opt τ π) : Prop where
  slot : s.findFreeTimerIndex = none ↔
    (Finset.univ.filter fun i => (s.timer i).Valid).card = opt.maxTimers
  timeouts : (opt.sharedTmoPoolSize - s.reserved).toNat = opt.sharedTmoPoolSize.toNat -
    ∑ i ∈ Finset.univ.filter s.UsesShared, (s.timer i).numTmoReserve.toNat
  ringTimeouts : (opt.ringTimerEventPoolSize - s.ringReserved).toNat =
    opt.ringTimerEventPoolSize.toNat -
      ∑ i ∈ Finset.univ.filter s.UsesRingPool, (s.timer i).numTmoReserve.toNat

theorem Consistent.available (hc : s.Consistent) : s.Available := by
  have hb := hc.books
  refine ⟨⟨fun h => ?_,fun h => ?_⟩,?_,?_⟩
  · have hall : (Finset.univ.filter fun i => (s.timer i).Valid) = Finset.univ :=
      Finset.filter_true_of_mem fun i _ => findFreeTimerIndex_none h i
    rw [hall, Finset.card_univ, Fintype.card_fin]
  · cases hfind : s.findFreeTimerIndex with
    | none => rfl
    | some i =>
      have hall : (Finset.univ.filter fun i => (s.timer i).Valid) = Finset.univ :=
        Finset.eq_univ_of_card _ (h.trans (Fintype.card_fin _).symm)
      have hi := Finset.mem_univ i
      rw [← hall] at hi
      exact absurd (Finset.mem_filter.1 hi).2 (findFreeTimerIndex_some hfind)
  · rw [BitVec.toNat_sub_of_le hc.reservedLe, hb.reserved]
  · rw [BitVec.toNat_sub_of_le hc.ringReservedLe, hb.ringReserved]

/-- The call is a create that fails after it has counted something. -/
def FailsLate (s : Storage opt τ π) : Label τ π → Prop
  | .create attr odp => s.CreateFailsLate attr odp
  | .ringCreate kind attr odp => s.RingCreateFailsLate kind attr odp
  | .delete .. => False

instance (s : Storage opt τ π) : DecidablePred s.FailsLate := fun l => by
  cases l <;> simp only [FailsLate] <;> infer_instance

private theorem consistent_step {l : Label τ π} (hc : s.Consistent) (hst : s.step l = some t)
    (hok : ¬s.FailsLate l) : t.Consistent := by
  cases l with
  | create attr odp =>
    obtain ⟨hpre,he⟩ := Option.ite_none_right_eq_some.1 hst
    cases he
    exact (emTimerCreate_result hc attr odp hpre.1).consistent hc hok
  | ringCreate kind attr odp =>
    obtain ⟨hpre,he⟩ := Option.ite_none_right_eq_some.1 hst
    cases he
    exact (ringCreate_result hc kind attr odp hpre.1).consistent hc hok
  | delete tmr poolOk sharedOk =>
    cases hst
    cases hv : s.isTimerValid tmr with
    | none =>
      simp only [emTimerDelete, hv]
      exact hc
    | some i => exact (emTimerDelete_removed hc hv poolOk sharedOk).consistent hc (isTimerValid_some hv).1

/-- In every run without a create that fails late the counters and the pools are those of
the valid timers, and all other slots and timeouts are available. A create that fails
leaves the storage as it was exactly when it does not fail late. -/
theorem timer_bookkeeping
    (h : (system opt τ π).ReachableVia (fun s l _ => ¬s.FailsLate l) s) :
    s.Books ∧ s.Available ∧
    (∀ attr odp e, s.Fresh odp → (s.emTimerCreate attr odp).2 = .error e →
      (Unchanged s (s.emTimerCreate attr odp).1 ↔ ¬s.CreateFailsLate attr odp)) ∧
    (∀ kind attr odp e, s.Fresh odp → (s.ringCreate kind attr odp).2 = .error e →
      (Unchanged s (s.ringCreate kind attr odp).1 ↔ ¬s.RingCreateFailsLate kind attr odp)) := by
  have hc : s.Consistent :=
    h.invariant (fun _ => Initial.consistent) fun _ _ _ hs hst hok => consistent_step hs hst hok
  refine ⟨hc.books,hc.available,?_,?_⟩
  · intro attr odp e hfresh he
    exact (emTimerCreate_result hc attr odp hfresh).unchanged_iff hc he
  · intro kind attr odp e hfresh he
    exact (ringCreate_result hc kind attr odp hfresh).unchanged_iff hc he

end
end Storage

/-- Two timer slots that share a pool of 100 timeout handles, on an ODP from 1.50 on. -/
private def twoSlots : Options := ⟨1,false,2,by decide,true,100,0⟩

private def anyCapability : TimerCapability := ⟨true,false,0,0,true,0,0⟩

private def attrOf (numTmo : BitVec 32) : TimerAttr :=
  ⟨0,1,0,numTmo,emTimerFlagRing,0,0,⟨1,0,0⟩,1,0,none,0,0,emCheckInitCalled⟩

private def odpOf (tmrPool : Option Nat) (tmoPool : Option Nat) (started : Bool) : OdpCreate Nat Nat :=
  ⟨some anyCapability,tmrPool,tmoPool,none,started,true⟩

/-- A timer, a ring for which no timer pool can be made, a ring, and the first timer deleted. -/
private def timerDeleted : Option (Storage twoSlots Nat Nat) :=
  System.exec Storage.step (fun s l _ => decide (¬s.FailsLate l)) (Storage.timerInit fun _ => false)
    [.create (some (attrOf 40)) (odpOf (some 0) (some 0) true),
      .ringCreate .baseMul (some (attrOf 40)) (odpOf none (some 1) true),
      .ringCreate .baseMul (some (attrOf 60)) (odpOf (some 1) (some 1) true), .delete 1 true true]

private theorem timerDeleted_isSome : timerDeleted.isSome = true := by decide

theorem timer_bookkeeping_deleted : ∃ s : Storage twoSlots Nat Nat, s.Books ∧ s.numTimers = 1 ∧
    s.numRings = 1 ∧ s.reserved = 60 := by
  have h : (Storage.system twoSlots Nat Nat).ReachableVia (fun s l _ => ¬s.FailsLate l)
      (timerDeleted.get timerDeleted_isSome) :=
    System.ReachableVia.exec (fun _ _ _ => of_decide_eq_true) (.start ⟨_,rfl⟩)
      (Option.some_get timerDeleted_isSome).symm
  refine ⟨_,(Storage.timer_bookkeeping h).1,?_,?_,?_⟩
  · decide
  · decide
  · decide

/-- A ring whose timer pool ODP does not start. -/
private def ringNotStarted : Option (Storage twoSlots Nat Nat) :=
  System.exec Storage.step (fun _ _ _ => true) (Storage.timerInit fun _ => false)
    [.ringCreate .baseMul (some (attrOf 60)) (odpOf (some 0) (some 0) false)]

private theorem ringNotStarted_isSome : ringNotStarted.isSome = true := by decide

/-- The failed ring is still counted and its timeouts stay reserved, with every slot free: a
timer that asks for the same number of timeouts is refused. -/
theorem failed_ring_create_counted : ∃ s : Storage twoSlots Nat Nat,
    (Storage.system twoSlots Nat Nat).Reachable s ∧ (∀ i, ¬(s.timer i).Valid) ∧ s.numTimers = 1 ∧
    s.numRings = 1 ∧ s.reserved = 60 ∧ ¬s.Books ∧
    (s.emTimerCreate (some (attrOf 60)) (odpOf (some 1) (some 1) true)).2 = .error .libFailed := by
  have hfree : ∀ i, ¬((ringNotStarted.get ringNotStarted_isSome).timer i).Valid := by decide
  have hnum : (ringNotStarted.get ringNotStarted_isSome).numTimers = 1 := by decide
  refine ⟨ringNotStarted.get ringNotStarted_isSome,?_,hfree,hnum,?_,?_,fun h => ?_,?_⟩
  · exact System.ReachableVia.exec (fun _ _ _ _ => trivial) (.start ⟨_,rfl⟩)
      (Option.some_get ringNotStarted_isSome).symm
  · decide
  · decide
  · have hcount := h.numTimers
    rw [hnum, Finset.filter_false_of_mem fun i _ => hfree i] at hcount
    cases hcount
  · rfl

end EmOdp.Timer
