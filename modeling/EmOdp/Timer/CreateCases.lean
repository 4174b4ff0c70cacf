import EmOdp.Timer.BookkeepingSteps

/-! What one create or delete of a timer does to the timer storage. -/
namespace EmOdp.Timer
open Lib
variable {opt : Options} {τ π : Type}

namespace Storage
variable {s t u : Storage opt τ π} {i : Fin opt.maxTimers} {p : π}

/-- A pool for the timeout handles is there or can be made. -/
def PoolReady (s : Storage opt τ π) (odp : OdpCreate τ π) : Prop :=
  opt.sharedTmoPoolEnable = true ∧ s.sharedTmoPool.isSome = true ∨ odp.tmoPool.isSome = true

instance (s : Storage opt τ π) (odp : OdpCreate τ π) : Decidable (s.PoolReady odp) :=
  inferInstanceAs (Decidable (_ ∨ _))

/-- The create gets a slot, a timer pool and a pool of timeout handles, and the
timeouts fit into the shared pool. -/
def Reserves (s : Storage opt τ π) (numTmo : BitVec 32) (odp : OdpCreate τ π) : Prop :=
  s.findFreeTimerIndex.isSome = true ∧ odp.tmrPool.isSome = true ∧ s.PoolReady odp ∧
    (opt.sharedTmoPoolEnable = true → numTmo ≤ opt.sharedTmoPoolSize - s.reserved)

instance (s : Storage opt τ π) (numTmo : BitVec 32) (odp : OdpCreate τ π) :
    Decidable (s.Reserves numTmo odp) := inferInstanceAs (Decidable (_ ∧ _ ∧ _ ∧ _))

theorem findFreeTimerIndex_some (h : s.findFreeTimerIndex = some i) : ¬(s.timer i).Valid := by
  have hi := List.find?_some h
  simpa [EventTimer.Valid] using hi

theorem findFreeTimerIndex_none (h : s.findFreeTimerIndex = none) (i : Fin opt.maxTimers) :
    (s.timer i).Valid := by
  have hi := List.find?_eq_none.1 h i (List.mem_finRange i)
  simpa [EventTimer.Valid, Option.isSome_iff_ne_none] using hi

section
variable [DecidableEq π]

/-- The state in which a create of slot `i` gives up: nothing but the slot, the pool of
the timeout handles and the shared pool differs from before. -/
structure Attempt (s u : Storage opt τ π) (i : Fin opt.maxTimers) : Prop where
  timer : ∃ x : EventTimer τ π, u.timer = Function.update s.timer i x ∧
    ((x.tmoPool = none ∧ u.sharedTmoPool = s.sharedTmoPool ∧ u.odpPools = s.odpPools) ∨
      ∃ p, x.tmoPool = some p ∧ s.PoolFor p ∧
        u.sharedTmoPool = (if opt.sharedTmoPoolEnable then some p else s.sharedTmoPool) ∧
        u.odpPools = Function.update s.odpPools p true)
  numTimers : u.numTimers = s.numTimers
  numRings : u.numRings = s.numRings
  reserved : u.reserved = s.reserved
  ringReserved : u.ringReserved = s.ringReserved
  numRingCreateCalls : u.numRingCreateCalls = s.numRingCreateCalls
  ringTmoPool : u.ringTmoPool = s.ringTmoPool

theorem cleanup_eq (u : Storage opt τ π) (i : Fin opt.maxTimers) (ok : Bool) :
    u.cleanupTimerCreateFail i ok =
      { u with
        timer := Function.update u.timer i { u.timer i with tmoPool := none, odpTmrPool := none }
        odpPools := if (u.timer i).tmoPool ≠ none ∧ (u.timer i).tmoPool ≠ u.sharedTmoPool then
          (u.odpPoolDestroy (u.timer i).tmoPool ok).odpPools else u.odpPools } := by
  simp only [cleanupTimerCreateFail, setTimer]
  split
  · cases (u.timer i).tmoPool with
    | none => rfl
    | some p =>
      simp only [odpPoolDestroy]
      split <;> rfl
  · rfl

theorem Attempt.slotFree (hc : s.Consistent) (h : Attempt s u i) (ok : Bool) :
    SlotFree s (u.cleanupTimerCreateFail i ok) i := by
  obtain ⟨x,ht,hpool⟩ := h.timer
  rw [cleanup_eq]
  refine ⟨⟨{ u.timer i with tmoPool := none, odpTmrPool := none },rfl,rfl,?_⟩,h.numTimers,h.numRings,h.reserved,h.ringReserved,h.numRingCreateCalls,
    h.ringTmoPool,?_,?_⟩
  · show Function.update u.timer i _ = _
    rw [ht, Function.update_idem]
  · rcases hpool with ⟨-,hs,-⟩ | ⟨p,hp,hfor,hs,hlive⟩
    · exact .inl hs
    · by_cases he : opt.sharedTmoPoolEnable = true
      · rw [if_pos he] at hs
        rcases hfor with hold | ⟨hnone,hnew⟩
        · exact .inl (hs.trans hold.symm)
        · refine .inr ⟨he,hnone,p,hs,?_,hnew⟩
          simp [ht, hp, hs, hlive]
      · rw [if_neg he] at hs
        exact .inl hs
  · intro q hq
    rcases hpool with ⟨hx,-,hlive⟩ | ⟨p,hp,hfor,hs,hlive⟩
    · simp only [ht, Function.update_self, hx, ne_eq, not_true_eq_false, false_and, if_false, hlive,
        hq]
    · have hu : u.odpPools q = true := by
        rw [hlive, Function.update_apply, hq, ite_self]
      split
      · -- the pool that is destroyed is the one this create has made
        have hne : q ≠ p := by
          rintro rfl
          rcases hfor with hold | ⟨-,hnew⟩
          · rw [if_pos (hc.sharedPool q hold).1] at hs
            simp [ht, hp, hs] at *
          · rw [hq] at hnew
            cases hnew
        simp only [ht, Function.update_self, hp, odpPoolDestroy]
        split
        · show Function.update u.odpPools p false q = true
          rw [Function.update_of_ne hne]
          exact hu
        · exact hu
      · exact hu

/-- A create of slot `i` has its pools. -/
def setupState (s : Storage opt τ π) (i : Fin opt.maxTimers) (pool : τ) (p : π) :
    Storage opt τ π :=
  { s with
    timer := Function.update s.timer i { s.timer i with odpTmrPool := some pool, tmoPool := some p }
    sharedTmoPool := if opt.sharedTmoPoolEnable then some p else s.sharedTmoPool
    odpPools := Function.update s.odpPools p true }

/-- A create of slot `i` has its pools and its reservation. -/
def reservedState (s : Storage opt τ π) (i : Fin opt.maxTimers) (pool : τ) (p : π)
    (numTmo : BitVec 32) : Storage opt τ π :=
  { s.setupState i pool p with
    timer := Function.update s.timer i { s.timer i with
      odpTmrPool := some pool, tmoPool := some p, numTmoReserve := numTmo }
    reserved := if opt.sharedTmoPoolEnable then s.reserved + numTmo else s.reserved }

theorem reserveTmo_fits {pool : τ} {numTmo : BitVec 32}
    (h : opt.sharedTmoPoolEnable = true → numTmo ≤ opt.sharedTmoPoolSize - s.reserved) :
    (s.setupState i pool p).reserveTmo i numTmo = (s.reservedState i pool p numTmo,true) := by
  simp only [reserveTmo, setTimer, setupState, reservedState, Function.update_self,
    Function.update_idem]
  exact if_neg fun hc => absurd (BitVec.le_def.1 (h hc.1)) (Nat.not_le.2 (BitVec.lt_def.1 hc.2))

theorem update_true_iff (f : π → Bool) (p q : π) :
    Function.update f p true q = true ↔ q = p ∨ f q = true := by
  rw [Function.update_apply]
  split <;> simp [*]

/-- The reservation is refused: nothing is counted. -/
theorem reserveTmo_refused (i : Fin opt.maxTimers) (pool : τ) {numTmo : BitVec 32} (hfor : s.PoolFor p)
    (he : opt.sharedTmoPoolEnable = true) (h : opt.sharedTmoPoolSize - s.reserved < numTmo) :
    ∃ u, (s.setupState i pool p).reserveTmo i numTmo = (u,false) ∧ Attempt s u i := by
  let x := { s.timer i with odpTmrPool := some pool, tmoPool := some p, numTmoReserve := numTmo }
  have htimer : ((s.setupState i pool p).setTimer i fun t => { t with numTmoReserve := numTmo
      }).timer = Function.update s.timer i x := by
    simp only [setTimer, setupState, Function.update_self, Function.update_idem, x]
  exact ⟨_,if_pos ⟨he,h⟩,⟨x,htimer,.inr ⟨p,rfl,hfor,rfl,rfl⟩⟩,rfl,rfl,rfl,rfl,rfl,rfl⟩

theorem reservedState_timer (s : Storage opt τ π) (i : Fin opt.maxTimers) (pool : τ) (p : π)
    (numTmo : BitVec 32) (f : EventTimer τ π → EventTimer τ π) :
    ((s.reservedState i pool p numTmo).setTimer i f).timer = Function.update s.timer i
      (f { s.timer i with odpTmrPool := some pool, tmoPool := some p, numTmoReserve := numTmo }) := by
  simp only [setTimer, reservedState, Function.update_self, Function.update_idem]

/-- The pool of the timeout handles of a new timer. -/
theorem ringSetupTmoHandlePool_cases (hc : s.Consistent) (odp : OdpCreate τ π)
    (hfresh : s.Fresh odp) (pool : τ) (i : Fin opt.maxTimers) :
    (¬s.PoolReady odp ∧ (s.setTimer i fun t => { t with odpTmrPool := some pool
      }).ringSetupTmoHandlePool i odp.tmoPool = none) ∨
    ∃ p, s.PoolReady odp ∧ s.PoolFor p ∧ (∀ r ∈ odp.ringTmoPool, r ≠ p) ∧
      (s.setTimer i fun t => { t with odpTmrPool := some pool
        }).ringSetupTmoHandlePool i odp.tmoPool =
        some (s.setupState i pool p) := by
  have hring : ∀ p ∈ odp.tmoPool, ∀ r ∈ odp.ringTmoPool, r ≠ p := by
    rintro p hp r hr rfl
    have := hfresh.2.2 (hp.trans hr.symm)
    rw [hp] at this
    cases this
  by_cases he : opt.sharedTmoPoolEnable = true
  · cases hs : s.sharedTmoPool with
    | some p =>
      -- the shared pool exists: it is taken as it is
      have hlive := (hc.sharedPool p hs).2.1
      refine .inr ⟨p,.inl ⟨he,by simp [hs]⟩,.inl hs,fun r hr => ?_,?_⟩
      · rintro rfl
        rw [hfresh.2.1 r hr] at hlive
        cases hlive
      · have hsame : Function.update s.odpPools p true = s.odpPools := by
          rw [← hlive, Function.update_eq_self]
        simp [ringSetupTmoHandlePool, setTimer, setupState, he, hs, hsame]
    | none =>
      cases hp : odp.tmoPool with
      | none =>
        exact .inl ⟨by simp [PoolReady, hs, hp],by simp [ringSetupTmoHandlePool, setTimer, he, hs]⟩
      | some p =>
        refine .inr ⟨p,.inr (by simp [hp]),.inr ⟨hs,hfresh.1 p hp⟩,hring p hp,?_⟩
        simp [ringSetupTmoHandlePool, setTimer, setupState, odpPoolCreate, he, hs]
  · have hs : s.sharedTmoPool = none := by
      by_contra hs
      obtain ⟨p,hp⟩ := Option.ne_none_iff_exists'.1 hs
      exact he (hc.sharedPool p hp).1
    cases hp : odp.tmoPool with
    | none =>
      exact .inl ⟨by simp [PoolReady, hs, hp],by simp [ringSetupTmoHandlePool, he]⟩
    | some p =>
      refine .inr ⟨p,.inr (by simp [hp]),.inr ⟨hs,hfresh.1 p hp⟩,hring p hp,?_⟩
      simp [ringSetupTmoHandlePool, setTimer, setupState, odpPoolCreate, he]

/-- The pools and the reservation of a new timer: all are there, or the create gives up
with nothing counted. -/
theorem createTimerPools_cases (hc : s.Consistent) {odp : OdpCreate τ π} (hfresh : s.Fresh odp)
    (hfind : s.findFreeTimerIndex = some i) (numTmo : BitVec 32) :
    (∃ u, s.createTimerPools i odp numTmo = (u,false) ∧ Attempt s u i ∧ ¬s.Reserves numTmo odp) ∨
    ∃ pool p, s.createTimerPools i odp numTmo = (s.reservedState i pool p numTmo,true) ∧
      s.PoolFor p ∧ (∀ r ∈ odp.ringTmoPool, r ≠ p) ∧ s.Reserves numTmo odp := by
  have hfree := hc.free i (findFreeTimerIndex_some hfind)
  rw [createTimerPools]
  cases htmr : odp.tmrPool with
  | none =>
    refine .inl ⟨s,rfl,⟨⟨s.timer i,(Function.update_eq_self i _).symm,.inl ⟨hfree,rfl,rfl⟩⟩,
      rfl,rfl,rfl,rfl,rfl,rfl⟩,fun hr => ?_⟩
    have hsome := hr.2.1
    rw [htmr] at hsome
    cases hsome
  | some pool =>
    dsimp only
    rcases ringSetupTmoHandlePool_cases hc odp hfresh pool i with
      ⟨hready,hsetup⟩ | ⟨p,hready,hfor,hne,hsetup⟩
    · rw [hsetup]
      exact .inl ⟨_,rfl,⟨⟨_,rfl,.inl ⟨hfree,rfl,rfl⟩⟩,rfl,rfl,rfl,rfl,rfl,rfl⟩,
        fun hr => hready hr.2.2.1⟩
    · rw [hsetup]
      dsimp only
      by_cases hfit : opt.sharedTmoPoolEnable = true ∧ opt.sharedTmoPoolSize - s.reserved < numTmo
      · obtain ⟨u,hu,hat⟩ := reserveTmo_refused i pool hfor hfit.1 hfit.2
        refine .inl ⟨u,hu,hat,fun hr => ?_⟩
        have hle := BitVec.le_def.1 (hr.2.2.2 hfit.1)
        exact absurd hle (Nat.not_le.2 (BitVec.lt_def.1 hfit.2))
      · have hfits : opt.sharedTmoPoolEnable = true → numTmo ≤ opt.sharedTmoPoolSize - s.reserved :=
          fun he => BitVec.le_def.2 (Nat.not_lt.1 fun hlt => hfit ⟨he,BitVec.lt_def.2 hlt⟩)
        exact .inr ⟨pool,p,reserveTmo_fits hfits,hfor,hne,by simp [hfind],by simp [htmr],hready,hfits⟩

/-- All counters of the timer storage. -/
def counters (s : Storage opt τ π) : List (BitVec 32) :=
  [s.numTimers,s.numRings,s.reserved,s.ringReserved,s.numRingCreateCalls]

/-- What a create does; `late` says that it fails after it has counted something. -/
inductive CreateResult (s : Storage opt τ π) (late : Prop) :
    Storage opt τ π × Except Status (Fin opt.maxTimers) → Prop where
  | refused (e : Status) : ¬late → CreateResult s late (s,.error e)
  | failed {t : Storage opt τ π} {i : Fin opt.maxTimers} (e : Status) :
      ¬(s.timer i).Valid → SlotFree s t i → ¬late → CreateResult s late (t,.error e)
  | leaked {t : Storage opt τ π} (e : Status) : late → t.counters ≠ s.counters →
      CreateResult s late (t,.error e)
  | created {t : Storage opt τ π} {i : Fin opt.maxTimers} {x : EventTimer τ π} {p : π} :
      ¬(s.timer i).Valid → Added s t i x p → CreateResult s late (t,.ok i)

/-- A reservation that stays when the create fails. -/
def Reservation (opt : Options) (numTmo : BitVec 32) : Prop :=
  opt.sharedTmoPoolEnable = true ∧ numTmo ≠ 0

instance (numTmo : BitVec 32) : Decidable (Reservation opt numTmo) :=
  inferInstanceAs (Decidable (_ ∧ _))

theorem reservedState_reserved (pool : τ) (numTmo : BitVec 32) :
    (s.reservedState i pool p numTmo).reserved = s.reserved ↔ ¬Reservation opt numTmo := by
  simp only [reservedState, Reservation]
  split
  · constructor
    · rintro h ⟨-,hne⟩
      exact hne (by simpa using h)
    · intro h
      have hzero : numTmo = 0 := by
        by_contra hne
        exact h ⟨‹_›,hne⟩
      simp [hzero]
  · simp [*]

/-- The create has reserved timeouts in the shared pool, and ODP does not start the timer. -/
def CreateFailsLate (s : Storage opt τ π) (attr : Option TimerAttr) (odp : OdpCreate τ π) : Prop :=
  ∃ a ∈ attr, (s.timerCreateChecks attr odp.capability).isOk = true ∧ s.Reserves a.numTmo odp ∧
    Reservation opt a.numTmo ∧ odp.started = false

instance (s : Storage opt τ π) (attr : Option TimerAttr) (odp : OdpCreate τ π) :
    Decidable (s.CreateFailsLate attr odp) := inferInstanceAs (Decidable (∃ a ∈ attr, _))

omit [DecidableEq π] in
/-- The attributes that pass the checks are the ones that were passed. -/
theorem timerCreateChecks_attr {attr : Option TimerAttr} {capability : Option TimerCapability}
    {a : TimerAttr} {capa : TimerCapability}
    (h : s.timerCreateChecks attr capability = .ok (a,capa)) : attr = some a := by
  simp only [timerCreateChecks] at h
  repeat' split at h
  all_goals first
    | cases h; rfl
    | cases h

/-- What `em_timer_create` does to a consistent storage. -/
theorem emTimerCreate_result (hc : s.Consistent) (attr : Option TimerAttr) (odp : OdpCreate τ π)
    (hfresh : s.Fresh odp) :
    CreateResult s (s.CreateFailsLate attr odp) (s.emTimerCreate attr odp) := by
  rw [emTimerCreate]
  cases hchk : s.timerCreateChecks attr odp.capability with
  | error e =>
    refine .refused e fun ⟨a,_,hok,_⟩ => ?_
    rw [hchk] at hok
    cases hok
  | ok ac =>
    obtain ⟨a,capa⟩ := ac
    obtain rfl := timerCreateChecks_attr hchk
    have hlate : s.CreateFailsLate (some a) odp ↔ s.Reserves a.numTmo odp ∧
        Reservation opt a.numTmo ∧ odp.started = false := by
      simp [CreateFailsLate, hchk, Except.isOk, Except.toBool]
    dsimp only
    cases hfind : s.findFreeTimerIndex with
    | none => exact .refused _ fun hl => by simpa [hfind] using (hlate.1 hl).1.1
    | some i =>
      have hfree := findFreeTimerIndex_some hfind
      dsimp only
      rcases createTimerPools_cases hc hfresh hfind a.numTmo with
        ⟨u,hu,hat,hres⟩ | ⟨pool,p,hu,hfor,-,hres⟩
      · rw [hu]
        exact .failed _ hfree (hat.slotFree hc _) fun hl => hres (hlate.1 hl).1
      rw [hu]
      dsimp only
      split
      · -- the timer is not started: a reservation stays
        by_cases hleak : Reservation opt a.numTmo
        · refine .leaked _ (hlate.2 ⟨hres,hleak,‹_›⟩) fun hcount => ?_
          simp only [cleanup_eq, counters, setTimer, List.cons.injEq] at hcount
          exact (reservedState_reserved pool a.numTmo).1 hcount.2.2.1 hleak
        · have hsame : (s.reservedState i pool p a.numTmo).reserved = s.reserved :=
            (reservedState_reserved pool a.numTmo).2 hleak
          have hat : Attempt s ((s.reservedState i pool p a.numTmo).setTimer i fun t =>
              { t with flags := a.flags, plainQOk := capa.queueTypePlain, isRing := false }) i :=
            ⟨⟨_,reservedState_timer s i pool p a.numTmo _,.inr ⟨p,rfl,hfor,rfl,rfl⟩⟩,rfl,rfl,hsame,rfl,rfl,rfl⟩
          exact .failed _ hfree (hat.slotFree hc _) fun hl => hleak (hlate.1 hl).2.1
      · let x := { s.timer i with
          odpTmrPool := some pool, tmoPool := some p, numTmoReserve := a.numTmo
          flags := a.flags, plainQOk := capa.queueTypePlain, isRing := false }
        have htimer := reservedState_timer s i pool p a.numTmo fun t =>
            { t with flags := a.flags, plainQOk := capa.queueTypePlain, isRing := false }
        exact .created (x := x) hfree {
          timer := htimer
          valid := rfl
          tmoPool := rfl
          poolFor := hfor
          sharedTmoPool := rfl
          numTimers := rfl
          numRings := rfl
          reserved := rfl
          fits := hres.2.2.2
          ringReserved := rfl
          ringFits := fun hr => Bool.noConfusion hr
          ringReserve := fun hr => Bool.noConfusion hr
          ringTmoPool := .inl rfl
          ringPool := fun hr => Bool.noConfusion hr
          odpPools := fun q hq => (update_true_iff s.odpPools p q).2 (.inr hq)
          created := (update_true_iff s.odpPools p p).2 (.inl rfl) }

/-- Before ODP 1.50: the timeout events of all rings fit into their pool. -/
def RingFits (s : Storage opt τ π) (numTmo : BitVec 32) : Prop :=
  opt.pre150 = true → numTmo ≤ opt.ringTimerEventPoolSize - s.ringReserved

instance (s : Storage opt τ π) (numTmo : BitVec 32) : Decidable (s.RingFits numTmo) :=
  inferInstanceAs (Decidable (_ → _))

/-- Before ODP 1.50: the timeout event pool of all rings is neither there nor can it be made. -/
def RingPoolMissing (s : Storage opt τ π) (odp : OdpCreate τ π) : Prop :=
  opt.pre150 = true ∧ s.ringTmoPool = none ∧ odp.ringTmoPool = none

instance (s : Storage opt τ π) (odp : OdpCreate τ π) : Decidable (s.RingPoolMissing odp) :=
  inferInstanceAs (Decidable (_ ∧ _ ∧ _))

/-- The ring passes its checks and has its reservation, and the event pool of all rings
cannot be made, or ODP does not start the timer. -/
def RingCreateFailsLate (s : Storage opt τ π) (kind : RingKind) (attr : Option TimerAttr)
    (odp : OdpCreate τ π) : Prop :=
  ∃ a ∈ attr, (s.ringCreateChecks kind attr).isOk = true ∧
    ((ringCheckCapa opt kind a odp.capability).bind (ringFillTpoolParam opt a)).isOk = true ∧
    s.RingFits a.numTmo ∧ s.Reserves a.numTmo odp ∧
    (s.RingPoolMissing odp ∧ Reservation opt a.numTmo ∨
      ¬s.RingPoolMissing odp ∧ odp.started = false)

instance (s : Storage opt τ π) (kind : RingKind) (attr : Option TimerAttr) (odp : OdpCreate τ π) :
    Decidable (s.RingCreateFailsLate kind attr odp) := inferInstanceAs (Decidable (∃ a ∈ attr, _))

omit [DecidableEq π] in
theorem ringCreateChecks_attr {kind : RingKind} {attr : Option TimerAttr} {a : TimerAttr}
    (h : s.ringCreateChecks kind attr = .ok a) : attr = some a := by
  simp only [ringCreateChecks] at h
  repeat' split at h
  all_goals first
    | cases h; rfl
    | cases h

/-- The timeout event pool of the rings: it is missing, or there after the call. -/
theorem ringSetupEventPool_cases {odp : OdpCreate τ π} (hfresh : s.Fresh odp)
    (i : Fin opt.maxTimers) (pool : τ) (numTmo : BitVec 32) (hne : ∀ r ∈ odp.ringTmoPool, r ≠ p) :
    (s.RingPoolMissing odp ∧ (s.reservedState i pool p numTmo).ringSetupEventPool odp.ringTmoPool
      numTmo = none) ∨
    ∃ ringTmoPool odpPools, ¬s.RingPoolMissing odp ∧
      (s.reservedState i pool p numTmo).ringSetupEventPool odp.ringTmoPool numTmo =
        some { s.reservedState i pool p numTmo with
          ringTmoPool, odpPools
          ringReserved := if opt.pre150 then s.ringReserved + numTmo else s.ringReserved } ∧
      (ringTmoPool = s.ringTmoPool ∨ opt.pre150 = true ∧ s.ringTmoPool = none ∧
        ∃ r, ringTmoPool = some r ∧ s.odpPools r = false ∧ odpPools r = true ∧ r ≠ p) ∧
      (opt.pre150 = true → ringTmoPool ≠ none) ∧
      (∀ q, s.odpPools q = true → odpPools q = true) ∧ odpPools p = true := by
  have hold : ∀ q, s.odpPools q = true → (s.reservedState i pool p numTmo).odpPools q = true :=
    fun q hq => (update_true_iff s.odpPools p q).2 (.inr hq)
  have hp : (s.reservedState i pool p numTmo).odpPools p = true :=
    (update_true_iff s.odpPools p p).2 (.inl rfl)
  by_cases hpre : opt.pre150 = true
  · cases hring : s.ringTmoPool with
    | some r =>
      refine .inr ⟨some r,_,fun hm => ?_,?_,.inl rfl,fun _ => Option.some_ne_none r,hold,hp⟩
      · rw [hm.2.1] at hring
        cases hring
      · simp [ringSetupEventPool, reservedState, setupState, hpre, hring]
    | none =>
      cases hodp : odp.ringTmoPool with
      | none =>
        refine .inl ⟨⟨hpre,hring,hodp⟩,?_⟩
        simp [ringSetupEventPool, reservedState, setupState, hpre, hring]
      | some r =>
        have hnew := hfresh.2.1 r hodp
        have hlive := update_true_iff (s.reservedState i pool p numTmo).odpPools r
        refine .inr ⟨some r,_,fun hm => ?_,?_,
          .inr ⟨hpre,rfl,r,rfl,hnew,(hlive r).2 (.inl rfl),hne r hodp⟩,
          fun _ => Option.some_ne_none r,fun q hq => (hlive q).2 (.inr (hold q hq)),
          (hlive p).2 (.inr hp)⟩
        · rw [hm.2.2] at hodp
          cases hodp
        · simp [ringSetupEventPool, reservedState, setupState, hpre, hring, odpPoolCreate]
  · refine .inr ⟨s.ringTmoPool,_,fun hm => hpre hm.1,?_,.inl rfl,fun h => absurd h hpre,hold,hp⟩
    simp [ringSetupEventPool, reservedState, setupState, hpre]

/-- What `em_timer_ring_create` and `em_timer_ring_freq_create` do to a consistent storage. -/
theorem ringCreate_result (hc : s.Consistent) (kind : RingKind) (attr : Option TimerAttr)
    (odp : OdpCreate τ π) (hfresh : s.Fresh odp) :
    CreateResult s (s.RingCreateFailsLate kind attr odp) (s.ringCreate kind attr odp) := by
  rw [ringCreate]
  cases hchk : s.ringCreateChecks kind attr with
  | error e =>
    refine .refused e fun ⟨a,_,hok,_⟩ => ?_
    rw [hchk] at hok
    cases hok
  | ok a =>
    obtain rfl := ringCreateChecks_attr hchk
    have hlate : s.RingCreateFailsLate kind (some a) odp ↔
        ((ringCheckCapa opt kind a odp.capability).bind (ringFillTpoolParam opt a)).isOk = true ∧
        s.RingFits a.numTmo ∧ s.Reserves a.numTmo odp ∧
        (s.RingPoolMissing odp ∧ Reservation opt a.numTmo ∨
          ¬s.RingPoolMissing odp ∧ odp.started = false) := by
      simp only [RingCreateFailsLate, Option.mem_def, Option.some.injEq, exists_eq_left', hchk]
      exact ⟨fun h => h.2,fun h => ⟨rfl,h⟩⟩
    dsimp only
    rw [ringCreateCommon]
    cases hcapa : ringCheckCapa opt kind a odp.capability with
    | error e =>
      refine .refused e fun hl => ?_
      have hok := (hlate.1 hl).1
      rw [hcapa] at hok
      cases hok
    | ok capa =>
      dsimp only
      cases hfill : ringFillTpoolParam opt a capa with
      | error e =>
        refine .refused e fun hl => ?_
        have hok := (hlate.1 hl).1
        rw [hcapa, Except.bind, hfill] at hok
        cases hok
      | ok _ =>
        dsimp only
        split
        · rename_i hleft
          refine .refused _ fun hl => ?_
          have hle := BitVec.le_def.1 ((hlate.1 hl).2.1 hleft.1)
          exact absurd hle (Nat.not_le.2 (BitVec.lt_def.1 hleft.2))
        rename_i hleft
        have hringFits : s.RingFits a.numTmo := fun hpre =>
          BitVec.le_def.2 (Nat.not_lt.1 fun hlt => hleft ⟨hpre,BitVec.lt_def.2 hlt⟩)
        cases hfind : s.findFreeTimerIndex with
        | none => exact .refused _ fun hl => by simpa [hfind] using (hlate.1 hl).2.2.1.1
        | some i =>
          have hfree := findFreeTimerIndex_some hfind
          dsimp only
          rcases createTimerPools_cases hc hfresh hfind a.numTmo with
            ⟨u,hu,hat,hres⟩ | ⟨pool,p,hu,hfor,hne,hres⟩
          · rw [hu]
            exact .failed _ hfree (hat.slotFree hc _) fun hl => hres (hlate.1 hl).2.2.1
          rw [hu]
          dsimp only
          have hchecked : ((ringCheckCapa opt kind a odp.capability).bind
              (ringFillTpoolParam opt a)).isOk = true := by
            rw [hcapa, Except.bind, hfill]
            rfl
          rcases ringSetupEventPool_cases hfresh i pool a.numTmo hne with
              ⟨hmiss,hev⟩ | ⟨ringTmoPool,odpPools,hmiss,hev,hring,hsome,hold,hlive⟩
          · -- the event pool cannot be made: a reservation stays
            rw [hev]
            by_cases hleak : Reservation opt a.numTmo
            · refine .leaked _ (hlate.2 ⟨hchecked,hringFits,hres,.inl ⟨hmiss,hleak⟩⟩) fun hcount => ?_
              simp only [cleanup_eq, counters, List.cons.injEq] at hcount
              exact (reservedState_reserved pool a.numTmo).1 hcount.2.2.1 hleak
            · have hsame : (s.reservedState i pool p a.numTmo).reserved = s.reserved :=
                (reservedState_reserved pool a.numTmo).2 hleak
              have hat : Attempt s (s.reservedState i pool p a.numTmo) i :=
                ⟨⟨_,rfl,.inr ⟨p,rfl,hfor,rfl,rfl⟩⟩,rfl,rfl,hsame,rfl,rfl,rfl⟩
              refine .failed _ hfree (hat.slotFree hc _) fun hl => ?_
              rcases (hlate.1 hl).2.2.2 with h | h
              · exact hleak h.2
              · exact h.1 hmiss
          · rw [hev]
            dsimp only
            split
            · -- the timer is not started: it stays counted
              refine .leaked _ (hlate.2 ⟨hchecked,hringFits,hres,.inr ⟨hmiss,‹_›⟩⟩) fun hcount => ?_
              simp only [cleanup_eq, counters, setTimer, List.cons.injEq] at hcount
              exact absurd hcount.1 (by simp [reservedState, setupState])
            · let x := { s.timer i with
                odpTmrPool := some pool, tmoPool := some p, numTmoReserve := a.numTmo
                numRingReserve := a.numTmo, flags := a.flags
                plainQOk := capa.queueTypePlain, isRing := true }
              have htimer := reservedState_timer s i pool p a.numTmo fun t => { t with
                  numRingReserve := a.numTmo, flags := a.flags
                  plainQOk := capa.queueTypePlain, isRing := true }
              exact .created (x := x) hfree {
                timer := htimer
                valid := rfl
                tmoPool := rfl
                poolFor := hfor
                sharedTmoPool := rfl
                numTimers := rfl
                numRings := rfl
                reserved := rfl
                fits := hres.2.2.2
                ringReserved := by
                  simp [setTimer, x]
                ringFits := fun _ => hringFits
                ringReserve := fun _ => rfl
                ringTmoPool := hring
                ringPool := fun _ => hsome
                odpPools := hold
                created := hlive }

end
end Storage
end EmOdp.Timer
