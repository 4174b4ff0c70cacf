import EmOdp.Timer.PeriodicCancel

/-! A periodic timeout from one creation to the next, and the period that an acknowledgment divides
by. -/
namespace EmOdp.Timer.Periodic
open Lib
variable {κ : Type} [DecidableEq κ]

/-- A timeout as `em_tmo_create` leaves it; one core owns the timeout event. -/
def Created (s : State κ) : Prop := State.Initial s ∧ s.period = 0

inductive LifeLabel (κ : Type) where
  /-- `em_tmo_create` -/
  | create
  /-- `em_tmo_delete`; `odp_timer_free` may fail. -/
  | delete (freeOk : Bool)
  | call (l : Label κ)

/-- The handle is not used during and after `em_tmo_delete`. A failed one leaves the timeout in the
state `EM_TMO_STATE_UNKNOWN`. -/
inductive Life (cfg : Config) : Option (State κ) → LifeLabel κ → Option (State κ) → Prop where
  | create {s : State κ} : Created s → Life cfg none .create (some s)
  | rejected {s : State κ} {freeOk : Bool} : (∀ c, s.pc c = .idle) → 1 < cfg.checkLevel →
      s.state = .unknown → Life cfg (some s) (.delete freeOk) (some s)
  | failed {s : State κ} : (∀ c, s.pc c = .idle) → (1 < cfg.checkLevel → s.state ≠ .unknown) →
      Life cfg (some s) (.delete false) (some { s with state := .unknown })
  | deleted {s : State κ} : (∀ c, s.pc c = .idle) → (1 < cfg.checkLevel → s.state ≠ .unknown) →
      Life cfg (some s) (.delete true) none
  | call {s t : State κ} {l : Label κ} : s.step cfg l = some t → Life cfg (some s) (.call l) (some t)

/-- The timeout before it is created -/
def lifeSystem (cfg : Config) (κ : Type) [DecidableEq κ] : System (Option (State κ)) (LifeLabel κ) :=
  ⟨fun s => s = none,Life cfg⟩

namespace State
variable {s t : State κ} {cfg : Config} {c : κ} {x : Answer}

/-- A core comes to `handle_ack_skip` with its next step. -/
def ReachesSkip (cfg : Config) (s : State κ) : Prop :=
  cfg.noskip = false ∧ ∃ c tries, s.pc c = .ackStart tries

/-- The step is not one of `em_tmo_set_periodic` that stores a period of zero. -/
def PeriodPositive (s : State κ) : Label κ → Prop
  | .run c _ => ∀ args, s.pc c = .setStore args → args.period ≠ 0
  | _ => True

/-- An active timeout has a period, and it keeps it while it is acknowledged. -/
structure HasPeriod (s : State κ) : Prop where
  active : s.state = .active → s.period ≠ 0
  ackStart : ∀ c tries, s.pc c = .ackStart tries → s.period ≠ 0

namespace HasPeriod

theorem setPc (h : s.HasPeriod) {pc : Pc} (hpc : ∀ tries, pc = .ackStart tries → s.period ≠ 0) :
    (s.setPc c pc).HasPeriod := by
  refine ⟨h.active,fun d tries hd => ?_⟩
  by_cases hdc : d = c
  · have hc : Function.update s.pc c pc c = .ackStart tries := hdc ▸ hd
    rw [Function.update_self] at hc
    exact hpc tries hc
  · have hd' : Function.update s.pc c pc d = .ackStart tries := hd
    rw [Function.update_of_ne hdc] at hd'
    exact h.ackStart d tries hd'

/-- The core leaves the loop of `tmo_ack_rearm`, or is not in it. -/
theorem leave (h : s.HasPeriod) {pc : Pc} (hpc : ∀ tries, pc ≠ .ackStart tries) :
    (s.setPc c pc).HasPeriod := h.setPc fun tries he => absurd he (hpc tries)

omit [DecidableEq κ] in
theorem congr (h : s.HasPeriod) (hperiod : t.period = s.period) (hpc : t.pc = s.pc)
    (hstate : t.state = .active → s.state = .active) : t.HasPeriod :=
  ⟨fun ht => hperiod ▸ h.active (hstate ht),fun c tries hc => hperiod ▸ h.ackStart c tries (hpc ▸ hc)⟩

theorem ackRetry (h : s.HasPeriod) (hperiod : s.period ≠ 0) (tries : Nat) :
    (s.ackRetry c tries).HasPeriod := by
  rw [State.ackRetry]
  split
  · exact h.leave (by rintro _ ⟨⟩)
  · exact h.setPc fun _ _ => hperiod

theorem cancelStep (h : s.HasPeriod) {pc : Pc} (hst : s.cancelStep c x pc = some t) :
    t.HasPeriod := by
  rw [State.cancelStep.eq_def] at hst
  split at hst
  · cases hst
    split
    · exact h.leave (by rintro _ ⟨⟩)
    · exact h.leave (by rintro _ ⟨⟩)
  · cases hst
    refine (h.congr (t := { s with state := .idle }) rfl rfl fun hactive => ?_).leave ?_
    · cases hactive
    · rintro _ ⟨⟩
  · split at hst
    · split at hst
      · cases hst
        refine (h.congr (t := { s with timer := .free }.take c) rfl rfl id).leave ?_
        rintro _ ⟨⟩
      · cases hst
    · split at hst
      · cases hst
      · cases hst
        exact h.leave (by rintro _ ⟨⟩)
    · cases hst
      exact h.leave (by rintro _ ⟨⟩)
    · cases hst
  · cases hst

theorem ackStep (h : s.HasPeriod) {pc : Pc} (hpc : s.pc c = pc)
    (hst : s.ackStep cfg c x pc = some t) : t.HasPeriod := by
  rw [State.ackStep.eq_def] at hst
  split at hst
  · split at hst
    · rename_i hactive
      cases hst
      refine (h.congr (t := { s with lastTick := s.lastTick + s.period }) rfl rfl id).setPc fun _ _ => ?_
      exact h.active hactive
    · cases hst
      exact h.leave (by rintro _ ⟨⟩)
    · cases hst
      exact h.leave (by rintro _ ⟨⟩)
  · rename_i tries
    have hperiod := h.ackStart c tries hpc
    split at hst
    · split at hst
      · cases hst
      · cases hst
        refine (h.congr (t := { s with timer := .armed }.give c) rfl rfl id).leave ?_
        rintro _ ⟨⟩
    · split at hst
      · cases hst
        exact h.leave (by rintro _ ⟨⟩)
      · obtain ⟨lastTick,-,rfl⟩ := Option.map_eq_some_iff.1 hst
        exact (h.congr (t := { s with lastTick }) rfl rfl id).ackRetry hperiod tries
    · cases hst
      split
      · exact h.leave (by rintro _ ⟨⟩)
      · exact h.ackRetry hperiod tries
    · cases hst
      exact h.leave (by rintro _ ⟨⟩)
  · cases hst
    split
    · refine (h.congr (t := { s with queue := s.queue ++ [QueueItem.timeout] }.give c) rfl rfl
        id).leave ?_
      rintro _ ⟨⟩
    · exact h.leave (by rintro _ ⟨⟩)
  · cases hst

theorem setStep (h : s.HasPeriod) {pc : Pc} (hpos : ∀ args, pc = .setStore args → args.period ≠ 0)
    (hst : s.setStep cfg c x pc = some t) : t.HasPeriod := by
  rw [State.setStep.eq_def] at hst
  split at hst
  · cases hst
    split
    · exact h.leave (by rintro _ ⟨⟩)
    · exact h.leave (by rintro _ ⟨⟩)
  · rename_i args
    cases hst
    have hne := hpos args rfl
    refine HasPeriod.leave ⟨fun _ => hne,fun _ _ _ => hne⟩ ?_
    rintro _ ⟨⟩
  · split at hst
    · split at hst
      · cases hst
      · cases hst
        refine (h.congr (t := { s with timer := .armed }.give c) rfl rfl id).leave ?_
        rintro _ ⟨⟩
    · cases hst
      exact h.leave (by rintro _ ⟨⟩)
  · cases hst
    refine (h.congr (t := { s with state := .idle }) rfl rfl fun hactive => ?_).leave ?_
    · cases hactive
    · rintro _ ⟨⟩
  · cases hst

theorem step (h : s.HasPeriod) {l : Label κ} (hpos : s.PeriodPositive l)
    (hst : s.step cfg l = some t) : t.HasPeriod := by
  cases l with
  | callCancel c | callAck c | callSet c args =>
    simp only [State.step] at hst
    split at hst
    · cases hst
      exact h.leave (by rintro _ ⟨⟩)
    · cases hst
  | run c x =>
    simp only [State.step, State.runStep] at hst
    split at hst
    · cases hst
    · cases hst
    · exact h.cancelStep hst
    · exact h.cancelStep hst
    · exact h.cancelStep hst
    · exact h.ackStep rfl hst
    · exact h.ackStep rfl hst
    · exact h.ackStep rfl hst
    · exact h.setStep hpos hst
  | ret c =>
    simp only [State.step] at hst
    split at hst
    · cases hst
      exact h.leave (by rintro _ ⟨⟩)
    · cases hst
  | expire =>
    simp only [State.step] at hst
    split at hst
    · cases hst
      exact h.congr rfl rfl id
    · cases hst
  | deliver c =>
    simp only [State.step] at hst
    split at hst
    · split at hst
      · cases hst
        exact h.congr rfl rfl id
      · cases hst
        exact h.congr rfl rfl id
      · cases hst
    · cases hst
  | enqueue =>
    cases hst
    exact h.congr rfl rfl id

end HasPeriod
end State

/-- Each step of a life that is not one of `em_tmo_set_periodic` with a period of zero -/
def LifePositive : Option (State κ) → LifeLabel κ → Prop
  | some s, .call l => s.PeriodPositive l
  | _, _ => True

theorem Life.hasPeriod {cfg : Config} {o o' : Option (State κ)} {l : LifeLabel κ} (h : Life cfg o l o')
    (hpos : LifePositive o l) (ho : ∀ s ∈ o, s.HasPeriod) : ∀ s ∈ o', s.HasPeriod := by
  cases h with
  | create hs =>
    rintro s ⟨⟩
    have hidle := hs.1.1
    have hpc := hs.1.2.2.2.1
    refine ⟨fun hactive => ?_,fun c tries hc => ?_⟩
    · rw [hidle] at hactive
      cases hactive
    · rw [hpc c] at hc
      cases hc
  | rejected => exact ho
  | failed =>
    rintro s ⟨⟩
    exact (ho _ rfl).congr rfl rfl fun hactive => by cases hactive
  | deleted => rintro s ⟨⟩
  | call hst =>
    rintro s ⟨⟩
    exact (ho _ rfl).step hpos hst

/-- In every run over the lives of a periodic timeout `handle_ack_skip` has a period to divide by, as
long as no period of zero is set. -/
theorem skip_period_nonzero {cfg : Config} {o : Option (State κ)}
    (h : (lifeSystem cfg κ).ReachableVia (fun o l _ => LifePositive o l) o) :
    ∀ s ∈ o, s.ReachesSkip cfg → s.period ≠ 0 := by
  have hinv := h.invariant (I := fun o => ∀ s ∈ o, s.HasPeriod) (fun o ho => by
    rw [show o = none from ho]
    rintro s ⟨⟩) fun o l o' hi hst hpos => Life.hasPeriod hst hpos hi
  rintro s hs ⟨-,c,tries,hc⟩
  exact (hinv s hs).ackStart c tries hc

/-- The calls on a timeout that is there. -/
theorem lifeSystem_calls {cfg : Config} {allowed : Option (State κ) → LifeLabel κ → Option (State κ) → Prop}
    {s t : State κ} (hs : (lifeSystem cfg κ).ReachableVia allowed (some s))
    (h : (State.after cfg s).ReachableVia (fun s l t => allowed (some s) (.call l) (some t)) t) :
    (lifeSystem cfg κ).ReachableVia allowed (some t) :=
  h.invariant (I := fun t => (lifeSystem cfg κ).ReachableVia allowed (some t))
    (fun u hu => by
      rw [show u = s from hu]
      exact hs)
    fun _ _ _ hi hst ha => .step hi (.call hst) ha

private def justCreated : State Bool :=
  ⟨.idle,0,0,.free,[],fun d => if d = false then 1 else 0,fun _ => .idle,0⟩

private theorem justCreated_created : Created justCreated :=
  ⟨⟨rfl,rfl,rfl,fun _ => rfl,false,rfl⟩,rfl⟩

private def skipConfig : Config := ⟨1,false,false⟩

/-- The timeout is set, expires, and is delivered and acknowledged. -/
private def untilAck (period : BitVec 64) : List (Label Bool) :=
  [.callSet false ⟨100,period⟩, .run false {}, .run false {}, .run false {}, .ret false, .expire,
    .deliver false, .callAck false, .run false {}]

private def setsPositive (s : State Bool) : Label Bool → Bool
  | .run c _ => match s.pc c with
    | .setStore args => args.period != 0
    | _ => true
  | _ => true

private theorem setsPositive_spec {s : State Bool} {l : Label Bool} (h : setsPositive s l = true) :
    s.PeriodPositive l := by
  cases l with
  | run c x =>
    intro args hpc
    simp only [setsPositive, hpc] at h
    exact bne_iff_ne.1 h
  | _ => trivial

private def ackedPositive : Option (State Bool) :=
  System.exec (State.step skipConfig) (fun s l _ => setsPositive s l) justCreated (untilAck 10)

private theorem ackedPositive_isSome : ackedPositive.isSome = true := by decide

theorem skip_period_nonzero_acked : ∃ s : State Bool, s.ReachesSkip skipConfig ∧ s.period ≠ 0 := by
  have hskip : (ackedPositive.get ackedPositive_isSome).ReachesSkip skipConfig :=
    ⟨rfl,false,5,by decide⟩
  have hcreate : (lifeSystem skipConfig Bool).ReachableVia (fun o l _ => LifePositive o l)
      (some justCreated) := .step (.start rfl) (.create justCreated_created) trivial
  have hcalls : (State.after skipConfig justCreated).ReachableVia (fun s l _ => s.PeriodPositive l)
      (ackedPositive.get ackedPositive_isSome) :=
    System.ReachableVia.exec (fun _ _ _ => setsPositive_spec) (.start rfl)
      (Option.some_get ackedPositive_isSome).symm
  exact ⟨_,hskip,skip_period_nonzero (lifeSystem_calls hcreate hcalls) _ rfl hskip⟩

private def ackedZero : Option (State Bool) :=
  System.exec (State.step skipConfig) (fun _ _ _ => true) justCreated (untilAck 0)

private theorem ackedZero_isSome : ackedZero.isSome = true := by decide

/-- `em_tmo_set_periodic` accepts the period zero; the late acknowledgment then divides by it. -/
theorem skip_period_zero : ∃ s : State Bool, (lifeSystem skipConfig Bool).Reachable (some s) ∧
    s.ReachesSkip skipConfig ∧ s.period = 0 ∧ handleAckSkip s.lastTick s.period 101 = none := by
  refine ⟨ackedZero.get ackedZero_isSome,?_,⟨rfl,false,5,?_⟩,?_,?_⟩
  · refine lifeSystem_calls (.step (.start rfl) (.create justCreated_created) trivial) ?_
    exact System.ReachableVia.exec (fun _ _ _ _ => trivial) (.start rfl)
      (Option.some_get ackedZero_isSome).symm
  · decide
  · decide
  · decide

end EmOdp.Timer.Periodic
