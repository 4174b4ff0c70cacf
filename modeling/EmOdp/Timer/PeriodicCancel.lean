import EmOdp.Timer.PeriodicSafety

/-! Cancelling a periodic timeout: the last timeout and its acknowledgment. -/
namespace EmOdp.Timer.Periodic
open Lib
variable {κ : Type} [DecidableEq κ]

namespace State
variable {s t u : State κ} {c d : κ}

theorem Initial.conserved (hi : s.Initial) : s.Conserved := by
  obtain ⟨-,htimer,hqueue,hpc,c,hheld⟩ := hi
  refine ⟨⟨.user c,?_,fun q hq => ?_⟩,fun d hd => ?_⟩
  · simp [copies, hheld]
  · cases q with
    | odpTimer => simp [copies, htimer]
    | queue => simp [copies, hqueue]
    | user d =>
      have hdc : d ≠ c := fun h => hq (by rw [h])
      simp [copies, hheld, hdc]
  · rw [hpc d] at hd
    exact hd.elim

theorem conserved_of_reachable {cfg : Config} (h : (system cfg κ).Reachable s) : s.Conserved :=
  h.invariant (I := Conserved) (fun _ => Initial.conserved) fun s l t hs (hst : s.step cfg l = some t) _ =>
    step_conserved hs hst

/-- What follows the state `s`. -/
def after (cfg : Config) (s : State κ) : System (State κ) (Label κ) := .ofFn (· = s) (step cfg)

theorem Stopped.after {cfg : Config} {n : Nat} (h : Stopped n s)
    (hr : (after cfg s).ReachableVia (fun s l _ => s.NoActivation l) t) : Stopped n t :=
  hr.invariant (fun _ hi => hi ▸ h) fun _ _ _ hs hst hn => hs.step hst hn

theorem delivered_mono {cfg : Config} {allowed : State κ → Label κ → State κ → Prop}
    (hr : (after cfg s).ReachableVia allowed t) : s.delivered ≤ t.delivered := by
  refine hr.invariant (I := fun t => s.delivered ≤ t.delivered) (fun _ hi => hi ▸ Nat.le_refl _)
    fun u l v hs (hst : u.step cfg l = some v) _ => Nat.le_trans hs ?_
  rcases step_cases hst with ⟨c,he,-⟩ | ⟨-,rfl⟩ | ⟨c,rest,-,-,rfl⟩ | ⟨queue,rfl,-⟩
  · cases he <;> exact Nat.le_refl _
  · exact Nat.le_refl _
  · exact Nat.le_succ _
  · exact Nat.le_refl _

/-- The store of `EM_TMO_STATE_IDLE` in `em_tmo_cancel` stops the timeout. -/
theorem stopped_of_cancelStore {cfg : Config} {x : Answer} (hc : s.Conserved)
    (hpc : s.pc c = .cancelStore) (hst : s.step cfg (.run c x) = some t) :
    Stopped (s.delivered + 1) t := by
  have hconserved := step_conserved hc hst
  simp only [step, runStep, hpc, cancelStep] at hst
  cases hst
  exact ⟨hconserved,rfl,Nat.le_succ _,fun _ => Nat.lt_succ_self _⟩

omit [DecidableEq κ] in
/-- A cancel that has the event leaves nothing that can fire. -/
theorem not_pending_of_canceled (hc : s.Conserved) (hpc : s.pc c = .done .cancel .ok) : ¬s.Pending := by
  have hat : s.OnlyAt (.user c) := by
    apply hc.owner
    rw [hpc]
    rfl
  rintro (ha | hqueue | ⟨d,hd⟩)
  · exact hat.not_armed (by simp) ha
  · exact hat.not_queued (by simp) hqueue
  · have hown : 0 < s.copies (.user d) := by
      rw [(hc.owner d hd.owns).1]
      exact Nat.one_pos
    cases hat.unique hown
    rw [hpc] at hd
    exact hd.elim

/-- Acknowledging a timeout that is not active returns `EM_ERR_CANCELED`. -/
theorem Stopped.ack {cfg : Config} {n : Nat} (h : Stopped n s) (hpc : s.pc d = .ackLoad)
    (x : Answer) : ∃ t, s.step cfg (.run d x) = some t ∧ t.pc d = .done .ack .canceled ∧
      t.timer ≠ .armed ∧ t.OnlyAt (.user d) := by
  have hst : s.step cfg (.run d x) = some (s.setPc d (.done .ack .canceled)) := by
    simp only [State.step, runStep, hpc, ackStep, h.state]
  have hat := (step_conserved h.conserved hst).owner d (by
    rw [setPc_self]
    intro hcode
    cases hcode)
  exact ⟨_,hst,setPc_self,hat.not_armed (by simp),hat⟩

/-- The timeout event is always in one place, so never armed and owned by a core. After a
cancel that returned `EM_OK` or `EM_ERR_TOONEAR` at most one more timeout is delivered and
its acknowledgment returns `EM_ERR_CANCELED` with the timer disarmed, until a
`em_tmo_set_periodic` that comes after the cancel's store activates the timeout again. -/
theorem periodic_timeout_canceled (cfg : Config) :
    (∀ s : State κ, (system cfg κ).Reachable s →
      (∃ p, s.OnlyAt p) ∧ (s.timer = .armed → ∀ c, s.held c = 0)) ∧
    ∀ (s stored returned t : State κ) (c : κ) (x : Answer) (status : Status),
      (system cfg κ).Reachable s → s.pc c = .cancelStore → s.step cfg (.run c x) = some stored →
      (after cfg stored).ReachableVia (fun s l _ => s.NoActivation l) returned →
      returned.pc c = .done .cancel status → status = .ok ∨ status = .tooNear →
      (after cfg returned).ReachableVia (fun s l _ => s.NoActivation l) t →
      t.delivered ≤ returned.delivered + 1 ∧
      (status = .ok → t.delivered ≤ returned.delivered ∧ t.timer ≠ .armed) ∧
      ∀ d y, t.pc d = .ackLoad → ∃ t', t.step cfg (.run d y) = some t' ∧
        t'.pc d = .done .ack .canceled ∧ t'.timer ≠ .armed ∧ t'.OnlyAt (.user d) := by
  refine ⟨fun s hr => ?_,fun s stored returned t c x status hr hpc hst hstored hdone _ ht => ?_⟩
  · have hc := conserved_of_reachable hr
    exact ⟨hc.place,fun ha c => (onlyAt_of_armed hc ha).not_held (by simp)⟩
  have hret := (stopped_of_cancelStore (conserved_of_reachable hr) hpc hst).after hstored
  have hmore : Stopped (returned.delivered + 1) returned :=
    ⟨hret.conserved,hret.state,Nat.le_succ _,fun _ => Nat.lt_succ_self _⟩
  have hend := hmore.after ht
  refine ⟨hend.delivered,fun hok => ?_,fun d y hack => hend.ack hack y⟩
  have hnone : Stopped returned.delivered returned :=
    ⟨hret.conserved,hret.state,Nat.le_refl _,fun hp =>
      absurd hp (not_pending_of_canceled hret.conserved (hok ▸ hdone))⟩
  have hlast := hnone.after ht
  refine ⟨hlast.delivered,fun ha => ?_⟩
  have hlt := hlast.pending (.inl ha)
  have hle := delivered_mono ht
  omega

end State

private def created : State Bool :=
  ⟨.idle,0,0,.free,[],fun d => if d = false then 1 else 0,fun _ => .idle,0⟩

private theorem created_initial : created.Initial := ⟨rfl,rfl,rfl,fun _ => rfl,false,rfl⟩

private def anyConfig : Config := ⟨1,false,false⟩

/-- Core `false` sets the timeout. -/
private def setPeriodic : List (Label Bool) :=
  [.callSet false ⟨100,10⟩, .run false {}, .run false {}, .run false {}, .ret false]

/-- Core `true` has found the timeout active in a cancel. -/
private def canceling : Option (State Bool) :=
  System.exec (State.step anyConfig) (fun _ _ _ => true) created
    (setPeriodic ++ [.expire, .callCancel true, .run true {}])

private theorem canceling_isSome : canceling.isSome = true := by decide

private def quiet (s : State Bool) (ls : List (Label Bool)) : Option (State Bool) :=
  System.exec (State.step anyConfig) (fun s l _ => decide (s.NoActivation l)) s ls

private def stored : Option (State Bool) :=
  State.step anyConfig (canceling.get canceling_isSome) (.run true {})

private theorem stored_isSome : stored.isSome = true := by decide

/-- The ODP timer has expired before its cancel. -/
private def returned : Option (State Bool) :=
  quiet (stored.get stored_isSome) [.run true { ret := .tooNear }]

private theorem returned_isSome : returned.isSome = true := by decide

/-- The last timeout is received and acknowledged. -/
private def acked : Option (State Bool) :=
  quiet (returned.get returned_isSome) [.ret true, .deliver false, .callAck false]

private theorem acked_isSome : acked.isSome = true := by decide

private theorem quiet_reachable {s t : State Bool} {ls : List (Label Bool)} (h : quiet s ls = some t) :
    (State.after anyConfig s).ReachableVia (fun s l _ => s.NoActivation l) t :=
  System.ReachableVia.exec (fun _ _ _ => of_decide_eq_true) (.start rfl) h

theorem periodic_timeout_canceled_late : ∃ s t : State Bool, s.delivered = 1 ∧
    State.step anyConfig s (.run false {}) = some t ∧ t.pc false = .done .ack .canceled ∧
      t.timer ≠ .armed := by
  have hreach : (State.system anyConfig Bool).Reachable (canceling.get canceling_isSome) :=
    System.ReachableVia.exec (fun _ _ _ _ => trivial) (.start created_initial)
      (Option.some_get canceling_isSome).symm
  have h := (State.periodic_timeout_canceled anyConfig).2 _ _ _ _ true {} .tooNear hreach
    (by decide) (Option.some_get stored_isSome).symm
    (quiet_reachable (Option.some_get returned_isSome).symm) (by decide) (.inr rfl)
    (quiet_reachable (Option.some_get acked_isSome).symm)
  obtain ⟨t,hst,hpc,harmed,-⟩ := h.2.2 false {} (by decide)
  exact ⟨_,t,by decide,hst,hpc,harmed⟩

/-- Core `true` cancels; its store of `EM_TMO_STATE_IDLE` ends the timeout, core `false` sets
it again, and the ODP timer has expired again when core `true` comes to cancel it. -/
private def overtaken : Option (State Bool) :=
  System.exec (State.step anyConfig) (fun _ _ _ => true) created
    (setPeriodic ++ [.expire, .deliver false, .callCancel true, .run true {}, .run true {},
      .callAck false, .run false {}, .ret false] ++ setPeriodic ++
      [.expire, .run true { ret := .tooNear }])

private theorem overtaken_isSome : overtaken.isSome = true := by decide

def Label.isSet : Label κ → Bool
  | .callSet .. => true
  | _ => false

private def unset (s : State Bool) (ls : List (Label Bool)) : Option (State Bool) :=
  System.exec (State.step anyConfig) (fun _ l _ => decide (l.isSet = false)) s ls

private theorem unset_reachable {s t : State Bool} {ls : List (Label Bool)} (h : unset s ls = some t) :
    (State.after anyConfig s).ReachableVia (fun _ l _ => l.isSet = false) t :=
  System.ReachableVia.exec (fun _ _ _ => of_decide_eq_true) (.start rfl) h

/-- The timeout goes on: it is delivered, acknowledged and armed again. -/
private def goesOn : Option (State Bool) :=
  unset (overtaken.get overtaken_isSome)
    [.ret true, .deliver false, .callAck false, .run false {}, .run false {}]

private theorem goesOn_isSome : goesOn.isSome = true := by decide

private def deliveredAgain : Option (State Bool) :=
  unset (goesOn.get goesOn_isSome) [.ret false, .expire, .deliver false]

private theorem deliveredAgain_isSome : deliveredAgain.isSome = true := by decide

/-- A cancel has returned `EM_ERR_TOONEAR` and the timeout is not set any more, but an
acknowledgment returns `EM_OK` and arms the timer, and two more timeouts are delivered. -/
theorem canceled_timeout_goes_on : ∃ returned acked t : State Bool,
    (State.system anyConfig Bool).Reachable returned ∧ returned.pc false = .idle ∧
    returned.pc true = .done .cancel .tooNear ∧
    (State.after anyConfig returned).ReachableVia (fun _ l _ => l.isSet = false) acked ∧
    acked.pc false = .done .ack .ok ∧ acked.timer = .armed ∧
    (State.after anyConfig acked).ReachableVia (fun _ l _ => l.isSet = false) t ∧
    t.delivered = returned.delivered + 2 := by
  refine ⟨overtaken.get overtaken_isSome,goesOn.get goesOn_isSome,
    deliveredAgain.get deliveredAgain_isSome,?_,?_,?_,?_,?_,?_,?_,?_⟩
  · exact System.ReachableVia.exec (fun _ _ _ _ => trivial) (.start created_initial)
      (Option.some_get overtaken_isSome).symm
  · decide
  · decide
  · exact unset_reachable (Option.some_get goesOn_isSome).symm
  · decide
  · decide
  · exact unset_reachable (Option.some_get deliveredAgain_isSome).symm
  · decide

end EmOdp.Timer.Periodic
