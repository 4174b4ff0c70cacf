import EmOdp.Timer.Periodic

/-! A periodic timeout event is in one place, and after a cancel at most one more
timeout is delivered. -/
namespace EmOdp.Timer.Periodic
open Lib
variable {κ : Type}

/-- Where the timeout event can be. -/
inductive Place (κ : Type) where
  | odpTimer | queue | user (c : κ)
deriving DecidableEq

namespace Pc

/-- The core is in a call that has been given the timeout event and has not passed it on. -/
def Owns : Pc → Prop
  | .ackLoad | .ackStart _ | .ackSend | .setLoad _ | .setStore _ | .setStart | .setIdle _ => True
  | .done .cancel st => st = .ok
  | .done .ack st | .done .setPeriodic st => st ≠ .ok
  | _ => False

/-- The core is past the check of the state and can still arm the timer or send the event. -/
def Arms : Pc → Prop
  | .ackStart _ | .ackSend | .setStart => True
  | _ => False

theorem Arms.owns {pc : Pc} (h : pc.Arms) : pc.Owns := by
  cases pc <;> first | exact h | trivial

end Pc

namespace State
variable {s t : State κ} {c d : κ}

/-- How many times the timeout event is in a place. -/
def copies (s : State κ) : Place κ → Nat
  | .odpTimer => if s.timer = .armed then 1 else 0
  | .queue => s.queue.count .timeout
  | .user c => s.held c

/-- The timeout event is once in the place `p` and nowhere else. -/
def OnlyAt (s : State κ) (p : Place κ) : Prop := s.copies p = 1 ∧ ∀ q, q ≠ p → s.copies q = 0

/-- The timeout event is in one place, which is the core of a call that was given it. -/
structure Conserved (s : State κ) : Prop where
  place : ∃ p, s.OnlyAt p
  owner : ∀ c, (s.pc c).Owns → s.OnlyAt (.user c)

/-- The timer is armed, the event is queued, or a core is about to arm the timer. -/
def Pending (s : State κ) : Prop :=
  s.timer = .armed ∨ .timeout ∈ s.queue ∨ ∃ c, (s.pc c).Arms

/-- The timeout is not active, and at most `n` timeouts are delivered in all. -/
structure Stopped (n : Nat) (s : State κ) : Prop where
  conserved : s.Conserved
  state : s.state = .idle
  delivered : s.delivered ≤ n
  pending : s.Pending → s.delivered < n

theorem OnlyAt.unique {p q : Place κ} (h : s.OnlyAt p) (hq : 0 < s.copies q) : q = p := by
  by_contra hne
  have := h.2 q hne
  omega

theorem OnlyAt.congr {p : Place κ} (h : s.OnlyAt p) (hc : ∀ q, t.copies q = s.copies q) :
    t.OnlyAt p := ⟨(hc p).trans h.1,fun q hq => (hc q).trans (h.2 q hq)⟩

theorem Conserved.only (h : s.Conserved) {p : Place κ} (hp : 0 < s.copies p) : s.OnlyAt p := by
  obtain ⟨q,hq⟩ := h.place
  rw [hq.unique hp]
  exact hq

private theorem user_ne (hdc : d ≠ c) : Place.user c ≠ Place.user d := fun h => hdc (by cases h; rfl)

theorem onlyAt_of_armed (h : s.Conserved) (ha : s.timer = .armed) : s.OnlyAt .odpTimer :=
  h.only (by simp [copies, ha])

theorem onlyAt_of_queued (h : s.Conserved) (hq : .timeout ∈ s.queue) : s.OnlyAt .queue :=
  h.only (List.count_pos_iff.2 hq)

theorem OnlyAt.not_armed {p : Place κ} (h : s.OnlyAt p) (hp : p ≠ .odpTimer) : s.timer ≠ .armed := by
  intro ha
  have := h.2 .odpTimer hp.symm
  simp [copies, ha] at this

theorem OnlyAt.not_queued {p : Place κ} (h : s.OnlyAt p) (hp : p ≠ .queue) : .timeout ∉ s.queue :=
  List.count_eq_zero.1 (h.2 .queue hp.symm)

theorem OnlyAt.not_held {p : Place κ} (h : s.OnlyAt p) (hp : p ≠ .user d) : s.held d = 0 :=
  h.2 (.user d) hp.symm

variable [DecidableEq κ]

/-- What a step of core `c` can do. -/
inductive Effect (s : State κ) (c : κ) : State κ → Prop where
  | quiet (state : TmoState) (period lastTick : BitVec 64) (pc : Pc) :
      (pc.Owns → (s.pc c).Owns ∨ 0 < s.held c) → (pc.Arms → (s.pc c).Arms ∨ s.state = .active) →
      (state = s.state ∨ state = .idle) →
      Effect s c ({ s with state, period, lastTick }.setPc c pc)
  | activate (args : SetArgs) (now : BitVec 64) : s.pc c = .setStore args →
      Effect s c ((s.activate args now).setPc c .setStart)
  | start (op : Op) : (s.pc c).Arms → op ≠ .cancel →
      Effect s c (({ s with timer := .armed }.give c).setPc c (.done op .ok))
  | send : (s.pc c).Arms →
      Effect s c (({ s with queue := s.queue ++ [QueueItem.timeout] }.give c).setPc c (.done .ack .ok))
  | canceled : s.timer = .armed →
      Effect s c (({ s with timer := .free }.take c).setPc c (.done .cancel .ok))

theorem Effect.setPc {pc : Pc} (howns : pc.Owns → (s.pc c).Owns ∨ 0 < s.held c)
    (harms : pc.Arms → (s.pc c).Arms ∨ s.state = .active) : Effect s c (s.setPc c pc) :=
  .quiet s.state s.period s.lastTick pc howns harms (.inl rfl)

theorem cancelStep_effect {x : Answer} (h : s.cancelStep c x (s.pc c) = some t) : Effect s c t := by
  cases hpc : s.pc c <;> rw [hpc] at h <;> simp only [cancelStep, reduceCtorEq] at h
  case cancelLoad =>
    cases h
    split
    · exact .setPc (fun ho => ho.elim) fun ha => ha.elim
    · exact .setPc (fun ho => by cases ho) fun ha => ha.elim
  case cancelStore =>
    cases h
    exact .quiet .idle s.period s.lastTick _ (fun ho => ho.elim) (fun ha => ha.elim) (.inr rfl)
  case cancelOdp =>
    split at h
    · split at h <;> cases h
      exact .canceled ‹_›
    · split at h <;> cases h
      exact .setPc (fun ho => by cases ho) fun ha => ha.elim
    · cases h
      exact .setPc (fun ho => by cases ho) fun ha => ha.elim
    · cases h

theorem ackRetry_effect {tries : Nat} (hpc : s.pc c = .ackStart tries) (lastTick : BitVec 64) :
    Effect s c ({ s with lastTick }.ackRetry c tries) := by
  rw [ackRetry]
  split
  all_goals
    refine .quiet s.state s.period lastTick _ (fun _ => .inl ?_) (fun _ => .inl ?_) (.inl rfl)
    all_goals
      rw [hpc]
      exact trivial

theorem ackStep_effect {cfg : Config} {x : Answer} (h : s.ackStep cfg c x (s.pc c) = some t) :
    Effect s c t := by
  cases hpc : s.pc c <;> rw [hpc] at h <;> simp only [ackStep, reduceCtorEq] at h
  case ackLoad =>
    have howns : (s.pc c).Owns := by
      rw [hpc]
      exact trivial
    split at h <;> cases h
    · exact .quiet s.state s.period _ _ (fun _ => .inl howns) (fun _ => .inr ‹_›) (.inl rfl)
    · exact .setPc (fun _ => .inl howns) fun ha => ha.elim
    · exact .setPc (fun _ => .inl howns) fun ha => ha.elim
  case ackStart tries =>
    have harms : (s.pc c).Arms := by
      rw [hpc]
      exact trivial
    split at h
    · split at h <;> cases h
      exact .start .ack harms (by decide)
    · split at h
      · cases h
        exact .setPc (fun _ => .inl harms.owns) fun _ => .inl harms
      · obtain ⟨u,hu,rfl⟩ := Option.map_eq_some_iff.1 h
        exact ackRetry_effect hpc u
    · cases h
      split
      · exact .setPc (fun _ => .inl harms.owns) fun ha => ha.elim
      · exact ackRetry_effect hpc s.lastTick
    · cases h
      exact .setPc (fun _ => .inl harms.owns) fun ha => ha.elim
  case ackSend =>
    have harms : (s.pc c).Arms := by
      rw [hpc]
      exact trivial
    cases h
    split
    · exact .send harms
    · exact .setPc (fun _ => .inl harms.owns) fun ha => ha.elim

theorem setStep_effect {cfg : Config} {x : Answer} (h : s.setStep cfg c x (s.pc c) = some t) :
    Effect s c t := by
  cases hpc : s.pc c <;> rw [hpc] at h <;> simp only [setStep, reduceCtorEq] at h
  case setLoad args =>
    have howns : (s.pc c).Owns := by
      rw [hpc]
      exact trivial
    cases h
    split <;> exact .setPc (fun _ => .inl howns) fun ha => ha.elim
  case setStore args =>
    cases h
    exact .activate args x.now hpc
  case setStart =>
    have harms : (s.pc c).Arms := by
      rw [hpc]
      exact trivial
    split at h
    · split at h <;> cases h
      exact .start .setPeriodic harms (by decide)
    · cases h
      exact .setPc (fun _ => .inl harms.owns) fun ha => ha.elim
  case setIdle ret =>
    have howns : (s.pc c).Owns := by
      rw [hpc]
      exact trivial
    cases h
    exact .quiet .idle s.period s.lastTick _ (fun _ => .inl howns) (fun ha => ha.elim)
      (.inr rfl)

theorem runStep_effect {cfg : Config} {x : Answer} (h : s.runStep cfg c x = some t) :
    Effect s c t := by
  simp only [runStep] at h
  split at h
  · cases h
  · cases h
  all_goals first
    | exact cancelStep_effect h
    | exact ackStep_effect h
    | exact setStep_effect h

/-- The event stays where it is, and core `c` may enter a call with it. -/
theorem Conserved.same (h : s.Conserved) (c : κ) (pc : Pc) (hcopies : ∀ q, t.copies q = s.copies q)
    (hpc : t.pc = Function.update s.pc c pc) (howns : pc.Owns → s.OnlyAt (.user c)) : t.Conserved := by
  obtain ⟨p,hp⟩ := h.place
  refine ⟨⟨p,hp.congr hcopies⟩,fun d hd => ?_⟩
  rw [hpc] at hd
  by_cases hdc : d = c
  · subst hdc
    rw [Function.update_self] at hd
    exact (howns hd).congr hcopies
  · rw [Function.update_of_ne hdc] at hd
    exact (h.owner d hd).congr hcopies

/-- The event goes from one place to another, and no core but `c` has owned it. -/
theorem Conserved.move (h : s.Conserved) {p q : Place κ} (hp : s.OnlyAt p) (hq : t.OnlyAt q)
    (hpc : ∀ d, d ≠ c → t.pc d = s.pc d) (hother : ∀ d, d ≠ c → p ≠ .user d)
    (howns : (t.pc c).Owns → q = .user c) : t.Conserved := by
  refine ⟨⟨q,hq⟩,fun d hd => ?_⟩
  by_cases hdc : d = c
  · subst hdc
    rw [← howns hd]
    exact hq
  · rw [hpc d hdc] at hd
    have hown := (h.owner d hd).1
    exact absurd (hp.unique (by omega)).symm (hother d hdc)

theorem setPc_of_ne {pc : Pc} (hdc : d ≠ c) : (s.setPc c pc).pc d = s.pc d :=
  Function.update_of_ne hdc _ _

theorem setPc_self {pc : Pc} : (s.setPc c pc).pc c = pc := Function.update_self ..

/-- Core `c` gives the event it owns to the ODP timer. -/
private theorem onlyAt_armed (h : s.OnlyAt (.user c)) (pc : Pc) :
    (({ s with timer := .armed }.give c).setPc c pc).OnlyAt .odpTimer := by
  refine ⟨rfl,fun q hq => ?_⟩
  cases q with
  | odpTimer => exact absurd rfl hq
  | queue => exact h.2 .queue (by simp)
  | user d =>
    show Function.update s.held c (s.held c - 1) d = 0
    by_cases hdc : d = c
    · subst hdc
      rw [Function.update_self]
      have := h.1
      simp only [copies] at this
      omega
    · rw [Function.update_of_ne hdc]
      exact h.2 (.user d) (user_ne hdc).symm

/-- Core `c` sends the event it owns. -/
private theorem onlyAt_sent (h : s.OnlyAt (.user c)) (pc : Pc) :
    (({ s with queue := s.queue ++ [QueueItem.timeout] }.give c).setPc c pc).OnlyAt .queue := by
  have hqueue : s.queue.count .timeout = 0 := h.2 .queue (by simp)
  refine ⟨?_,fun q hq => ?_⟩
  · show (s.queue ++ [QueueItem.timeout]).count .timeout = 1
    rw [List.count_append, hqueue]
    rfl
  · cases q with
    | odpTimer => exact h.2 .odpTimer (by simp)
    | queue => exact absurd rfl hq
    | user d =>
      show Function.update s.held c (s.held c - 1) d = 0
      by_cases hdc : d = c
      · subst hdc
        rw [Function.update_self]
        have := h.1
        simp only [copies] at this
        omega
      · rw [Function.update_of_ne hdc]
        exact h.2 (.user d) (user_ne hdc).symm

/-- Core `c` gets the event that was only in the timer or only in the queue. -/
private theorem onlyAt_taken (hheld : ∀ d, s.held d = 0) (htimer : t.timer ≠ .armed)
    (hqueue : .timeout ∉ t.queue) (ht : t.held = Function.update s.held c (s.held c + 1)) :
    t.OnlyAt (.user c) := by
  refine ⟨?_,fun q hq => ?_⟩
  · show t.held c = 1
    rw [ht, Function.update_self, hheld]
  · cases q with
    | odpTimer => exact if_neg htimer
    | queue => exact List.count_eq_zero.2 hqueue
    | user d =>
      have hdc : d ≠ c := fun h => hq (by rw [h])
      show t.held d = 0
      rw [ht, Function.update_of_ne hdc, hheld]

theorem Effect.conserved (h : s.Conserved) (he : Effect s c t) : t.Conserved := by
  cases he with
  | quiet state period lastTick pc howns _ _ =>
    refine h.same c pc (fun q => by cases q <;> rfl) rfl fun ho => ?_
    rcases howns ho with ho | hheld
    · exact h.owner c ho
    · exact h.only hheld
  | activate args now hpc =>
    refine h.same c .setStart (fun q => by cases q <;> rfl) rfl fun _ => h.owner c ?_
    rw [hpc]
    exact trivial
  | start op ha hop =>
    have hown := h.owner c ha.owns
    refine h.move hown (onlyAt_armed hown _) (fun d => setPc_of_ne) (fun d => user_ne) fun ho => ?_
    rw [setPc_self] at ho
    cases op with
    | cancel => exact absurd rfl hop
    | ack => exact absurd rfl ho
    | setPeriodic => exact absurd rfl ho
  | send ha =>
    have hown := h.owner c ha.owns
    refine h.move hown (onlyAt_sent hown _) (fun d => setPc_of_ne) (fun d => user_ne) fun ho => ?_
    rw [setPc_self] at ho
    exact absurd rfl ho
  | canceled ha =>
    have hat := onlyAt_of_armed h ha
    refine h.move hat (q := .user c) ?_ (fun d => setPc_of_ne) (fun d _ => by simp) fun _ => rfl
    have hfree : OdpTimer.free ≠ .armed := by decide
    exact onlyAt_taken (fun d => hat.not_held (by simp)) hfree (hat.not_queued (by simp)) rfl

/-- A step is one of a core in a call, the expiry, a delivery of the timeout, or leaves
everything but other events in the queue as it is. -/
theorem step_cases {cfg : Config} {l : Label κ} (hst : s.step cfg l = some t) :
    (∃ c, Effect s c t ∧ (s.NoActivation l → (s.pc c).storesActive = false)) ∨
    (s.timer = .armed ∧ t = { s with timer := .expired, queue := s.queue ++ [.timeout] }) ∨
    (∃ c rest, s.pc c = .idle ∧ s.queue = .timeout :: rest ∧
      t = { s with queue := rest, delivered := s.delivered + 1 }.take c) ∨
    ∃ queue, t = { s with queue } ∧ queue.count .timeout = s.queue.count .timeout := by
  cases l with
  | callCancel c =>
    obtain ⟨hpc,he⟩ := Option.ite_none_right_eq_some.1 hst
    cases he
    have heff : Effect s c (s.setPc c .cancelLoad) := .setPc (fun ho => ho.elim) fun ha => ha.elim
    exact .inl ⟨c,heff,fun _ => by rw [hpc]; rfl⟩
  | callAck c =>
    obtain ⟨hpc,he⟩ := Option.ite_none_right_eq_some.1 hst
    cases he
    have heff : Effect s c (s.setPc c .ackLoad) := .setPc (fun _ => .inr hpc.2) fun ha => ha.elim
    exact .inl ⟨c,heff,fun _ => by rw [hpc.1]; rfl⟩
  | callSet c args =>
    obtain ⟨hpc,he⟩ := Option.ite_none_right_eq_some.1 hst
    cases he
    have heff : Effect s c (s.setPc c (.setLoad args)) := .setPc (fun _ => .inr hpc.2) fun ha => ha.elim
    exact .inl ⟨c,heff,fun _ => by rw [hpc.1]; rfl⟩
  | run c x => exact .inl ⟨c,runStep_effect hst,fun hn => hn⟩
  | ret c =>
    simp only [step] at hst
    split at hst <;> cases hst
    rename_i hpc
    have heff : Effect s c (s.setPc c .idle) := .setPc (fun ho => ho.elim) fun ha => ha.elim
    exact .inl ⟨c,heff,fun _ => by rw [hpc]; rfl⟩
  | expire =>
    obtain ⟨ha,he⟩ := Option.ite_none_right_eq_some.1 hst
    cases he
    exact .inr (.inl ⟨ha,rfl⟩)
  | deliver c =>
    obtain ⟨hpc,he⟩ := Option.ite_none_right_eq_some.1 hst
    split at he <;> cases he
    · exact .inr (.inr (.inl ⟨c,_,hpc,‹_›,rfl⟩))
    · rename_i rest hq
      refine .inr (.inr (.inr ⟨rest,rfl,?_⟩))
      rw [hq, List.count_cons_of_ne (by decide)]
  | enqueue =>
    cases hst
    refine .inr (.inr (.inr ⟨_,rfl,?_⟩))
    rw [List.count_append, List.count_cons_of_ne (by decide), List.count_nil, Nat.add_zero]

theorem step_conserved {cfg : Config} {l : Label κ} (h : s.Conserved) (hst : s.step cfg l = some t) :
    t.Conserved := by
  rcases step_cases hst with ⟨c,he,-⟩ | ⟨ha,rfl⟩ | ⟨c,rest,hpc,hq,rfl⟩ | ⟨queue,rfl,hcount⟩
  · exact he.conserved h
  · have hat := onlyAt_of_armed h ha
    refine ⟨⟨.queue,?_,fun q hq => ?_⟩,fun d hd => ?_⟩
    · have hzero : s.queue.count .timeout = 0 := hat.2 .queue (by simp)
      show (s.queue ++ [QueueItem.timeout]).count .timeout = 1
      rw [List.count_append, hzero]
      rfl
    · cases q with
      | odpTimer => rfl
      | queue => exact absurd rfl hq
      | user d => exact hat.not_held (by simp)
    · have hown : 0 < s.copies (.user d) := by
        rw [(h.owner d hd).1]
        exact Nat.one_pos
      exact absurd (hat.unique hown) (by simp)
  · have hat := onlyAt_of_queued h (by simp [hq])
    have hrest : .timeout ∉ rest := by
      have hone : s.queue.count .timeout = 1 := hat.1
      rw [hq, List.count_cons_self] at hone
      exact List.count_eq_zero.1 (by omega)
    refine h.move hat (q := .user c) ?_ (fun _ _ => rfl) (fun d _ => by simp) fun _ => rfl
    exact onlyAt_taken (fun d => hat.not_held (by simp)) (hat.not_armed (by simp)) hrest rfl
  · obtain ⟨p,hp⟩ := h.place
    have hcopies : ∀ q, ({ s with queue } : State κ).copies q = s.copies q := by
      intro q
      cases q with
      | queue => exact hcount
      | odpTimer => rfl
      | user d => rfl
    exact ⟨⟨p,hp.congr hcopies⟩,fun d hd => (h.owner d hd).congr hcopies⟩

/-- A step without an activation keeps a timeout that is not active so. -/
theorem Stopped.step {cfg : Config} {l : Label κ} {n : Nat} (h : Stopped n s)
    (hst : s.step cfg l = some t) (hn : s.NoActivation l) : Stopped n t := by
  have hc := step_conserved h.conserved hst
  rcases step_cases hst with ⟨c,he,hact⟩ | ⟨ha,rfl⟩ | ⟨c,rest,hpc,hq,rfl⟩ | ⟨queue,rfl,hcount⟩
  · cases he with
    | quiet state period lastTick pc _ harms hstate =>
      refine ⟨hc,hstate.elim (fun hs => hs.trans h.state) id,h.delivered,fun hp => h.pending ?_⟩
      rcases hp with ha | hqueue | ⟨d,hd⟩
      · exact .inl ha
      · exact .inr (.inl hqueue)
      · refine .inr (.inr ?_)
        by_cases hdc : d = c
        · subst hdc
          rw [setPc_self] at hd
          rcases harms hd with ha | ha
          · exact ⟨d,ha⟩
          · rw [h.state] at ha
            cases ha
        · rw [setPc_of_ne hdc] at hd
          exact ⟨d,hd⟩
    | activate args now hpc =>
      have hstore := hact hn
      rw [hpc] at hstore
      cases hstore
    | start op ha _ =>
      exact ⟨hc,h.state,h.delivered,fun _ => h.pending (.inr (.inr ⟨c,ha⟩))⟩
    | send ha => exact ⟨hc,h.state,h.delivered,fun _ => h.pending (.inr (.inr ⟨c,ha⟩))⟩
    | canceled ha => exact ⟨hc,h.state,h.delivered,fun _ => h.pending (.inl ha)⟩
  · exact ⟨hc,h.state,h.delivered,fun _ => h.pending (.inl ha)⟩
  · have hlt := h.pending (.inr (.inl (by simp [hq])))
    refine ⟨hc,h.state,hlt,fun hp => ?_⟩
    -- the event is with core `c`, which is in no call
    have hat : (({ s with queue := rest, delivered := s.delivered + 1 } : State κ).take c).OnlyAt
        (.user c) := hc.only (by simp [copies, take])
    rcases hp with ha | hqueue | ⟨d,hd⟩
    · exact absurd ha (hat.not_armed (by simp))
    · exact absurd hqueue (hat.not_queued (by simp))
    · have hown := (hc.owner d hd.owns).1
      have hdc : Place.user d = Place.user c := hat.unique (by omega)
      cases hdc
      have hidle : (s.pc c).Arms := hd
      rw [hpc] at hidle
      exact hidle.elim
  · refine ⟨hc,h.state,h.delivered,fun hp => h.pending ?_⟩
    rcases hp with ha | hqueue | hd
    · exact .inl ha
    · refine .inr (.inl ?_)
      rw [← List.count_pos_iff, ← hcount]
      exact List.count_pos_iff.2 hqueue
    · exact .inr (.inr hd)

end State
end EmOdp.Timer.Periodic
