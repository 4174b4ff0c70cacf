import EmOdp.Timer.Tmo

/-! A call on a timeout that fails: when the timeout stays usable. -/
namespace EmOdp.Timer
open Lib
variable {ε : Type} [DecidableEq ε]

/-- The event that is passed to a call. -/
def TmoLabel.passed : TmoLabel ε → Option ε
  | .setAbs ev _ | .setRel ev _ | .setPeriodic ev .. => ev
  | _ => none

def TmoLabel.isSet : TmoLabel ε → Bool
  | .setAbs .. | .setRel .. | .setPeriodic .. | .setPeriodicRing .. | .setPeriodicRingFreq .. => true
  | _ => false

/-- A set, a cancel or a delete that returns an error; `EM_ERR_TOONEAR` of a cancel is none. -/
def TmoLabel.Fails (l : TmoLabel ε) (st : Status) : Prop :=
  match l with
  | .cancel .. => st ≠ .ok ∧ st ≠ .tooNear
  | .ack .. | .expire => False
  | _ => st ≠ .ok

namespace Tmo

/-- `em_tmo_cancel` gives back what is armed; a ring only stops. -/
def Cancellable (cfg : TmoConfig) (t : Tmo ε) : Prop :=
  match t.armed with
  | none => False
  | some (.event e) => ((t.emTmoCancel cfg true .success true).1.2,
      (t.emTmoCancel cfg true .success true).2) = (.ok,some e)
  | some .ring => (t.emTmoCancel cfg true .success true).1.2 = .tooNear

/-- `em_tmo_delete` is accepted. -/
def Deletable (cfg : TmoConfig) (t : Tmo ε) : Prop := (t.emTmoDelete cfg true).2 = .ok

/-- The timeout after a failed call: what was armed still expires as it was armed to and can
be cancelled, the timeout can be cancelled or deleted, and the caller has its event. -/
structure Usable (cfg : TmoConfig) (s : Tmo ε) (l : TmoLabel ε) (t : Tmo ε) : Prop where
  armed : ∀ a, s.armed = some a →
    t.armed = some a ∧ t.period = s.period ∧ t.lastTick = s.lastTick ∧ t.Cancellable cfg
  later : t.Cancellable cfg ∨ t.Deletable cfg
  owned : ∀ e, l.passed = some e → t.armed ≠ some (.event e) ∧
    ((s.hdr e).owner = .user → (t.hdr e).owner = .user)
  active : l.isSet = true → s.state = .active → t.state = .active ∧ t.period = s.period

/-- The start of the ODP timer is reached from an active timeout, and fails. -/
def StartFails (cfg : TmoConfig) (s : Tmo ε) : TmoLabel ε → Prop
  | .setAbs ev ret => (s.setChecks cfg (s.setAbsCheck cfg ev) ev).isOk = true ∧ ret ≠ .success
  | .setRel ev ret => (s.setChecks cfg (s.setRelCheck cfg ev) ev).isOk = true ∧ ret ≠ .success
  | .setPeriodic ev _ _ _ ret =>
    (s.setChecks cfg (s.setPeriodicCheck cfg ev) ev).isOk = true ∧ ret ≠ .success
  | .setPeriodicRing multiplier x => s.setRingCheck cfg false none = none ∧ x.ret ≠ .success ∧
    if cfg.pre150 then s.odpTimeout = true ∨ x.timeoutAlloc = true else s.multiplier = multiplier
  | .setPeriodicRingFreq freqHz x => cfg.pre150 = false ∧
    s.setRingCheck cfg true (freqCheck freqHz) = none ∧ x.ret ≠ .success ∧ s.freqHz = freqHz
  | _ => False

/-- The calls that store a fixed state where the timeout had another one: a start that fails
on an active timeout, a cancel that fails while something is armed, and a delete that fails. -/
def LosesTmo (cfg : TmoConfig) (s : Tmo ε) : TmoLabel ε → Prop
  | .cancel curEvent ret ringOk => s.cancelCheck cfg curEvent = none ∧ s.armed ≠ none ∧
    if s.isRing then ringOk = false else ret = .fail
  | .delete freeOk => s.deleteCheck cfg = none ∧ (cfg.pre150 = true ∨ s.odpTimer = true) ∧
    freeOk = false ∧ (1 < cfg.checkLevel ∨ s.armed ≠ none)
  | l => s.state = .active ∧ s.StartFails cfg l

instance (cfg : TmoConfig) (s : Tmo ε) : DecidablePred (s.StartFails cfg) := fun l => by
  cases l <;> simp only [StartFails] <;> infer_instance

instance (cfg : TmoConfig) (s : Tmo ε) : DecidablePred (s.LosesTmo cfg) := fun l => by
  cases l <;> simp only [LosesTmo] <;> infer_instance

/-- A timeout that no call has lost. -/
structure Consistent (cfg : TmoConfig) (t : Tmo ε) : Prop where
  buffer : t.odpBuffer = true
  active : t.armed ≠ none → t.state = .active
  timer : cfg.pre150 = true ∨ t.isRing = false → t.odpTimer = true
  timerActive : t.state = .active → t.odpTimer = true
  known : 1 < cfg.checkLevel → t.state ≠ .unknown
  ring : t.armed = some .ring → t.isRing = true
  event : ∀ e, t.armed = some (.event e) → t.isRing = false

variable {cfg : TmoConfig} {s t u : Tmo ε} {l : TmoLabel ε} {st : Status} {e : ε} {ret : OdpRet}

omit [DecidableEq ε] in
/-- Two states that differ in the headers, the ticks and the rate only. -/
theorem Consistent.congr (h : s.Consistent cfg) (hbuffer : t.odpBuffer = s.odpBuffer)
    (harmed : t.armed = s.armed) (hstate : t.state = s.state) (htimer : t.odpTimer = s.odpTimer)
    (hring : t.isRing = s.isRing) : t.Consistent cfg := by
  constructor
  · exact hbuffer.trans h.buffer
  · rw [harmed, hstate]
    exact h.active
  · rw [hring, htimer]
    exact h.timer
  · rw [hstate, htimer]
    exact h.timerActive
  · rw [hstate]
    exact h.known
  · rw [harmed, hring]
    exact h.ring
  · rw [harmed, hring]
    exact h.event

omit [DecidableEq ε] in
/-- An idle timeout with nothing armed. -/
theorem Consistent.idle (h : s.Consistent cfg) (hbuffer : t.odpBuffer = s.odpBuffer)
    (harmed : t.armed = none) (hstate : t.state = .idle) (htimer : t.odpTimer = s.odpTimer)
    (hring : t.isRing = s.isRing) : t.Consistent cfg := by
  constructor
  · exact hbuffer.trans h.buffer
  · exact fun ha => absurd harmed ha
  · rw [hring, htimer]
    exact h.timer
  · rw [hstate]
    exact fun hne => nomatch hne
  · rw [hstate]
    exact fun _ hne => nomatch hne
  · rw [harmed]
    exact fun hne => nomatch hne
  · rw [harmed]
    exact fun _ hne => nomatch hne

omit [DecidableEq ε] in
theorem Consistent.unarmed (h : s.Consistent cfg) (hs : s.state ≠ .active) : s.armed = none :=
  Decidable.byContradiction fun ha => hs (h.active ha)

omit [DecidableEq ε] in
theorem Consistent.cancelCheck (h : s.Consistent cfg) (hs : s.state = .active) :
    s.cancelCheck cfg true = none := by
  simp [Tmo.cancelCheck, h.buffer, h.timerActive hs, hs]

theorem Consistent.cancellable (h : s.Consistent cfg) (ha : s.armed ≠ none) : s.Cancellable cfg := by
  have hs := h.active ha
  unfold Cancellable
  split
  · rename_i hnone
    exact ha hnone
  · rename_i e harmed
    simp [emTmoCancel, h.cancelCheck hs, h.event e harmed, harmed]
  · rename_i harmed
    simp [emTmoCancel, h.cancelCheck hs, h.ring harmed]

omit [DecidableEq ε] in
theorem Consistent.deleteCheck (h : s.Consistent cfg) : s.deleteCheck cfg = none := by
  unfold Tmo.deleteCheck
  rw [if_neg (by simp [h.buffer]), if_neg fun hc => h.known hc.1 hc.2, if_neg]
  rintro ⟨-,hkind,htimer⟩
  rw [h.timer hkind] at htimer
  cases htimer

omit [DecidableEq ε] in
theorem Consistent.deletable (h : s.Consistent cfg) : s.Deletable cfg := by
  simp [Deletable, emTmoDelete, h.deleteCheck]

/-- A call that leaves the timeout as it is, or nearly so. -/
theorem usable_of_eq (hpassed : ∀ e, l.passed = some e → s.armed ≠ some (.event e))
    (hstate : t.state = s.state) (harmed : t.armed = s.armed) (hperiod : t.period = s.period)
    (htick : t.lastTick = s.lastTick) (hhdr : t.hdr = s.hdr) (ht : t.Consistent cfg) :
    Usable cfg s l t := by
  constructor
  · intro a ha
    have hta := harmed.trans ha
    refine ⟨hta,hperiod,htick,ht.cancellable ?_⟩
    rw [hta]
    exact fun hne => nomatch hne
  · exact .inr ht.deletable
  · intro e he
    rw [harmed, hhdr]
    exact ⟨hpassed e he,id⟩
  · exact fun _ hs => ⟨hstate.trans hs,hperiod⟩

/-- A timeout that had nothing armed stays usable as long as it can be deleted. -/
theorem usable_of_unarmed (hs : s.armed = none) (ht : t.armed = none) (hd : t.Deletable cfg)
    (howned : ∀ e, l.passed = some e → (s.hdr e).owner = .user → (t.hdr e).owner = .user)
    (hactive : l.isSet = true → s.state ≠ .active) : Usable cfg s l t := by
  constructor
  · intro a ha
    rw [hs] at ha
    cases ha
  · exact .inr hd
  · intro e he
    refine ⟨?_,howned e he⟩
    rw [ht]
    exact fun hne => nomatch hne
  · exact fun hset hs => absurd hs (hactive hset)

/-- The arming of a timeout with an event that the caller has. -/
theorem start_success (cfg : TmoConfig) (t : Tmo ε) (e : ε) (type : TmoType) : ∃ hdr,
    (t.usr2em cfg e).start cfg e type .success =
      ({ t with state := .active, armed := some (.event e), hdr },.ok) := by
  refine ⟨((t.usr2em cfg e).start cfg e type .success).1.hdr,?_⟩
  unfold usr2em start
  split <;> rfl

theorem start_failed (cfg : TmoConfig) (t : Tmo ε) (e : ε) (type : TmoType) (hret : ret ≠ .success) : ∃ hdr,
    (t.usr2em cfg e).start cfg e type ret =
      ({ t with state := .idle, hdr },timerRvOdp2em cfg.pre150 ret) ∧
    ((t.hdr e).owner = .user → (hdr e).owner = .user) := by
  refine ⟨((t.usr2em cfg e).start cfg e type ret).1.hdr,?_⟩
  unfold usr2em start em2usr
  rw [if_neg hret]
  by_cases hesv : cfg.esvEnabled = true
  · simp [hesv, setHdr, resetHdr]
  · simp [hesv, setHdr, resetHdr]

/-- How a set ends: the timer is started, the set is refused before its start, or the start
fails and `EM_TMO_STATE_IDLE` is stored. -/
inductive SetEnds (cfg : TmoConfig) (s : Tmo ε) (l : TmoLabel ε) : Tmo ε → Status → Prop
  | started {t : Tmo ε} (h : t.Consistent cfg) : SetEnds cfg s l t .ok
  | refused {t : Tmo ε} {st : Status} (hst : st ≠ .ok) (h : t.Consistent cfg)
      (hstate : t.state = s.state) (harmed : t.armed = s.armed) (hperiod : t.period = s.period)
      (htick : t.lastTick = s.lastTick) (hhdr : t.hdr = s.hdr) (hn : ¬s.LosesTmo cfg l) :
      SetEnds cfg s l t st
  | failed {t : Tmo ε} {st : Status} (hst : st ≠ .ok) (h : s.state ≠ .active → t.Consistent cfg)
      (hidle : t.state = .idle) (harmed : t.armed = s.armed)
      (howned : ∀ e, l.passed = some e → (s.hdr e).owner = .user → (t.hdr e).owner = .user)
      (hl : s.state = .active → s.LosesTmo cfg l) : SetEnds cfg s l t st

omit [DecidableEq ε] in
theorem SetEnds.same (h : s.Consistent cfg) (hst : st ≠ .ok) (hn : ¬s.LosesTmo cfg l) :
    SetEnds cfg s l s st := .refused hst h rfl rfl rfl rfl rfl hn

theorem timerRvOdp2em_ne_ok {pre150 : Bool} (h : ret ≠ .success) : timerRvOdp2em pre150 ret ≠ .ok := by
  cases ret <;> cases pre150 <;> first | exact absurd rfl h | exact fun he => nomatch he

/-- A set with an event, from the start of the ODP timer on. -/
theorem setEvent_ends {period lastTick : BitVec 64} {type : TmoType} (h : s.Consistent cfg)
    (hring : s.isRing = false) (hp : l.passed = some e)
    (hl : s.state = .active → ret ≠ .success → s.LosesTmo cfg l) {p : Tmo ε × Status}
    (heq : p = (({ s with period, lastTick }).usr2em cfg e).start cfg e type ret) :
    SetEnds cfg s l p.1 p.2 := by
  by_cases hret : ret = .success
  · obtain ⟨hdr,hstart⟩ := start_success cfg { s with period, lastTick } e type
    rw [heq, hret, hstart]
    refine .started ⟨h.buffer,fun _ => rfl,h.timer,fun _ => h.timer (.inr hring),?_,?_,?_⟩
    · exact fun _ hne => nomatch hne
    · exact fun hne => nomatch hne
    · exact fun _ _ => hring
  · obtain ⟨hdr,hstart,howned⟩ := start_failed cfg { s with period, lastTick } e type hret
    rw [heq, hstart]
    refine .failed (timerRvOdp2em_ne_ok hret) (fun hs => ?_) rfl rfl (fun d hd => ?_) fun hs => hl hs hret
    · exact h.idle rfl (h.unarmed hs) rfl rfl rfl
    · rw [hp] at hd
      cases hd
      exact howned

omit [DecidableEq ε] in
/-- The start of the ODP timer of a ring. -/
theorem startRing_ends (h : t.Consistent cfg) (hring : t.isRing = true) (htimer : t.odpTimer = true)
    (hstate : t.state = s.state) (harmed : t.armed = s.armed) (hp : l.passed = none)
    (hl : s.state = .active → ret ≠ .success → s.LosesTmo cfg l) :
    SetEnds cfg s l (t.startRing cfg ret).1 (t.startRing cfg ret).2 := by
  unfold startRing
  by_cases hret : ret = .success
  · rw [if_pos hret]
    refine .started ⟨h.buffer,fun _ => rfl,h.timer,fun _ => htimer,?_,fun _ => hring,?_⟩
    · exact fun _ hne => nomatch hne
    · exact fun _ hne => nomatch hne
  · rw [if_neg hret]
    refine .failed (timerRvOdp2em_ne_ok hret) (fun hs => ?_) rfl harmed ?_ fun hs => hl hs hret
    · exact h.idle rfl (h.unarmed (hstate ▸ hs)) rfl rfl rfl
    · intro e he
      rw [hp] at he
      cases he

omit [DecidableEq ε] in
/-- An idle ring without an ODP timer gets one. -/
theorem allocRing_ends {setRate : Tmo ε → Tmo ε} {x : RingAnswer}
    (hrate : ∀ t, ∃ multiplier freqHz, setRate t = { t with multiplier, freqHz })
    (h : s.Consistent cfg) (hs : s.state ≠ .active) (ht : t.Consistent cfg)
    (hstate : t.state = s.state) (harmed : t.armed = none) (hperiod : t.period = s.period)
    (htick : t.lastTick = s.lastTick) (hhdr : t.hdr = s.hdr) (htring : t.isRing = true)
    (hp : l.passed = none) (hn : ¬s.LosesTmo cfg l) {p : Tmo ε × Status}
    (heq : p = if 1 < cfg.checkLevel ∧ x.queueAllocated = false then (t,.badArg)
      else if x.timerAlloc = false then (t,.libFailed)
      else (setRate { t with odpTimer := true }).startRing cfg x.ret) :
    SetEnds cfg s l p.1 p.2 := by
  have hunarmed := harmed.trans (h.unarmed hs).symm
  subst heq
  split
  · exact .refused (fun hne => nomatch hne) ht hstate hunarmed hperiod htick hhdr hn
  · split
    · exact .refused (fun hne => nomatch hne) ht hstate hunarmed hperiod htick hhdr hn
    · obtain ⟨multiplier,freqHz,hset⟩ := hrate { t with odpTimer := true }
      rw [hset]
      refine startRing_ends ⟨ht.buffer,ht.active,fun _ => rfl,fun _ => rfl,ht.known,ht.ring,ht.event⟩
        htring rfl hstate hunarmed hp fun hact => absurd hact hs

omit [DecidableEq ε] in
/-- A ring from ODP 1.50 on; a change of the rate is refused while the timeout is active. -/
theorem reallocRing_ends {changed : Bool} {setRate : Tmo ε → Tmo ε} {x : RingAnswer}
    (hrate : ∀ t, ∃ multiplier freqHz, setRate t = { t with multiplier, freqHz })
    (h : s.Consistent cfg) (hpre : cfg.pre150 = false) (hring : s.isRing = true)
    (hp : l.passed = none)
    (hl : s.LosesTmo cfg l ↔ s.state = .active ∧ x.ret ≠ .success ∧ changed = false) :
    SetEnds cfg s l (s.reallocRing cfg changed setRate x).1 (s.reallocRing cfg changed setRate x).2 := by
  unfold reallocRing
  by_cases hfree : s.odpTimer = true ∧ changed = true
  · by_cases hs : s.state = .active
    · rw [if_pos ⟨hfree.1,hfree.2,hs⟩]
      refine .same h (fun hne => nomatch hne) fun hloses => ?_
      rw [(hl.1 hloses).2.2] at hfree
      exact Bool.false_ne_true hfree.2
    · rw [if_neg fun hc => hs hc.2.2]
      simp only [if_pos hfree, Bool.false_eq_true, if_false]
      refine allocRing_ends (t := { s with odpTimer := false, armed := none }) (x := x) hrate h hs ?_ rfl rfl rfl rfl rfl hring hp
        (fun hloses => hs (hl.1 hloses).1) rfl
      refine ⟨h.buffer,fun hne => absurd rfl hne,fun hc => ?_,fun hc => absurd hc hs,h.known,?_,?_⟩
      · rcases hc with hc | hc
        · rw [hpre] at hc
          cases hc
        · exact absurd (hring.symm.trans hc) Bool.noConfusion
      · exact fun hne => nomatch hne
      · exact fun _ hne => nomatch hne
  · rw [if_neg fun hc => hfree ⟨hc.1,hc.2.1⟩]
    simp only [if_neg hfree]
    by_cases htimer : s.odpTimer = true
    · rw [if_pos htimer]
      refine startRing_ends h hring htimer rfl rfl hp fun hs hret => hl.2 ⟨hs,hret,?_⟩
      cases changed with
      | false => rfl
      | true => exact absurd ⟨htimer,rfl⟩ hfree
    · have hs : s.state ≠ .active := fun hs => htimer (h.timerActive hs)
      rw [if_neg htimer]
      exact allocRing_ends (x := x) hrate h hs h rfl (h.unarmed hs) rfl rfl rfl hring hp
        (fun hloses => hs (hl.1 hloses).1) rfl

omit [DecidableEq ε] in
theorem setChecks_ok {check : Option Status} {ev : Option ε} (h : s.setChecks cfg check ev = .ok e) :
    ev = some e := by
  unfold setChecks at h
  split at h
  · cases h
  · cases h
  · split at h
    · cases h
    · cases h
      rfl

omit [DecidableEq ε] in
theorem setChecks_error {check : Option Status} {ev : Option ε} (hcheck : check ≠ some .ok)
    (h : s.setChecks cfg check ev = .error st) : st ≠ .ok := by
  unfold setChecks setEventCheck at h
  rintro rfl
  split at h
  · cases h
    exact hcheck rfl
  · cases h
  · grind

/-- A set with an event: its checks, then the arming. -/
theorem setCall_ends {check : Option Status} {p : Tmo ε × Status} (l : TmoLabel ε)
    (ev : Option ε) (period lastTick : BitVec 64) (type : TmoType) (h : s.Consistent cfg) (hring : s.isRing = false)
    (hcheck : check ≠ some .ok) (hp : l.passed = ev)
    (hl : s.LosesTmo cfg l ↔
      s.state = .active ∧ (s.setChecks cfg check ev).isOk = true ∧ ret ≠ .success)
    (heq : p = match s.setChecks cfg check ev with
      | .error st => (s,st)
      | .ok e => (({ s with period, lastTick }).usr2em cfg e).start cfg e type ret) :
    SetEnds cfg s l p.1 p.2 := by
  cases hchecks : s.setChecks cfg check ev with
  | error st =>
    rw [hchecks] at heq hl
    rw [heq]
    exact .same h (setChecks_error hcheck hchecks) fun hloses => Bool.false_ne_true (hl.1 hloses).2.1
  | ok e =>
    rw [hchecks] at heq hl
    exact setEvent_ends h hring (hp.trans (setChecks_ok hchecks))
      (fun hs hret => hl.2 ⟨hs,rfl,hret⟩) heq

omit [DecidableEq ε] in
theorem setRingCheck_ne_ok {ringFreq : Bool} {rateCheck : Option Status}
    (h : rateCheck ≠ some .ok) : s.setRingCheck cfg ringFreq rateCheck ≠ some .ok := by
  unfold setRingCheck
  grind

theorem usr2em_ticks (period lastTick : BitVec 64) :
    ({ s with period, lastTick }).usr2em cfg e = { s.usr2em cfg e with period, lastTick } := by
  unfold usr2em
  split <;> rfl

omit [DecidableEq ε] in
theorem emTmoSetPeriodicRing_ends {m : BitVec 64} {x : RingAnswer} (h : s.Consistent cfg)
    (hring : s.isRing = true) :
    SetEnds cfg s (.setPeriodicRing m x) (s.emTmoSetPeriodicRing cfg m x).1
      (s.emTmoSetPeriodicRing cfg m x).2 := by
  unfold emTmoSetPeriodicRing
  cases hcheck : s.setRingCheck cfg false none with
  | some st =>
    refine .same h (fun hst => ?_) fun hloses => ?_
    · rw [show st = .ok from hst] at hcheck
      refine setRingCheck_ne_ok ?_ hcheck
      exact fun hne => nomatch hne
    · cases hcheck.symm.trans hloses.2.1
  | none =>
    by_cases hpre : cfg.pre150 = true
    · simp only [if_pos hpre]
      by_cases halloc : s.odpTimeout = false ∧ x.timeoutAlloc = false
      · rw [if_pos halloc]
        refine .refused (fun hne => nomatch hne) ?_ rfl rfl rfl rfl rfl fun hloses => ?_
        · exact h.congr rfl rfl rfl rfl rfl
        · have hev := hloses.2.2.2
          rw [if_pos hpre, halloc.1, halloc.2] at hev
          simp at hev
      · rw [if_neg halloc]
        refine startRing_ends (h.congr rfl rfl rfl rfl rfl) hring (h.timer (.inl hpre)) rfl rfl rfl
          fun hs hret => ⟨hs,hcheck,hret,?_⟩
        rw [if_pos hpre]
        cases hev : s.odpTimeout with
        | true => exact .inl rfl
        | false => exact .inr (Bool.eq_true_of_not_eq_false fun hno => halloc ⟨hev,hno⟩)
    · simp only [if_neg hpre]
      refine reallocRing_ends (fun t => ⟨_,t.freqHz,rfl⟩) h (Bool.eq_false_of_not_eq_true hpre) hring rfl ?_
      simp [LosesTmo, StartFails, hcheck, hpre]

omit [DecidableEq ε] in
theorem emTmoSetPeriodicRingFreq_ends {f : FractU64} {x : RingAnswer} (h : s.Consistent cfg)
    (hring : s.isRing = true) :
    SetEnds cfg s (.setPeriodicRingFreq f x) (s.emTmoSetPeriodicRingFreq cfg f x).1
      (s.emTmoSetPeriodicRingFreq cfg f x).2 := by
  unfold emTmoSetPeriodicRingFreq
  by_cases hpre : cfg.pre150 = true
  · rw [if_pos hpre]
    refine .same h (fun hne => nomatch hne) fun hloses => ?_
    cases hpre.symm.trans hloses.2.1
  · rw [if_neg hpre]
    cases hcheck : s.setRingCheck cfg true (freqCheck f) with
    | some st =>
      refine .same h (fun hst => ?_) fun hloses => ?_
      · rw [show st = .ok from hst] at hcheck
        refine setRingCheck_ne_ok ?_ hcheck
        unfold freqCheck
        grind
      · cases hcheck.symm.trans hloses.2.2.1
    | none =>
      refine reallocRing_ends (fun t => ⟨t.multiplier,_,rfl⟩) h (Bool.eq_false_of_not_eq_true hpre)
        hring rfl ?_
      simp [LosesTmo, StartFails, hcheck, hpre]

theorem set_ends (h : s.Consistent cfg) (hset : l.isSet = true) (hc : s.call cfg l = some (t,st)) :
    SetEnds cfg s l t st := by
  cases l with
  | setAbs ev ret =>
    obtain ⟨⟨-,-,-,hring⟩,heq⟩ := Option.ite_none_right_eq_some.1 hc
    have hcheck : s.setAbsCheck cfg ev ≠ some .ok := by
      unfold setAbsCheck
      grind
    exact setCall_ends (.setAbs ev ret) ev s.period s.lastTick .oneshot h hring hcheck rfl Iff.rfl
      (Option.some.inj heq).symm
  | setRel ev ret =>
    obtain ⟨⟨-,-,-,hring⟩,heq⟩ := Option.ite_none_right_eq_some.1 hc
    have hcheck : s.setRelCheck cfg ev ≠ some .ok := by
      unfold setRelCheck
      grind
    exact setCall_ends (.setRel ev ret) ev s.period s.lastTick .oneshot h hring hcheck rfl Iff.rfl
      (Option.some.inj heq).symm
  | setPeriodic ev startAbs period now ret =>
    obtain ⟨⟨-,-,-,hring⟩,heq⟩ := Option.ite_none_right_eq_some.1 hc
    have hcheck : s.setPeriodicCheck cfg ev ≠ some .ok := by
      unfold setPeriodicCheck
      grind
    refine setCall_ends (.setPeriodic ev startAbs period now ret) ev period
      (if startAbs = 0 then now + period else startAbs) .periodic h hring hcheck rfl Iff.rfl
      ((Option.some.inj heq).symm.trans ?_)
    unfold emTmoSetPeriodic
    cases s.setChecks cfg (s.setPeriodicCheck cfg ev) ev with
    | error st => rfl
    | ok e =>
      simp only [usr2em_ticks]
  | setPeriodicRing multiplier x =>
    obtain ⟨⟨-,hring⟩,heq⟩ := Option.ite_none_right_eq_some.1 hc
    have hends := emTmoSetPeriodicRing_ends (m := multiplier) (x := x) h hring
    rw [Option.some.inj heq] at hends
    exact hends
  | setPeriodicRingFreq freqHz x =>
    obtain ⟨⟨-,hring⟩,heq⟩ := Option.ite_none_right_eq_some.1 hc
    have hends := emTmoSetPeriodicRingFreq_ends (f := freqHz) (x := x) h hring
    rw [Option.some.inj heq] at hends
    exact hends
  | cancel => cases hset
  | delete => cases hset
  | ack => cases hset
  | expire => cases hset

omit [DecidableEq ε] in
theorem cancelCheck_active {curEvent : Bool} (h : s.cancelCheck cfg curEvent = none) :
    s.state = .active := by
  unfold Tmo.cancelCheck at h
  grind

theorem expire_idle (h : s.Consistent cfg) (hring : s.isRing = false) :
    ({ s with state := .idle }.expire cfg).Consistent cfg := by
  unfold expire em2usr
  split
  · split <;> exact h.idle rfl rfl rfl rfl rfl
  · rename_i hno
    refine h.idle rfl ?_ rfl rfl rfl
    cases harmed : s.armed with
    | none => rfl
    | some a => cases a with
      | event e => exact absurd harmed (hno e)
      | ring => cases hring.symm.trans (h.ring harmed)

/-- How a cancel ends, unless it loses the timeout. -/
theorem cancel_ends {curEvent ringOk : Bool} (h : s.Consistent cfg)
    (hc : s.call cfg (.cancel curEvent ret ringOk) = some (t,st))
    (hn : ¬s.LosesTmo cfg (.cancel curEvent ret ringOk)) :
    t = s ∨ t.Consistent cfg ∧ (st = .ok ∨ st = .tooNear ∨ s.armed = none ∧ t.armed = none) := by
  obtain ⟨-,heq⟩ := Option.ite_none_right_eq_some.1 hc
  have hp := Option.some.inj heq
  unfold emTmoCancel at hp
  cases hcheck : s.cancelCheck cfg curEvent with
  | some st =>
    rw [hcheck] at hp
    cases hp
    exact .inl rfl
  | none =>
    rw [hcheck] at hp
    refine .inr ?_
    simp only [LosesTmo, hcheck, true_and] at hn
    by_cases hring : s.isRing = true
    · simp only [hring, if_true] at hp hn
      split at hp
      · rename_i hfail
        cases hp
        have harmed : s.armed = none := Decidable.byContradiction fun ha => hn ⟨ha,hfail⟩
        exact ⟨h.idle rfl harmed rfl rfl hring.symm,.inr (.inr ⟨harmed,harmed⟩)⟩
      · cases hp
        exact ⟨h.idle rfl rfl rfl rfl hring.symm,.inr (.inl rfl)⟩
    · simp only [if_neg hring] at hp hn
      have hring := Bool.eq_false_of_not_eq_true hring
      split at hp
      · cases hp
        exact ⟨expire_idle h hring,.inr (.inl rfl)⟩
      · split at hp
        · rename_i hfail
          cases hp
          have harmed : s.armed = none := Decidable.byContradiction fun ha => hn ⟨ha,hfail⟩
          exact ⟨h.idle rfl harmed rfl rfl rfl,.inr (.inr ⟨harmed,harmed⟩)⟩
        · split at hp
          · cases hp
            refine ⟨?_,.inl rfl⟩
            unfold em2usr
            split <;> exact h.idle rfl rfl rfl rfl rfl
          · rename_i hno
            cases hp
            refine ⟨h.idle rfl ?_ rfl rfl rfl,.inl rfl⟩
            cases harmed : s.armed with
            | none => rfl
            | some a => cases a with
              | event e => exact absurd harmed (hno e)
              | ring => cases hring.symm.trans (h.ring harmed)

omit [DecidableEq ε] in
/-- A delete that fails without losing the timeout: without state checks it is tried again. -/
theorem delete_ends {freeOk : Bool} (h : s.Consistent cfg) (hn : ¬s.LosesTmo cfg (.delete freeOk)) :
    ((s.emTmoDelete cfg freeOk).2 = .ok ∧ (s.emTmoDelete cfg freeOk).1.odpBuffer = false) ∨
    (s.emTmoDelete cfg freeOk).1.Consistent cfg ∧ s.armed = none ∧
      (s.emTmoDelete cfg freeOk).1.armed = none := by
  have hcheck := h.deleteCheck
  simp only [LosesTmo, hcheck, true_and] at hn
  simp only [emTmoDelete, hcheck]
  split
  · rename_i hfail
    have hlow : ¬(1 < cfg.checkLevel ∨ s.armed ≠ none) := fun hc => hn ⟨hfail.1,hfail.2,hc⟩
    obtain ⟨hlevel,harmed⟩ := not_or.1 hlow
    have harmed := Decidable.not_not.1 harmed
    refine .inr ⟨⟨h.buffer,fun ha => absurd harmed ha,h.timer,?_,?_,h.ring,h.event⟩,harmed,harmed⟩
    · exact fun hne => nomatch hne
    · exact fun hc => absurd hc hlevel
  · exact .inl ⟨rfl,rfl⟩

/-- The fields that an acknowledgment leaves as they are; it may arm the timer with its event. -/
structure Acked (s : Tmo ε) (e : ε) (t : Tmo ε) : Prop where
  buffer : t.odpBuffer = s.odpBuffer
  state : t.state = s.state
  timer : t.odpTimer = s.odpTimer
  ring : t.isRing = s.isRing
  armed : t.armed = s.armed ∨ t.armed = some (.event e)

theorem Acked.ackErr (h : Acked s e t) (st : Status) : Acked s e (t.ackErr cfg e st).1 := by
  unfold Tmo.ackErr em2usr
  split <;> exact ⟨h.buffer,h.state,h.timer,h.ring,h.armed⟩

theorem tmoAckRearm_acked {tries : Nat} {xs : List Periodic.Answer} {p : Tmo ε × Status}
    (h : Acked s e t) (hp : tmoAckRearm cfg e tries xs t = some p) : Acked s e p.1 := by
  induction tries generalizing t xs with
  | zero => cases hp
  | succ tries ih =>
    cases xs with
    | nil => cases hp
    | cons x xs =>
      unfold tmoAckRearm at hp
      split at hp
      · obtain ⟨-,heq⟩ := Option.ite_none_right_eq_some.1 hp
        cases heq
        exact ⟨h.buffer,h.state,h.timer,h.ring,.inr rfl⟩
      · split at hp
        · cases hp
          exact h.ackErr _
        · split at hp
          · cases hp
            exact h.ackErr _
          · exact ih h hp
      · split at hp
        · cases hp
          have hback : Acked s e (t.em2usr cfg e) := by
            unfold em2usr
            split <;> exact ⟨h.buffer,h.state,h.timer,h.ring,h.armed⟩
          split
          · exact hback
          · exact ⟨hback.buffer,hback.state,hback.timer,hback.ring,hback.armed⟩
        · split at hp
          · cases hp
          · rename_i lastTick _
            have hskip : Acked s e { t with lastTick } := ⟨h.buffer,h.state,h.timer,h.ring,h.armed⟩
            split at hp
            · cases hp
              exact hskip.ackErr _
            · exact ih hskip hp
      · cases hp
        exact h.ackErr _

/-- An acknowledgment of an event whose timeout is not active arms nothing. -/
theorem emTmoAck_consistent {xs : List Periodic.Answer} {p : Tmo ε × Status} (h : s.Consistent cfg)
    (hring : s.isRing = false) (hp : s.emTmoAck cfg e xs = some p) : p.1.Consistent cfg := by
  simp only [emTmoAck] at hp
  split at hp
  · cases hp
    exact h
  split at hp
  · cases hp
    exact h
  split at hp
  · cases hp
    exact h
  split at hp
  · cases hp
    exact h.congr rfl rfl rfl rfl rfl
  split at hp
  · cases hp
    exact h.congr rfl rfl rfl rfl rfl
  rename_i hstate
  have hstate := Decidable.not_not.1 hstate
  have hsent : Acked s e { (s.usr2em cfg e).setHdr e fun h => { h with
      tmoType := .periodic, tmo := true } with lastTick := (s.usr2em cfg e).lastTick +
        (s.usr2em cfg e).period } := by
    unfold usr2em
    split <;> exact ⟨rfl,rfl,rfl,rfl,.inl rfl⟩
  have hacked := tmoAckRearm_acked hsent hp
  have hactive := hacked.state.trans hstate
  refine ⟨hacked.buffer.trans h.buffer,fun _ => hactive,?_,fun _ => ?_,fun _ => ?_,?_,fun d _ => ?_⟩
  · rw [hacked.ring, hacked.timer]
    exact h.timer
  · exact hacked.timer.trans (h.timerActive hstate)
  · rw [hactive]
    exact fun hne => nomatch hne
  · intro harmed
    rcases hacked.armed with ha | ha
    · rw [hacked.ring]
      exact h.ring (ha.symm.trans harmed)
    · cases ha.symm.trans harmed
  · exact hacked.ring.trans hring

theorem expire_consistent (h : s.Consistent cfg) : (s.expire cfg).Consistent cfg := by
  unfold expire em2usr
  split
  · have hfree : ({ s with armed := none } : Tmo ε).Consistent cfg :=
      ⟨h.buffer,fun ha => absurd rfl ha,h.timer,h.timerActive,h.known,fun ha => (nomatch ha),
        fun _ ha => (nomatch ha)⟩
    split
    · exact hfree.congr rfl rfl rfl rfl rfl
    · exact hfree
  · exact h

/-- What one call keeps, unless it loses the timeout. -/
theorem call_consistent (h : s.Consistent cfg) (hc : s.call cfg l = some (t,st))
    (hn : ¬s.LosesTmo cfg l) (hb : t.odpBuffer = true) : t.Consistent cfg := by
  cases hset : l.isSet with
  | true =>
    cases set_ends h hset hc with
    | started ht => exact ht
    | refused _ ht => exact ht
    | failed _ ht _ _ _ hl => exact ht fun hs => hn (hl hs)
  | false =>
    cases l with
    | cancel curEvent ret ringOk =>
      rcases cancel_ends h hc hn with rfl | ⟨ht,-⟩
      · exact h
      · exact ht
    | delete freeOk =>
      have hends := delete_ends h hn
      rw [Option.some.inj hc] at hends
      rcases hends with ⟨-,hgone⟩ | ⟨ht,-⟩
      · cases hgone.symm.trans hb
      · exact ht
    | ack e xs =>
      obtain ⟨⟨-,hring⟩,heq⟩ := Option.ite_none_right_eq_some.1 hc
      exact emTmoAck_consistent h hring heq
    | expire =>
      obtain ⟨-,heq⟩ := Option.ite_none_left_eq_some.1 hc
      cases heq
      exact expire_consistent h
    | setAbs | setRel | setPeriodic | setPeriodicRing | setPeriodicRingFreq => cases hset

/-- Only a set gets an event, and the caller has it. -/
theorem not_armed_passed (hc : s.call cfg l = some (t,st)) (hp : l.passed = some e) :
    s.armed ≠ some (.event e) := by
  cases l with
  | setAbs | setRel | setPeriodic =>
    obtain ⟨⟨-,hev,-⟩,-⟩ := Option.ite_none_right_eq_some.1 hc
    exact hev e hp
  | setPeriodicRing | setPeriodicRingFreq | cancel | delete | ack | expire => cases hp

theorem usable_of_fails (h : s.Consistent cfg) (hc : s.call cfg l = some (t,st)) (hf : l.Fails st)
    (hn : ¬s.LosesTmo cfg l) : Usable cfg s l t := by
  have hpassed : ∀ e, l.passed = some e → s.armed ≠ some (.event e) :=
    fun e he => not_armed_passed hc he
  cases hset : l.isSet with
  | true =>
    cases set_ends h hset hc with
    | started => cases l <;> first | exact absurd rfl hf | cases hset
    | refused _ ht hstate harmed hperiod htick hhdr =>
      exact usable_of_eq hpassed hstate harmed hperiod htick hhdr ht
    | failed _ ht hidle harmed howned hl =>
      have hs : s.state ≠ .active := fun hs => hn (hl hs)
      exact usable_of_unarmed (h.unarmed hs) (harmed.trans (h.unarmed hs)) (ht hs).deletable howned
        fun _ => hs
  | false =>
    cases l with
    | cancel curEvent ret ringOk =>
      rcases cancel_ends h hc hn with rfl | ⟨ht,rfl | rfl | ⟨hs,hta⟩⟩
      · exact usable_of_eq hpassed rfl rfl rfl rfl rfl h
      · exact absurd rfl hf.1
      · exact absurd rfl hf.2
      · exact usable_of_unarmed hs hta ht.deletable (fun _ he => nomatch he) fun hc => nomatch hc
    | delete freeOk =>
      have hends := delete_ends h hn
      rw [Option.some.inj hc] at hends
      rcases hends with ⟨hok,-⟩ | ⟨ht,hs,hta⟩
      · exact absurd hok hf
      · exact usable_of_unarmed hs hta ht.deletable (fun _ he => nomatch he) fun hc => nomatch hc
    | ack => exact hf.elim
    | expire => exact hf.elim
    | setAbs | setRel | setPeriodic | setPeriodicRing | setPeriodicRingFreq => cases hset

theorem Cancellable.active (h : t.Cancellable cfg) : t.state = .active := by
  refine Decidable.byContradiction fun hs => ?_
  have hcheck : t.cancelCheck cfg true ≠ none := fun hc => hs (cancelCheck_active hc)
  obtain ⟨st,hst⟩ := Option.ne_none_iff_exists'.1 hcheck
  have hst' := hst
  unfold Tmo.cancelCheck at hst'
  unfold Cancellable at h
  split at h
  · exact h
  · simp only [emTmoCancel, hst] at h
    cases (congrArg Prod.snd h : none = some _)
  · simp only [emTmoCancel, hst] at h
    subst h
    grind

/-- A call that loses the timeout: an active timeout becomes idle, or the timeout is unknown
though it is not deleted. -/
theorem not_usable_of_loses (h : s.Consistent cfg) (hc : s.call cfg l = some (t,st)) (hf : l.Fails st)
    (hl : s.LosesTmo cfg l) : ¬Usable cfg s l t := by
  intro hu
  cases hset : l.isSet with
  | true =>
    have hs : s.state = .active := by
      cases l <;> first | exact hl.1 | cases hset
    cases set_ends h hset hc with
    | started => cases l <;> first | exact absurd rfl hf | cases hset
    | refused _ _ _ _ _ _ _ hn => exact hn hl
    | failed _ _ hidle => cases hidle.symm.trans (hu.active hset hs).1
  | false =>
    cases l with
    | cancel curEvent ret ringOk =>
      obtain ⟨hcheck,ha,hfail⟩ := hl
      obtain ⟨-,heq⟩ := Option.ite_none_right_eq_some.1 hc
      have hp := Option.some.inj heq
      have hidle : t.state = .idle := by
        simp only [emTmoCancel, hcheck] at hp
        cases hring : s.isRing with
        | true =>
          rw [hring, if_pos rfl] at hfail
          simp only [hring, hfail, if_true] at hp
          cases hp
          rfl
        | false =>
          rw [hring, if_neg Bool.false_ne_true] at hfail
          simp only [hring, hfail, reduceCtorEq, Bool.false_eq_true, if_false, if_true] at hp
          cases hp
          rfl
      obtain ⟨a,harmed⟩ := Option.ne_none_iff_exists'.1 ha
      cases hidle.symm.trans (hu.armed a harmed).2.2.2.active
    | delete freeOk =>
      obtain ⟨hcheck,htimer,hfail,hlost⟩ := hl
      have hp := Option.some.inj hc
      simp only [emTmoDelete, hcheck, if_pos (And.intro htimer hfail)] at hp
      cases hp
      have hno : ¬({ s with state := .unknown } : Tmo ε).Cancellable cfg := fun hcancel => by
        cases hcancel.active
      rcases hlost with hlevel | ha
      · refine hu.later.elim hno fun hd => ?_
        simp only [Deletable, emTmoDelete, Tmo.deleteCheck, h.buffer] at hd
        simp [hlevel] at hd
      · obtain ⟨a,harmed⟩ := Option.ne_none_iff_exists'.1 ha
        exact hno (hu.armed a harmed).2.2.2
    | ack => exact hf.elim
    | expire => exact hf.elim
    | setAbs | setRel | setPeriodic | setPeriodicRing | setPeriodicRingFreq => cases hset

omit [DecidableEq ε] in
theorem Initial.consistent (h : Initial cfg s) : s.Consistent cfg := by
  obtain ⟨hstate,hbuffer,harmed,htimer,-⟩ := h
  refine ⟨hbuffer,fun ha => absurd harmed ha,htimer.2,fun hs => ?_,fun _ => ?_,fun ha => ?_,fun _ ha => ?_⟩
  · cases hstate.symm.trans hs
  · rw [hstate]
    exact fun hne => nomatch hne
  · cases harmed.symm.trans ha
  · cases harmed.symm.trans ha

/-- As long as no call has lost the timeout, a call on it that fails leaves it usable exactly
if it does not lose it. -/
theorem failed_tmo_call (cfg : TmoConfig) (s t : Tmo ε) (l : TmoLabel ε) (st : Status)
    (h : (system cfg ε).ReachableVia (fun s l _ => ¬s.LosesTmo cfg l) s) (hb : s.odpBuffer = true)
    (hc : s.call cfg l = some (t,st)) (hf : l.Fails st) :
    Usable cfg s l t ↔ ¬s.LosesTmo cfg l := by
  have hs : s.odpBuffer = true → s.Consistent cfg := by
    refine h.invariant (I := fun s => s.odpBuffer = true → s.Consistent cfg)
      (fun _ (hi : Initial cfg _) _ => hi.consistent) ?_
    intro u m v hu hstep hn hv
    obtain ⟨hbuffer,heq⟩ := Option.ite_none_right_eq_some.1 (show u.step cfg m = some v from hstep)
    obtain ⟨⟨w,st'⟩,hcall,rfl⟩ := Option.map_eq_some_iff.1 heq
    exact call_consistent (hu hbuffer) hcall hn hv
  constructor
  · intro hu hl
    exact not_usable_of_loses (hs hb) hc hf hl hu
  · intro hn
    exact usable_of_fails (hs hb) hc hf hn

private def created : Tmo (Fin 3) where
  state := .idle
  period := 0
  lastTick := 0
  periodic := false
  noskip := false
  isRing := false
  ringFreq := false
  odpTimer := true
  odpBuffer := true
  odpTimeout := false
  multiplier := 0
  freqHz := ⟨0,0,0⟩
  armed := none
  hdr e := ⟨if e = 2 then .timerInd else .sw,.none,false,.user⟩

private def allChecks : TmoConfig := ⟨3,false,true⟩

private theorem created_initial : Initial allChecks created := by
  refine ⟨rfl,rfl,rfl,?_,?_⟩ <;> simp [created, allChecks]

private def set : Option (Tmo (Fin 3)) :=
  System.exec (step allChecks) (fun s l _ => decide (¬s.LosesTmo allChecks l)) created
    [.setAbs (some 0) .success]

private theorem set_isSome : set.isSome = true := by decide

private def setAgain (e : Fin 3) : Option (Tmo (Fin 3) × Status) :=
  (set.get set_isSome).call allChecks (.setAbs (some e) .fail)

private theorem setAgain_isSome : ∀ e, e ≠ 0 → (setAgain e).isSome = true := by decide

private theorem set_reachable :
    (system allChecks (Fin 3)).ReachableVia (fun s l _ => ¬s.LosesTmo allChecks l) (set.get set_isSome) :=
  System.ReachableVia.exec (fun _ _ _ => of_decide_eq_true) (.start created_initial)
    (Option.some_get set_isSome).symm

/-- A set of an active timeout with an event of a ring is refused. -/
theorem failed_tmo_call_refused : ∃ s t : Tmo (Fin 3), s.armed = some (.event 0) ∧
    s.call allChecks (.setAbs (some 2) .fail) = some (t,.badArg) ∧
    Usable allChecks s (.setAbs (some 2) .fail) t := by
  have hc : (set.get set_isSome).call allChecks (.setAbs (some 2) .fail) =
      some (((setAgain 2).get (setAgain_isSome 2 (by decide))).1,.badArg) := by
    refine (Option.some_get (setAgain_isSome 2 (by decide))).symm.trans (congrArg some (Prod.ext rfl ?_))
    decide
  refine ⟨_,_,?_,hc,?_⟩
  · decide
  · refine (failed_tmo_call allChecks _ _ _ _ set_reachable ?_ hc ?_).2 ?_
    · decide
    · exact fun hne => nomatch hne
    · decide

/-- A set of an active timeout with another event that ODP rejects: the first event is still
armed, but the timeout is idle and its cancel is refused. -/
theorem rejected_set_idles_tmo : ∃ s t : Tmo (Fin 3),
    (system allChecks (Fin 3)).Reachable s ∧ s.odpBuffer = true ∧ s.state = .active ∧
    s.call allChecks (.setAbs (some 1) .fail) = some (t,.libFailed) ∧
    t.armed = some (.event 0) ∧ t.state = .idle ∧
    (t.emTmoCancel allChecks true .success true).1.2 = .badState ∧
    ¬Usable allChecks s (.setAbs (some 1) .fail) t := by
  have hc : (set.get set_isSome).call allChecks (.setAbs (some 1) .fail) =
      some (((setAgain 1).get (setAgain_isSome 1 (by decide))).1,.libFailed) := by
    refine (Option.some_get (setAgain_isSome 1 (by decide))).symm.trans
      (congrArg some (Prod.ext rfl ?_))
    decide
  refine ⟨_,_,set_reachable.mono fun _ _ _ _ => trivial,?_,?_,hc,?_,?_,?_,fun hu => ?_⟩
  · decide
  · decide
  · decide
  · decide
  · decide
  · have hactive := (hu.active rfl (by decide)).1
    revert hactive
    decide

end Tmo
end EmOdp.Timer
