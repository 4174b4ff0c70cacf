import EmOdp.LocalFunc.Cores

/-! How often a core calls the local functions of an EO for one start of it. -/
namespace EmOdp.LocalFunc.Cores
open Lib
open EoStart (EoState)

/-- The state of an EO during its start or stop -/
def Kind.doing : Kind → EoState
  | .start => .starting
  | .stop => .stopping

namespace Eo

/-- A call or its requests go with the state of the EO. -/
structure Ok (x : Eo) : Prop where
  call : ∀ k, x.call = some k → x.state = k.doing ∧ x.waiting = none
  waiting : ∀ k, x.waiting = some k → x.state = k.doing

/-- The requests of this kind are still to be sent for the last start. -/
def ToAsk (x : Eo) : Kind → Prop
  | .start => x.call = some .start
  | .stop => x.state = .starting ∨ x.state = .running ∨ x.call = some .stop

/-- The last start of the EO is not yet undone. -/
def Live (x : Eo) : Prop := x.state = .starting ∨ x.state = .running ∨ x.state = .stopping

variable {x x' : Eo}

theorem Ok.idle (h : x.Ok) (hs : x.state ≠ .starting ∧ x.state ≠ .stopping) :
    x.call = none ∧ x.waiting = none := by
  have hne (k : Kind) : x.state ≠ k.doing := by
    cases k
    · exact hs.1
    · exact hs.2
  constructor
  · cases hc : x.call with
    | none => rfl
    | some k => exact absurd (h.call k hc).1 (hne k)
  · cases hc : x.waiting with
    | none => rfl
    | some k => exact absurd (h.waiting k hc) (hne k)

theorem Ok.of_none (hc : x.call = none) (hw : x.waiting = none) : x.Ok where
  call k h := by cases hc.symm.trans h
  waiting k h := by cases hw.symm.trans h

/-- What a change of an EO leaves as it is, if it does not start the EO -/
structure Kept (x x' : Eo) : Prop where
  num : x'.num = x.num
  toAsk : ∀ k, x'.ToAsk k → x.ToAsk k
  live : x'.Live → x.Live ∧ x'.param = x.param

/-- Started, with the requests sent -/
def Started (x : Eo) : Prop := x.state = .running ∨ x.state = .starting ∧ x.call = none

theorem Started.live (h : x.Started) : x.Live := by
  rcases h with h | h
  · exact .inr (.inl h)
  · exact .inl h.1

/-- A change to a state without a start or a stop -/
theorem Kept.of_idle (st : EoState) (hst : x'.state = st)
    (hs : st ≠ .starting ∧ st ≠ .running ∧ st ≠ .stopping) (hnum : x'.num = x.num)
    (hc : x'.call = none) : x.Kept x' ∧ x'.state ≠ .running ∧ ¬x'.Started := by
  subst hst
  have hlive : ¬x'.Live := by
    rintro (h | h | h)
    · exact hs.1 h
    · exact hs.2.1 h
    · exact hs.2.2 h
  refine ⟨⟨hnum,fun k hk => ?_,fun h => absurd h hlive⟩,hs.2.1,fun h => hlive h.live⟩
  cases k with
  | start => cases hc.symm.trans hk
  | stop =>
    rcases hk with hk | hk | hk
    · exact absurd hk hs.1
    · exact absurd hk hs.2.1
    · cases hc.symm.trans hk

/-- A step starts the EO, or it does not and makes it neither running nor started. -/
theorem step_cases {counted : Bool} {l : EoLabel} (hok : x.Ok) (h : x.step counted l = some x') :
    x'.Ok ∧ (x.Kept x' ∧ x'.state ≠ .running ∧ ¬x'.Started ∨
      x' = { x with state := .starting, num := x.num + 1, call := some .start }) := by
  cases l with
  | create param =>
    simp only [step] at h
    split at h <;> cases h
    rename_i hst
    obtain ⟨hn,hw⟩ := hok.idle (by rw [hst.2]; decide)
    exact ⟨.of_none hn hw,.inl (Kept.of_idle .created rfl (by decide) rfl hn)⟩
  | delete =>
    simp only [step] at h
    split at h <;> cases h
    rename_i hst
    obtain ⟨hn,hw⟩ := hok.idle (by rcases hst with hst | hst <;> rw [hst] <;> decide)
    exact ⟨.of_none hn hw,.inl (Kept.of_idle .undef rfl (by decide) rfl hn)⟩
  | start =>
    simp only [step] at h
    split at h <;> cases h
    rename_i hst
    have hw := (hok.idle (by rw [hst]; decide)).2
    refine ⟨⟨fun k hk => ?_,fun k hk => ?_⟩,.inr rfl⟩
    · cases hk
      exact ⟨rfl,hw⟩
    · cases hw.symm.trans hk
  | fails =>
    simp only [step] at h
    split at h <;> cases h
    rename_i hc
    exact ⟨.of_none rfl (hok.call _ hc).2,.inl (Kept.of_idle .error rfl (by decide) rfl rfl)⟩
  | notifFails =>
    simp only [step] at h
    split at h <;> cases h
    rename_i hst
    obtain ⟨hn,hw⟩ := hok.idle (by rw [hst]; decide)
    exact ⟨.of_none hn hw,.inl (Kept.of_idle .error rfl (by decide) rfl hn)⟩
  | stop =>
    simp only [step] at h
    split at h <;> cases h
    rename_i hst
    have hw := (hok.idle (by rw [hst]; decide)).2
    refine ⟨⟨fun k hk => ?_,fun k hk => ?_⟩,
      .inl ⟨⟨rfl,fun k hk => ?_,fun _ => ⟨.inr (.inl hst),rfl⟩⟩,fun h => (by cases h),?_⟩⟩
    · cases hk
      exact ⟨rfl,hw⟩
    · cases hw.symm.trans hk
    · cases k with
      | start => cases hk
      | stop => exact .inr (.inl hst)
    · rintro (h | h)
      · cases h
      · cases h.1
  | stopFails =>
    simp only [step] at h
    split at h <;> cases h
    rename_i hc
    obtain ⟨hst,hw⟩ := hok.call _ hc
    have hnot : x.state ≠ .running ∧ x.state ≠ .starting := by
      rw [hst]
      decide
    refine ⟨.of_none rfl hw,.inl ⟨⟨rfl,fun k hk => ?_,fun hl => ⟨hl,rfl⟩⟩,hnot.1,?_⟩⟩
    · cases k with
      | start => cases hk
      | stop => exact .inr (.inr hc)
    · rintro (h | h)
      · exact hnot.1 h
      · exact hnot.2 h.1

end Eo

namespace Pos
variable {n : Nat}

/-- The loop still comes to element `j`. -/
def ahead (j : Fin n) : Pos n → Bool
  | .first => true
  | .look i | .visit i => decide (i ≤ j)
  | .inFunc i => decide (i < j)

end Pos

namespace Phase
variable {n : Nat} {k k' : Kind} {i : Nat} {j : Fin n}

/-- A loop of this kind still comes to element `j`. -/
def ahead (k : Kind) (j : Fin n) : Phase n → Bool
  | .scan k' p => if k' = k then p.ahead j else k' == .start
  | .active => k == .stop
  | _ => false

/-- in `eo_start_local_fn_at_init` -/
def starting : Phase n → Bool
  | .scan .start _ => true
  | _ => false

theorem finished_ahead : (finished k : Phase n).ahead k j = false := by
  cases k <;> rfl

theorem finished_ahead_stop {p : Pos n} (hne : k ≠ k') : (finished k).ahead k' j = (scan k p).ahead k' j := by
  rw [ahead, if_neg hne]
  cases k <;> cases k'
  · exact absurd rfl hne
  · rfl
  · rfl
  · exact absurd rfl hne

theorem at_ahead_self : (at_ k i).ahead k j = decide (i ≤ j.val) := by
  rw [at_]
  split
  · rw [ahead, if_pos rfl]
    rfl
  · rename_i h
    rw [finished_ahead]
    have hj := j.isLt
    exact (decide_eq_false (by omega)).symm

theorem at_ahead_of_ne {p : Pos n} (hne : k ≠ k') : (at_ k i).ahead k' j = (scan k p).ahead k' j := by
  rw [at_]
  split
  · rw [ahead, if_neg hne, ahead, if_neg hne]
  · exact finished_ahead_stop hne

/-- A loop that ends, or goes on with an element after its place, comes to no other elements. -/
theorem ahead_of_finished {p : Pos n} (h : (finished k).ahead k' j = true) : (scan k p).ahead k' j = true := by
  by_cases hk : k = k'
  · subst hk
    cases finished_ahead.symm.trans h
  · rwa [← finished_ahead_stop hk]

theorem ahead_of_at {p : Pos n} (hp : i ≤ j.val → p.ahead j = true) (h : (at_ k i).ahead k' j = true) :
    (scan k p).ahead k' j = true := by
  by_cases hk : k = k'
  · subst hk
    rw [at_ahead_self, decide_eq_true_eq] at h
    rw [ahead, if_pos rfl]
    exact hp h
  · rwa [← at_ahead_of_ne hk]

theorem starting_finished (h : (finished k : Phase n).starting = true) : k = .start := by
  cases k <;> cases h

theorem starting_scan {p : Pos n} (h : k = .start) : (scan k p).starting = true := by
  rw [h]
  rfl

theorem at_inMask : (at_ k i : Phase n).inMask = true := by
  rw [at_]
  split
  · rfl
  · cases k <;> rfl

/-- the phase after a visit, or after the local function that it calls -/
theorem after_ahead {i : Fin n} (b : Prop) [Decidable b] :
    (if b then scan k (.inFunc i) else at_ k (i+1)).ahead k' j =
      if k = k' then decide (i < j) else (scan k (.visit i)).ahead k' j := by
  split
  · by_cases hk : k = k'
    · rw [ahead, if_pos hk, if_pos hk]
      rfl
    · rw [ahead, if_neg hk, if_neg hk, ahead, if_neg hk]
  · by_cases hk : k = k'
    · subst hk
      rw [at_ahead_self, if_pos rfl]
      rfl
    · rw [at_ahead_of_ne (p := .visit i) hk, if_neg hk]

theorem starting_at (h : (at_ k i : Phase n).starting = true) : k = .start := by
  rw [at_] at h
  split at h
  · cases k
    · rfl
    · cases h
  · cases k <;> cases h

theorem after_starting {i : Fin n} (b : Prop) [Decidable b]
    (h : (if b then scan k (.inFunc i) else at_ k (i+1)).starting = true) : k = .start := by
  split at h
  · cases k
    · rfl
    · cases h
  · exact starting_at h

end Phase
/-- What a core has seen, been asked and run of the EO `e` -/
structure Pair {n : Nat} (opt : Kind → Bool) (e : Fin n) (x : Eo) (y : Core n) : Prop where
  fresh : ∀ k m, x.num < m → ⟨k,e,m⟩ ∉ y.asked ∧ y.runs ⟨k,e,m⟩ = 0
  seen_le : ∀ k m st, y.seen k e = some (m,st) → m ≤ x.num
  asked : ∀ k m, ⟨k,e,m⟩ ∈ y.pending → ⟨k,e,m⟩ ∈ y.asked
  toAsk : ∀ k, x.ToAsk k → ⟨k,e,x.num⟩ ∉ y.asked
  starting : x.call = some .start → y.seen .start e ≠ some (x.num,.running)
  ahead : ∀ k, y.phase.ahead k e = true → y.seen k e = none
  handled : x.state = .running → ⟨.start,e,x.num⟩ ∉ y.pending
  nested : y.phase.starting = true → ∀ m, ⟨.start,e,m⟩ ∈ y.asked → ⟨.start,e,m⟩ ∉ y.pending →
    ⟨.start,e,m⟩ ∈ y.nested
  twice : ⟨.start,e,x.num⟩ ∈ y.asked → y.seen .start e = some (x.num,.running) →
    ⟨.start,e,x.num⟩ ∈ y.nested
  count : x.Live → ∀ k, x.param.func k = true →
    y.runs ⟨k,e,x.num⟩ + (if ⟨k,e,x.num⟩ ∈ y.pending then 1 else 0) =
      (if ⟨k,e,x.num⟩ ∈ y.asked then 1 else 0) +
        if y.seen k e = some (x.num,.running) ∧ x.hasRunMode opt k = true then 1 else 0

namespace Pair
variable {n : Nat} {opt : Kind → Bool} {e : Fin n} {x x' : Eo} {y : Core n}

theorem kept (h : Pair opt e x y) (hx : x.Kept x')
    (hrun : x'.state = .running → ⟨.start,e,x.num⟩ ∉ y.pending) : Pair opt e x' y := by
  obtain ⟨hnum,hask,hlive⟩ := hx
  refine ⟨?_,?_,h.asked,fun k hk => ?_,fun hc => ?_,h.ahead,fun hr => ?_,h.nested,?_,fun hl k hk => ?_⟩
  · rw [hnum]
    exact h.fresh
  · rw [hnum]
    exact h.seen_le
  · rw [hnum]
    exact h.toAsk k (hask k hk)
  · rw [hnum]
    exact h.starting (hask .start hc)
  · rw [hnum]
    exact hrun hr
  · rw [hnum]
    exact h.twice
  · obtain ⟨hl,hp⟩ := hlive hl
    have hmode : x'.hasRunMode opt k = x.hasRunMode opt k := by
      rw [Eo.hasRunMode, hp]
      rfl
    rw [hp] at hk
    rw [hnum, hmode]
    exact h.count hl k hk

/-- A start is a new one for every core. -/
theorem start (h : Pair opt e x y) :
    Pair opt e { x with state := .starting, num := x.num + 1, call := some .start } y := by
  have hasked (k : Kind) : ⟨k,e,x.num+1⟩ ∉ y.asked := (h.fresh k _ (Nat.lt_succ_self _)).1
  have hseen (k : Kind) (st : EoState) : y.seen k e ≠ some (x.num+1,st) :=
    fun hs => Nat.not_succ_le_self _ (h.seen_le k _ _ hs)
  refine ⟨fun k m hm => h.fresh k m (Nat.lt_of_succ_lt hm),
    fun k m st hs => Nat.le_succ_of_le (h.seen_le k m st hs),h.asked,fun k _ => hasked k,
    fun _ => hseen _ _,h.ahead,fun hr => (by cases hr),h.nested,fun ha => absurd ha (hasked _),
    fun _ k _ => ?_⟩
  rw [(h.fresh k _ (Nat.lt_succ_self _)).2, if_neg (hasked k), if_neg fun hp => hasked k (h.asked k _ hp),
    if_neg fun hs => hseen k _ hs.1]

/-- The core gets another request than those of the last start of `e`. -/
theorem ask_other (h : Pair opt e x y) {r : Req n} (hr : r.eo ≠ e) : Pair opt e x (y.ask r) := by
  have hne (k : Kind) (m : Nat) : (⟨k,e,m⟩ : Req n) ≠ r := fun hc => hr (congrArg Req.eo hc).symm
  have hins (k : Kind) (m : Nat) (t : Finset (Req n)) : ⟨k,e,m⟩ ∈ insert r t ↔ ⟨k,e,m⟩ ∈ t := by
    rw [Finset.mem_insert, or_iff_right (hne k m)]
  rw [Core.ask]
  split
  · refine ⟨fun k m hm => ?_,h.seen_le,fun k m hp => ?_,fun k hk => ?_,h.starting,h.ahead,fun hr => ?_,
      fun hs m ha hp => ?_,fun ha => ?_,fun hl k hk => ?_⟩
    · rw [hins]
      exact h.fresh k m hm
    · rw [hins] at hp ⊢
      exact h.asked k m hp
    · rw [hins]
      exact h.toAsk k hk
    · rw [hins]
      exact h.handled hr
    · rw [hins] at ha hp
      exact h.nested hs m ha hp
    · rw [hins] at ha
      exact h.twice ha
    · simp only [hins]
      exact h.count hl k hk
  · exact h

/-- The core gets a request of the last start of `e`. -/
theorem ask_self (h : Pair opt e x y) {k : Kind} (hask : ⟨k,e,x.num⟩ ∉ y.asked) (hx : ¬x.ToAsk k)
    (hrun : x.state ≠ .running) (hseen : k = .start → y.seen .start e ≠ some (x.num,.running)) :
    Pair opt e x (y.ask ⟨k,e,x.num⟩) := by
  have hins (k' : Kind) (m : Nat) (t : Finset (Req n)) : ⟨k',e,m⟩ ∈ insert ⟨k,e,x.num⟩ t ↔
      k' = k ∧ m = x.num ∨ ⟨k',e,m⟩ ∈ t := by
    rw [Finset.mem_insert, Req.mk.injEq, eq_self, true_and]
  rw [Core.ask]
  split
  · refine ⟨fun k' m hm => ⟨fun ha => ?_,(h.fresh k' m hm).2⟩,h.seen_le,fun k' m hp => ?_,fun k' hk ha => ?_,
      h.starting,h.ahead,fun hr => absurd hr hrun,fun hs m ha hp => ?_,fun ha hs => ?_,fun hl k' hk => ?_⟩
    · rcases (hins _ _ _).1 ha with ⟨-,rfl⟩ | ha
      · exact Nat.lt_irrefl _ hm
      · exact (h.fresh k' m hm).1 ha
    · rw [hins] at hp ⊢
      exact hp.imp_right (h.asked k' m)
    · rcases (hins _ _ _).1 ha with ⟨rfl,-⟩ | ha
      · exact hx hk
      · exact h.toAsk k' hk ha
    · rw [hins, not_or] at hp
      rcases (hins _ _ _).1 ha with ha | ha
      · exact absurd ha hp.1
      · exact h.nested hs m ha hp.2
    · rcases (hins _ _ _).1 ha with ⟨hk,-⟩ | ha
      · exact absurd hs (hseen hk.symm)
      · exact h.twice ha hs
    · have hcount := h.count hl k' hk
      by_cases hkk : k' = k
      · subst hkk
        rw [if_neg hask, if_neg fun hp => hask (h.asked _ _ hp)] at hcount
        rw [if_pos (Finset.mem_insert_self _ _), if_pos (Finset.mem_insert_self _ _)]
        dsimp only
        omega
      · simp only [hins, hkk, false_and, false_or]
        exact hcount
  · exact h

/-- The core goes on without a call. -/
theorem move (h : Pair opt e x y) {p : Phase n} (hahead : ∀ k, p.ahead k e = true → y.phase.ahead k e = true)
    (hstart : p.starting = true → y.phase.starting = true) : Pair opt e x { y with phase := p } where
  fresh := h.fresh
  seen_le := h.seen_le
  asked := h.asked
  toAsk := h.toAsk
  starting := h.starting
  ahead k hk := h.ahead k (hahead k hk)
  handled := h.handled
  nested hs := h.nested (hstart hs)
  twice := h.twice
  count := h.count

theorem join : Pair opt e x { phase := .scan .start .first } where
  fresh _ _ _ := ⟨Finset.notMem_empty _,rfl⟩
  seen_le _ _ _ hs := by cases hs
  asked _ _ hp := absurd hp (Finset.notMem_empty _)
  toAsk _ _ := Finset.notMem_empty _
  starting _ hs := by cases hs
  ahead _ _ := rfl
  handled _ := Finset.notMem_empty _
  nested _ _ ha := absurd ha (Finset.notMem_empty _)
  twice ha := absurd ha (Finset.notMem_empty _)
  count _ _ _ := rfl

/-- The loop of the core passes another EO. -/
theorem visit_other (h : Pair opt e x y) {eos : Fin n → Eo} {k : Kind} {i : Fin n} (hi : i ≠ e)
    (hp : y.phase = .scan k (.visit i)) : Pair opt e x (y.visit opt eos k i) := by
  have hseen (k' : Kind) : (y.visit opt eos k i).seen k' e = y.seen k' e := by
    simp only [Core.visit]
    by_cases hk : k' = k
    · rw [hk, Function.update_self, Function.update_of_ne hi.symm]
    · rw [Function.update_of_ne hk]
  have hruns (k' : Kind) (m : Nat) : (y.visit opt eos k i).runs ⟨k',e,m⟩ = y.runs ⟨k',e,m⟩ := by
    simp only [Core.visit]
    split
    · exact Function.update_of_ne (fun hc => hi (congrArg Req.eo hc).symm) _ _
    · rfl
  refine ⟨fun k' m hm => ?_,fun k' m st => ?_,h.asked,h.toAsk,fun hc => ?_,fun k' hk => ?_,h.handled,
    fun hs => ?_,fun ha => ?_,fun hl k' hk => ?_⟩
  · rw [hruns]
    exact h.fresh k' m hm
  · rw [hseen]
    exact h.seen_le k' m st
  · rw [hseen]
    exact h.starting hc
  · rw [hseen]
    refine h.ahead k' ?_
    rw [hp]
    rw [Core.visit, Phase.after_ahead] at hk
    split at hk
    · rw [Phase.ahead, if_pos ‹_›]
      exact decide_eq_true (Fin.le_of_lt (of_decide_eq_true hk))
    · exact hk
  · refine h.nested ?_
    rw [hp, Phase.after_starting _ hs]
    rfl
  · rw [hseen]
    exact h.twice ha
  · rw [hseen, hruns]
    exact h.count hl k' hk

/-- The loop of the core comes to the EO. -/
theorem visit_self (hok : x.Ok) (h : Pair opt e x y) {eos : Fin n → Eo} {k : Kind} (hx : eos e = x)
    (hp : y.phase = .scan k (.visit e)) : Pair opt e x (y.visit opt eos k e) := by
  have hnone : y.seen k e = none := by
    refine h.ahead k ?_
    rw [hp, Phase.ahead, if_pos rfl]
    exact decide_eq_true (Fin.le_refl e)
  have hself : (y.visit opt eos k e).seen k e = some (x.num,x.state) := by
    rw [Core.visit, hx]
    simp only [Function.update_self]
  have hother {k' : Kind} (hk : k' ≠ k) : (y.visit opt eos k e).seen k' e = y.seen k' e := by
    simp only [Core.visit]
    rw [Function.update_of_ne hk]
  have hruns {k' : Kind} {m : Nat} (hne : ¬(k' = k ∧ m = x.num)) :
      (y.visit opt eos k e).runs ⟨k',e,m⟩ = y.runs ⟨k',e,m⟩ := by
    rw [Core.visit, hx]
    dsimp only
    split
    · refine Function.update_of_ne (fun hc => hne ?_) _ _
      cases hc
      exact ⟨rfl,rfl⟩
    · rfl
  refine ⟨fun k' m hm => ?_,fun k' m st => ?_,h.asked,h.toAsk,fun hc => ?_,fun k' hk => ?_,h.handled,
    fun hs => ?_,fun ha hs => ?_,fun hl k' hk => ?_⟩
  · rw [hruns fun hc => Nat.lt_irrefl _ (hc.2 ▸ hm)]
    exact h.fresh k' m hm
  · by_cases hk : k' = k
    · subst hk
      rw [hself]
      rintro ⟨⟩
      exact Nat.le_refl _
    · rw [hother hk]
      exact h.seen_le k' m st
  · by_cases hk : .start = k
    · subst hk
      rw [hself, (hok.call _ hc).1]
      simp [Kind.doing]
    · rw [hother hk]
      exact h.starting hc
  · rw [Core.visit, Phase.after_ahead] at hk
    split at hk
    · exact absurd (of_decide_eq_true hk) (lt_irrefl e)
    · rw [hother (Ne.symm ‹_›)]
      refine h.ahead k' ?_
      rw [hp]
      exact hk
  · refine h.nested ?_
    rw [hp, Phase.after_starting _ hs]
    rfl
  · by_cases hk : .start = k
    · subst hk
      rw [hself] at hs
      have hrun : x.state = .running := (Prod.ext_iff.1 (Option.some.inj hs)).2
      exact h.nested (by rw [hp]; rfl) _ ha (h.handled hrun)
    · rw [hother hk] at hs
      exact h.twice ha hs
  · have hcount := h.count hl k' hk
    by_cases hkk : k' = k
    · subst hkk
      simp only [hnone, reduceCtorEq, false_and, if_false, Nat.add_zero] at hcount
      rw [hself]
      simp only [Core.visit, hx, Eo.runsFunc, hk, Bool.true_and, Option.some.injEq, Prod.mk.injEq, true_and]
      by_cases hrun : x.state = .running ∧ x.hasRunMode opt k' = true
      · rw [if_pos hrun, if_pos (by rw [hrun.1, hrun.2]; rfl), Function.update_self]
        omega
      · rw [if_neg hrun, if_neg fun hc => hrun (by simpa using hc)]
        exact hcount
    · rw [hother hkk, hruns fun hc => hkk hc.1]
      exact hcount

/-- A request is handled. -/
theorem handle (h : Pair opt e x y) {eos : Fin n → Eo} {r : Req n} (hx : eos e = x) (hr : r ∈ y.pending) :
    Pair opt e x (y.handle eos r) := by
  have hpend {k : Kind} {m : Nat} : ⟨k,e,m⟩ ∈ (y.handle eos r).pending ↔ ⟨k,e,m⟩ ≠ r ∧ ⟨k,e,m⟩ ∈ y.pending :=
    Finset.mem_erase
  have hnested {k : Kind} {m : Nat} (hn : ⟨k,e,m⟩ ∈ y.nested) : ⟨k,e,m⟩ ∈ (y.handle eos r).nested := by
    simp only [Core.handle]
    split
    · exact Finset.mem_insert_of_mem hn
    · exact hn
  have hruns {k : Kind} {m : Nat} (hne : ⟨k,e,m⟩ ≠ r) :
      (y.handle eos r).runs ⟨k,e,m⟩ = y.runs ⟨k,e,m⟩ := by
    simp only [Core.handle]
    split
    · exact Function.update_of_ne hne _ _
    · rfl
  refine ⟨fun k m hm => ⟨(h.fresh k m hm).1,?_⟩,h.seen_le,fun k m hp => h.asked k m (hpend.1 hp).2,h.toAsk,
    h.starting,h.ahead,fun hrun hp => h.handled hrun (hpend.1 hp).2,fun hs m ha hp => ?_,
    fun ha hs => hnested (h.twice ha hs),fun hl k hk => ?_⟩
  · rw [hruns]
    · exact (h.fresh k m hm).2
    · rintro rfl
      exact (h.fresh k m hm).1 (h.asked k m hr)
  · by_cases hm : ⟨.start,e,m⟩ = r
    · simp only [Core.handle]
      have hs : y.phase.starting = true := hs
      split
      · rw [hm]
        exact Finset.mem_insert_self _ _
      · rename_i hno
        generalize y.phase = p at hs hno
        cases p with
        | scan k p =>
          cases k with
          | start => exact absurd rfl (hno p)
          | stop => cases hs
        | _ => cases hs
    · exact hnested (h.nested hs m ha fun hp' => hp (hpend.2 ⟨hm,hp'⟩))
  · have hcount := h.count hl k hk
    by_cases hr' : ⟨k,e,x.num⟩ = r
    · rw [hr', if_pos hr, ← hr'] at hcount
      rw [if_neg fun hp => (hpend.1 hp).1 hr']
      have hself : (y.handle eos r).runs ⟨k,e,x.num⟩ = y.runs ⟨k,e,x.num⟩ + 1 := by
        rw [← hr']
        simp only [Core.handle, hx, hk, if_true, Function.update_self]
      rw [hself]
      exact hcount
    · simp only [hpend, ne_eq, hr', not_false_eq_true, true_and]
      rw [hruns hr']
      exact hcount

end Pair

/-- A core in the mask that no longer comes to the EO in its first loop has got the request of its
start, or has found it started. -/
def Met {n : Nat} (e : Fin n) (x : Eo) (y : Core n) : Prop :=
  y.phase.inMask = true → y.phase.ahead .start e = false → x.Started → x.param.func .start = true →
    ⟨.start,e,x.num⟩ ∈ y.asked ∨ y.seen .start e = some (x.num,.running) ∨
      y.seen .start e = some (x.num,.starting)

namespace Met
variable {n : Nat} {opt : Kind → Bool} {e : Fin n} {x : Eo} {y : Core n}

/-- The EO is not started anew. -/
theorem kept {x' : Eo} (h : Met e x y) (hx : x.Kept x') (hs : x'.Started → x.Started) : Met e x' y := by
  intro hm ha hs' hf
  rw [(hx.live hs'.live).2] at hf
  rw [hx.num]
  exact h hm ha (hs hs') hf

theorem of_not {x' : Eo} (hs : ¬x'.Started) : Met e x' y := fun _ _ h => absurd h hs

/-- The core goes on without coming to the EO. -/
theorem move (h : Met e x y) {p : Phase n} (hmask : p.inMask = true → y.phase.inMask = true)
    (hahead : p.ahead .start e = false → y.phase.ahead .start e = false) :
    Met e x { y with phase := p } :=
  fun hm ha => h (hmask hm) (hahead ha)

theorem ask (h : Met e x y) (r : Req n) : Met e x (y.ask r) := by
  rw [Core.ask]
  split
  · exact fun hm ha hs hf => (h hm ha hs hf).imp_left (Finset.mem_insert_of_mem ·)
  · exact h

end Met

namespace Core
variable {n : Nat} {opt : Kind → Bool} {eos : Fin n → Eo} {tbl : Tables.State n} {e : Fin n} {y y' : Core n}
  {l : CoreLabel n}

theorem step_pair (hok : (eos e).Ok) (h : Pair opt e (eos e) y) (hst : y.step opt eos tbl l = some y') :
    Pair opt e (eos e) y' := by
  cases l with
  | join =>
    simp only [step] at hst
    split at hst <;> cases hst
    exact .join
  | first =>
    simp only [step] at hst
    split at hst <;> cases hst
    rename_i k hp
    refine h.move (fun k' hk => ?_) fun hs => ?_
    · rw [hp]
      split at hk
      · exact Phase.ahead_of_finished hk
      · exact Phase.ahead_of_at (fun _ => rfl) hk
    · rw [hp]
      refine Phase.starting_scan ?_
      split at hs
      · exact Phase.starting_finished hs
      · exact Phase.starting_at hs
  | look =>
    simp only [step] at hst
    split at hst <;> cases hst
    rename_i k i hp
    refine h.move (fun k' hk => ?_) fun hs => ?_
    · rw [hp]
      split at hk
      · exact hk
      · exact Phase.ahead_of_at (fun hi => decide_eq_true (Fin.le_of_lt hi)) hk
    · rw [hp]
      refine Phase.starting_scan ?_
      split at hs
      · cases k
        · rfl
        · cases hs
      · exact Phase.starting_at hs
  | visit =>
    simp only [step] at hst
    split at hst <;> cases hst
    rename_i k i hp
    by_cases hi : i = e
    · subst hi
      exact h.visit_self hok rfl hp
    · exact h.visit_other hi hp
  | returns =>
    simp only [step] at hst
    split at hst <;> cases hst
    rename_i k i hp
    refine h.move (fun k' hk => ?_) fun hs => ?_
    · rw [hp]
      exact Phase.ahead_of_at (fun hi => decide_eq_true hi) hk
    · rw [hp]
      exact Phase.starting_scan (Phase.starting_at hs)
  | handle r =>
    simp only [step] at hst
    split at hst <;> cases hst
    rename_i hr
    exact h.handle rfl hr.1
  | term =>
    simp only [step] at hst
    split at hst <;> cases hst
    rename_i hp
    refine h.move (fun k hk => ?_) fun hs => (by cases hs)
    rw [hp]
    cases k
    · cases hk
    · rfl
  | leave =>
    simp only [step] at hst
    split at hst <;> cases hst
    exact h.move (fun k hk => (by cases hk)) fun hs => (by cases hs)
  | gone =>
    simp only [step] at hst
    split at hst <;> cases hst
    exact h.move (fun k hk => (by cases hk)) fun hs => (by cases hs)

theorem step_met (hcount : (eos e).state ≠ .undef → tbl.place e = .counted) (hexact : tbl.Exact)
    (h : Met e (eos e) y) (hst : y.step opt eos tbl l = some y') : Met e (eos e) y' := by
  have hplace (hs : (eos e).Started) : tbl.place e = .counted := by
    refine hcount fun hu => ?_
    rcases hs with hs | hs
    · cases hu.symm.trans hs
    · cases hu.symm.trans hs.1
  cases l with
  | join =>
    simp only [step] at hst
    split at hst <;> cases hst
    exact fun _ ha => (by cases ha)
  | first =>
    simp only [step] at hst
    split at hst <;> cases hst
    rename_i k hp
    intro _ ha hs
    cases k with
    | start =>
      rw [if_neg (hexact.count_ne_zero (hplace hs)), Phase.at_ahead_self] at ha
      exact absurd (Nat.zero_le _) (of_decide_eq_false ha)
    | stop => exact h (by rw [hp]; rfl) (by rw [hp]; rfl) hs
  | look =>
    simp only [step] at hst
    split at hst <;> cases hst
    rename_i k i hp
    intro _ ha hs
    refine h (by rw [hp]; rfl) ?_ hs
    rw [hp]
    cases k with
    | start =>
      split at ha
      · exact ha
      · rename_i hno
        have hi : i ≠ e := by
          rintro rfl
          rw [hplace hs] at hno
          exact hno rfl
        rw [Phase.at_ahead_self, decide_eq_false_iff_not] at ha
        exact decide_eq_false fun hle => ha (lt_of_le_of_ne hle hi)
    | stop => rfl
  | visit =>
    simp only [step] at hst
    split at hst <;> cases hst
    rename_i k i hp
    intro _ ha hs hf
    have hmask : y.phase.inMask = true := by rw [hp]; rfl
    cases k with
    | start =>
      by_cases hi : i = e
      · subst hi
        have hself : (y.visit opt eos .start i).seen .start i = some ((eos i).num,(eos i).state) := by
          simp only [Core.visit, Function.update_self]
        rw [hself]
        rcases hs with hs | hs
        · exact .inr (.inl (by rw [hs]))
        · exact .inr (.inr (by rw [hs.1]))
      · have hsame : (y.visit opt eos .start i).seen .start e = y.seen .start e := by
          simp only [Core.visit, Function.update_self]
          exact Function.update_of_ne (Ne.symm hi) _ _
        rw [hsame]
        refine h hmask ?_ hs hf
        rw [Core.visit, Phase.after_ahead, if_pos rfl, decide_eq_false_iff_not] at ha
        rw [hp]
        exact decide_eq_false fun hle => ha (lt_of_le_of_ne hle hi)
    | stop =>
      have hsame : (y.visit opt eos .stop i).seen .start e = y.seen .start e := by
        simp only [Core.visit]
        rw [Function.update_of_ne (by decide)]
      rw [hsame]
      exact h hmask (by rw [hp]; rfl) hs hf
  | returns =>
    simp only [step] at hst
    split at hst <;> cases hst
    rename_i k i hp
    refine h.move (fun _ => by rw [hp]; rfl) fun ha => ?_
    rw [hp]
    cases k with
    | start =>
      rw [Phase.at_ahead_self, decide_eq_false_iff_not] at ha
      exact decide_eq_false ha
    | stop => rfl
  | handle r =>
    simp only [step] at hst
    split at hst <;> cases hst
    exact h
  | term =>
    simp only [step] at hst
    split at hst <;> cases hst
    rename_i hp
    exact h.move (fun _ => by rw [hp]; rfl) fun _ => by rw [hp]; rfl
  | leave =>
    simp only [step] at hst
    split at hst <;> cases hst
    exact fun hm => (by cases hm)
  | gone =>
    simp only [step] at hst
    split at hst <;> cases hst
    exact fun hm => (by cases hm)

end Core

/-- An element that is counted stays so until it is put back. -/
theorem counted_step {n : Nat} {tbl tbl' : Tables.State n} {l : Tables.Label n} {e : Fin n}
    (h : tbl.place e = .counted) (hst : tbl.step false l = some tbl') (hl : putsBack l e = false) :
    tbl'.place e = .counted := by
  have hmove {i : Fin n} {p : Tables.Place} (hi : tbl.place i ≠ .counted) :
      Function.update tbl.place i p e = .counted := by
    rwa [Function.update_of_ne]
    rintro rfl
    exact hi h
  cases l with
  | rem i =>
    simp only [Tables.State.step] at hst
    split at hst <;> cases hst
    rename_i hp
    exact hmove (by rw [hp.2]; decide)
  | get i =>
    simp only [Tables.State.step] at hst
    split at hst <;> cases hst
    rename_i hp
    cases hp.1
  | clear i =>
    simp only [Tables.State.step] at hst
    split at hst <;> cases hst
    rename_i hp
    exact hmove (by rw [hp]; decide)
  | inc i =>
    simp only [Tables.State.step] at hst
    split at hst <;> cases hst
    rename_i hp
    exact hmove (by rw [hp]; decide)
  | add i =>
    simp only [Tables.State.step] at hst
    split at hst <;> cases hst
    refine (Function.update_of_ne ?_ _ _).trans h
    rintro rfl
    simp [putsBack] at hl
  | flag i =>
    simp only [Tables.State.step] at hst
    split at hst <;> cases hst
    rename_i hp
    cases hp.1
  | put i ok =>
    simp only [Tables.State.step] at hst
    split at hst <;> cases hst
    rename_i hp
    cases ok
    · exact hmove (by rw [hp]; decide)
    · exact hmove (by rw [hp]; decide)
  | dec =>
    simp only [Tables.State.step] at hst
    split at hst <;> cases hst
    exact h

namespace Eo
variable {x x' : Eo}

theorem step_undef {counted : Bool} {l : EoLabel} (hok : x.Ok) (h : x.step counted l = some x')
    (hs : x'.state ≠ .undef) : counted = true ∨ x.state ≠ .undef := by
  cases l with
  | create param =>
    simp only [step] at h
    split at h <;> cases h
    rename_i hst
    exact .inl hst.1
  | delete =>
    simp only [step] at h
    split at h <;> cases h
    exact absurd rfl hs
  | start | notifFails | stop =>
    simp only [step] at h
    split at h <;> cases h
    rename_i hst
    exact .inr (by rw [hst]; decide)
  | fails | stopFails =>
    simp only [step] at h
    split at h <;> cases h
    rename_i hc
    exact .inr (by rw [(hok.call _ hc).1]; decide)

end Eo

namespace State
variable {n : Nat} {ι : Type} [Fintype ι] [DecidableEq ι] {opt : Kind → Bool}

structure Inv (opt : Kind → Bool) (s : State n ι) : Prop where
  tbl : s.tbl.Exact
  counted : ∀ e, (s.eo e).state ≠ .undef → s.tbl.place e = .counted
  ok : ∀ e, (s.eo e).Ok
  pair : ∀ e c, Pair opt e (s.eo e) (s.core c)
  met : ∀ e c, Met e (s.eo e) (s.core c)

variable {s t : State n ι}

omit [Fintype ι] [DecidableEq ι] in
/-- One EO and the cores change. -/
theorem Inv.change (h : Inv opt s) {e : Fin n} {x' : Eo} {core' : ι → Core n}
    (hu : x'.state ≠ .undef → s.tbl.place e = .counted) (hok : x'.Ok)
    (hself : ∀ c, Pair opt e x' (core' c) ∧ Met e x' (core' c))
    (hother : ∀ e', e' ≠ e → ∀ c, Pair opt e' (s.eo e') (core' c) ∧ Met e' (s.eo e') (core' c)) :
    Inv opt { s.setEo e x' with core := core' } := by
  have heo (e' : Fin n) (P : Fin n → Eo → Prop) (hs : P e x') (ho : e' ≠ e → P e' (s.eo e')) :
      P e' (Function.update s.eo e x' e') := by
    by_cases he : e' = e
    · subst he
      rwa [Function.update_self]
    · rw [Function.update_of_ne he]
      exact ho he
  refine ⟨h.tbl,fun e' => ?_,fun e' => ?_,fun e' c => ?_,fun e' c => ?_⟩
  · exact heo e' (fun e x => x.state ≠ .undef → s.tbl.place e = .counted) hu fun _ => h.counted e'
  · exact heo e' (fun _ x => x.Ok) hok fun _ => h.ok e'
  · exact heo e' (fun e x => Pair opt e x (core' c)) (hself c).1 fun he => (hother e' he c).1
  · exact heo e' (fun e x => Met e x (core' c)) (hself c).2 fun he => (hother e' he c).2

omit [Fintype ι] [DecidableEq ι] in
/-- One EO changes, and it does not become started. -/
theorem Inv.kept (h : Inv opt s) {e : Fin n} {x' : Eo}
    (hu : x'.state ≠ .undef → s.tbl.place e = .counted) (hok : x'.Ok)
    (hx : (s.eo e).Kept x' ∧ x'.state ≠ .running ∧ ¬x'.Started) : Inv opt (s.setEo e x') :=
  h.change hu hok (fun c => ⟨(h.pair e c).kept hx.1 fun hr => absurd hr hx.2.1,.of_not hx.2.2⟩)
    fun e' _ c => ⟨h.pair e' c,h.met e' c⟩

omit [DecidableEq ι] in
theorem Inv.request (h : Inv opt s) {e : Fin n} {k : Kind} (hc : (s.eo e).call = some k) :
    Inv opt (s.request e k) := by
  obtain ⟨hst,hw⟩ := (h.ok e).call k hc
  have hu : s.tbl.place e = .counted := h.counted e (by rw [hst]; cases k <;> decide)
  have hask (c : ι) : ⟨k,e,(s.eo e).num⟩ ∉ (s.core c).asked := by
    refine (h.pair e c).toAsk k ?_
    cases k with
    | start => exact hc
    | stop => exact .inr (.inr hc)
  rw [State.request]
  split
  · rename_i hasks
    have hkept : (s.eo e).Kept { s.eo e with call := none, waiting := some k } := by
      refine ⟨rfl,fun k' hk' => ?_,fun hl => ⟨hl,rfl⟩⟩
      cases k' with
      | start => cases hk'
      | stop =>
        rcases hk' with hk' | hk' | hk'
        · exact .inl hk'
        · exact .inr (.inl hk')
        · cases hk'
    have hrun : (s.eo e).state ≠ .running := by rw [hst]; cases k <;> decide
    refine h.change (fun _ => hu) ⟨fun k' hk' => (by cases hk'),fun k' hk' => ?_⟩ (fun c => ⟨?_,?_⟩)
      fun e' he c => ⟨(h.pair e' c).ask_other (Ne.symm he),(h.met e' c).ask _⟩
    · cases hk'
      exact hst
    · refine ((h.pair e c).kept hkept fun hr => absurd hr hrun).ask_self (hask c) ?_ hrun ?_
      · cases k with
        | start => exact fun hk' => (by cases hk')
        | stop =>
          rintro (hk' | hk' | hk')
          · cases hst.symm.trans hk'
          · cases hst.symm.trans hk'
          · cases hk'
      · rintro rfl
        exact (h.pair e c).starting hc
    · intro hm ha hs hf
      cases k with
      | start =>
        refine .inl ?_
        rw [Core.ask] at hm ⊢
        split at hm
        · rw [if_pos ‹_›]
          exact Finset.mem_insert_self _ _
        · exact absurd hm ‹_›
      | stop =>
        rcases hs with hs | hs
        · cases hst.symm.trans hs
        · cases hst.symm.trans hs.1
  · rename_i hno
    cases k with
    | start =>
      refine h.change (fun _ => hu) (.of_none rfl hw) (fun c => ⟨(h.pair e c).kept ⟨rfl,?_,?_⟩ ?_,?_⟩)
        fun e' _ c => ⟨h.pair e' c,h.met e' c⟩
      · intro k' hk'
        cases k' with
        | start => cases hk'
        | stop => exact .inl hst
      · exact fun _ => ⟨.inl hst,rfl⟩
      · exact fun _ hp => hask c ((h.pair e c).asked _ _ hp)
      · exact fun hm _ _ hf => absurd ⟨fun _ => hf,c,hm⟩ hno
    | stop => exact h.kept (fun _ => hu) (.of_none rfl hw) (Eo.Kept.of_idle .created rfl (by decide) rfl rfl)

theorem inv_step {l : Label n ι} (h : Inv opt s) (hst : s.step opt l = some t) : Inv opt t := by
  cases l with
  | table l =>
    simp only [step] at hst
    split at hst
    · rename_i hl
      obtain ⟨tbl,htbl,rfl⟩ := Option.map_eq_some_iff.1 hst
      refine ⟨Tables.State.exact_step h.tbl htbl,fun e he => ?_,h.ok,h.pair,h.met⟩
      refine counted_step (h.counted e he) htbl ?_
      by_contra hne
      exact he (hl e (by simpa using hne))
    · cases hst
  | eo e l =>
    obtain ⟨x,hx,rfl⟩ := Option.map_eq_some_iff.1 hst
    have hu (hs : x.state ≠ .undef) : s.tbl.place e = .counted := by
      rcases Eo.step_undef (h.ok e) hx hs with hc | hs
      · exact eq_of_beq hc
      · exact h.counted e hs
    obtain ⟨hok,hkept | rfl⟩ := Eo.step_cases (h.ok e) hx
    · exact h.kept hu hok hkept
    · refine h.change hu hok (fun c => ⟨(h.pair e c).start,.of_not ?_⟩)
        fun e' _ c => ⟨h.pair e' c,h.met e' c⟩
      rintro (hs | hs)
      · cases hs
      · cases hs.2
  | request e =>
    obtain ⟨k,hk,rfl⟩ := Option.map_eq_some_iff.1 hst
    exact h.request hk
  | requestFails e sent =>
    simp only [step] at hst
    split at hst
    · rename_i k hc
      split at hst <;> cases hst
      obtain ⟨hst,hw⟩ := (h.ok e).call k hc
      have hidle : (s.eo e).Kept { s.eo e with call := none, state := .error } ∧ _ :=
        Eo.Kept.of_idle .error rfl (by decide) rfl rfl
      obtain ⟨hkept,hrun,hnot⟩ := hidle
      refine h.change (fun _ => h.counted e (by rw [hst]; cases k <;> decide)) (.of_none rfl hw)
        (fun c => ⟨?_,.of_not hnot⟩) fun e' he c => ?_
      · have hpair := (h.pair e c).kept hkept fun hr => absurd hr hrun
        split
        · refine hpair.ask_self ((h.pair e c).toAsk k ?_) ?_ hrun ?_
          · cases k with
            | start => exact hc
            | stop => exact .inr (.inr hc)
          · cases k with
            | start => exact fun hk' => (by cases hk')
            | stop => rintro (hk' | hk' | hk') <;> cases hk'
          · rintro rfl
            exact (h.pair e c).starting hc
        · exact hpair
      · split
        · exact ⟨(h.pair e' c).ask_other (Ne.symm he),(h.met e' c).ask _⟩
        · exact ⟨h.pair e' c,h.met e' c⟩
    · cases hst
  | done e ok =>
    simp only [step] at hst
    split at hst
    · rename_i k hw
      split at hst <;> cases hst
      rename_i hpend
      have hst := (h.ok e).waiting k hw
      have hc : (s.eo e).call = none := by
        cases hc : (s.eo e).call with
        | none => rfl
        | some k' => cases ((h.ok e).call k' hc).2.symm.trans hw
      have hu : s.tbl.place e = .counted := h.counted e (by rw [hst]; cases k <;> decide)
      cases k with
      | start =>
        cases ok with
        | true =>
          have hkept : (s.eo e).Kept { s.eo e with waiting := none, state := .running } := by
            refine ⟨rfl,fun k' hk' => ?_,fun _ => ⟨.inl hst,rfl⟩⟩
            cases k' with
            | start => cases hc.symm.trans hk'
            | stop => exact .inl hst
          exact h.change (fun _ => hu) (.of_none hc rfl)
            (fun c => ⟨(h.pair e c).kept hkept fun _ => hpend c,(h.met e c).kept hkept fun _ => .inr ⟨hst,hc⟩⟩)
            fun e' _ c => ⟨h.pair e' c,h.met e' c⟩
        | false =>
          have hkept : (s.eo e).Kept { s.eo e with waiting := none } :=
            ⟨rfl,fun _ hk' => hk',fun hl => ⟨hl,rfl⟩⟩
          exact h.change (fun _ => hu) (.of_none hc rfl)
            (fun c => ⟨(h.pair e c).kept hkept fun _ => hpend c,(h.met e c).kept hkept id⟩)
            fun e' _ c => ⟨h.pair e' c,h.met e' c⟩
      | stop => exact h.kept (fun _ => hu) (.of_none hc rfl) (Eo.Kept.of_idle .created rfl (by decide) rfl hc)
    · cases hst
  | core c l =>
    obtain ⟨y,hy,rfl⟩ := Option.map_eq_some_iff.1 hst
    refine ⟨h.tbl,h.counted,h.ok,fun e c' => ?_,fun e c' => ?_⟩
    · by_cases hcc : c' = c
      · subst hcc
        dsimp only
        rw [Function.update_self]
        exact Core.step_pair (h.ok e) (h.pair e c') hy
      · dsimp only
        rw [Function.update_of_ne hcc]
        exact h.pair e c'
    · by_cases hcc : c' = c
      · subst hcc
        dsimp only
        rw [Function.update_self]
        exact Core.step_met (h.counted e) h.tbl (h.met e c') hy
      · dsimp only
        rw [Function.update_of_ne hcc]
        exact h.met e c'

omit [Fintype ι] [DecidableEq ι] in
theorem inv_initial (h : s.Initial) : Inv opt s where
  tbl := Tables.State.exact_initial h.tbl
  counted e he := absurd (congrArg Eo.state (h.eo e)) he
  ok e := by
    rw [h.eo]
    exact .of_none rfl rfl
  pair e c := by
    rw [h.eo, h.core]
    refine ⟨fun _ _ _ => ⟨Finset.notMem_empty _,rfl⟩,fun _ _ _ hs => (by cases hs),
      fun _ _ hp => absurd hp (Finset.notMem_empty _),fun _ _ => Finset.notMem_empty _,fun hc => (by cases hc),
      fun _ _ => rfl,fun _ => Finset.notMem_empty _,fun hs => (by cases hs),
      fun ha => absurd ha (Finset.notMem_empty _),fun _ _ _ => rfl⟩
  met e c hm := by
    rw [h.core] at hm
    cases hm

theorem reachable_inv (h : (machine n ι opt).Reachable s) : Inv opt s :=
  h.invariant (I := Inv opt) (fun _ hi => inv_initial hi) fun _ _ _ hs hst _ => inv_step hs hst

end State

private def noEos : State 1 (Fin 2) := ⟨⟨fun _ => .pool,0,0⟩,fun _ => {},fun _ => {}⟩

private theorem noEos_initial : noEos.Initial := ⟨⟨fun _ => rfl,rfl,rfl⟩,fun _ => rfl,fun _ => rfl⟩

/-- Core 1 becomes an EM core after the request of a start, and finds the EO before its start ends. -/
private def startMissed : Option (State 1 (Fin 2)) :=
  System.exec (State.step fun _ => true) (fun _ _ _ => true) noEos
    [.core 0 .join, .core 0 .first, .table (.rem 0), .table (.inc 0),
      .eo 0 (.create { func := fun _ => true }), .eo 0 .start, .request 0, .core 1 .join,
      .core 1 .first, .core 1 .look, .core 1 .visit, .core 0 (.handle ⟨.start,0,1⟩), .done 0 true]

private theorem startMissed_isSome : startMissed.isSome = true := by decide

private def missed : State 1 (Fin 2) := startMissed.get startMissed_isSome

private theorem missed_reachable : (State.machine 1 (Fin 2) fun _ => true).Reachable missed :=
  System.ReachableVia.exec (fun _ _ _ _ => trivial) (.start noEos_initial)
    (Option.some_get startMissed_isSome).symm

end EmOdp.LocalFunc.Cores
