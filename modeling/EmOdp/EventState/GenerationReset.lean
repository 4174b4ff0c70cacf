import EmOdp.EventState.ReferenceSafety

/-! The generation of an event with references, whose restart at `EVGEN_MAX` is a second access. It stays
in its field while the access that is still to come has the effect that it was meant to have. -/
namespace EmOdp.EventState.Ref
open Lib EvstateCnt
variable {ι : Type} [Fintype ι] [DecidableEq ι] {preallocPools : Bool} {s t : State ι} {l : Label ι} {g : Int}

/-- The core is to restart the generation, it has seen `EVGEN_MAX`. -/
def Pc.restarts : Pc → Nat
  | .sendFix | .freeFix => 1
  | .idle | .sent | .revertFix => 0

/-- The core is to set the generation back, it has seen `EVGEN_INIT - 1`. -/
def Pc.setsBack : Pc → Nat
  | .revertFix => 1
  | .idle | .sent | .sendFix | .freeFix => 0

/-- What the steps add up to over all cores. -/
def State.total (s : State ι) (f : Pc → Nat) : Nat := ∑ c, f (s.pc c)

omit [Fintype ι] [DecidableEq ι] in
/-- A send or free finds no correction outstanding that it would defeat: it does not bring the generation
to `EVGEN_MAX` again before the restart, not above `EVGEN_INIT - 1` before it is set back, and the restart
is not delayed for 0x1000 generations. -/
def Timely (s : State ι) : Label ι → Prop
  | .send _ | .free _ =>
    ((∃ c, s.pc c = .sendFix ∨ s.pc c = .freeFix) → s.stateCnt.evgen ≠ evgenMax - 1 ∧ s.stateCnt.evgen ≠ 0xFFFE) ∧
    ((∃ c, s.pc c = .revertFix) → s.stateCnt.evgen ≠ evgenInit - 1)
  | .ref _ | .enqueue _ | .revert _ | .fix _ | .dispatch _ => True

/-- The generation is in its field, and the rest of the word is what the sends and references make it. -/
structure InField (s : State ι) : Prop where
  evgen_ge : 1 ≤ s.stateCnt.evgen.toNat
  evgen_le : s.stateCnt.evgen.toNat ≤ 0xFFFE
  rsvd : s.stateCnt.rsvd = 0
  stateCnt : s.stateCnt = encode s.stateCnt.evgen.toNat s.emOwned s.refs

/-- What one access does to the generation and to its core. -/
inductive Move (g : Int) : Pc → Int → Pc → Prop where
  | stay (p : Pc) : Move g p 0 p
  | enqueue : Move g .sent 0 .idle
  | send : g+1 ≠ 0xEFFF → Move g .idle 1 .sent
  | sendMax : g+1 = 0xEFFF → Move g .idle 1 .sendFix
  | free : g+1 ≠ 0xEFFF → Move g .idle 1 .idle
  | freeMax : g+1 = 0xEFFF → Move g .idle 1 .freeFix
  | revert : g-1 ≠ 0xFFF → Move g .sent (-1) .idle
  | revertInit : g-1 = 0xFFF → Move g .sent (-1) .revertFix
  | sendFix : Move g .sendFix (-0xDFFF) .sent
  | freeFix : Move g .freeFix (-0xDFFF) .idle
  | revertFix : Move g .revertFix 0xDFFF .idle

/-- Bounds on the generation: which correction is outstanding, if any, and how many sends may yet be
taken back. -/
structure Bounded (n : Nat) (g : Int) (sending restarts setsBack : Nat) : Prop where
  one : restarts + setsBack ≤ 1
  ge : 0xDFFF * restarts + 0x1000 + sending ≤ g + n
  le : g ≤ 0xFFFE
  le_of_zero : restarts = 0 → g ≤ 0xEFFE
  le_of_setsBack : setsBack = 1 → g ≤ 0xFFF

structure GenInv (s : State ι) : Prop where
  stateCnt : ∃ g, s.stateCnt = encode g s.emOwned s.refs ∧
    Bounded (Fintype.card ι) g (s.total Pc.sending) (s.total Pc.restarts) (s.total Pc.setsBack)

theorem total_update (s : State ι) (f : Pc → Nat) {c : ι} {p : Pc} (hpc : t.pc = Function.update s.pc c p) :
    t.total f + f (s.pc c) = s.total f + f p := by
  have h := sum_update (fun i => f (s.pc i)) c (f p)
  have hf : (fun i => f (t.pc i)) = Function.update (fun i => f (s.pc i)) c (f p) := by
    funext i
    rw [hpc]
    by_cases hi : i = c
    · rw [hi, Function.update_self, Function.update_self]
    · rw [Function.update_of_ne hi, Function.update_of_ne hi]
  rw [← hf] at h
  exact h

omit [DecidableEq ι] in
theorem total_sending_le (s : State ι) : s.total Pc.sending ≤ Fintype.card ι := by
  have h := Finset.sum_le_card_nsmul Finset.univ (fun c => (s.pc c).sending) 1 fun c _ => by
    cases s.pc c <;> decide
  simpa [State.total] using h

omit [DecidableEq ι] in
theorem exists_of_total {f : Pc → Nat} (h : s.total f ≠ 0) : ∃ c, f (s.pc c) ≠ 0 := by
  obtain ⟨c,-,hc⟩ := Finset.exists_ne_zero_of_sum_ne_zero h
  exact ⟨c,hc⟩

omit [Fintype ι] [DecidableEq ι] in
private theorem addFetch_evgen_max {a b : Int} {d e : BitVec 16} (hc : s.stateCnt = encode g a b) (h0 : 0 < g)
    (h1 : g < 0xFFFF) : (s.stateCnt.addFetch (ofParts 1 0 d e)).evgen = evgenMax ↔ g+1 = 0xEFFF := by
  rw [hc, encode_addFetch]
  exact evgen_eq_max (by show 0 ≤ g+1; omega) (by show g+1 < 2^16; omega)

omit [Fintype ι] [DecidableEq ι] in
private theorem subFetch_evgen_init {a b : Int} {d e : BitVec 16} (hc : s.stateCnt = encode g a b) (h0 : 0 < g)
    (h1 : g ≤ 0xFFFF) : (s.stateCnt.subFetch (ofParts 1 0 d e)).evgen = evgenInit - 1 ↔ g-1 = 0xFFF := by
  rw [hc, encode_subFetch]
  exact evgen_eq_below_init (by show 0 ≤ g-1; omega) (by show g-1 < 2^16; omega)

section Step
variable {c : ι}

omit [Fintype ι]

private theorem step_send_eq (hs : s.step (.send c) = some t) : s.pc c = .idle ∧
    ∃ n p, n = s.stateCnt.addFetch cntSend ∧ p = (if n.evgen = evgenMax then Pc.sendFix else Pc.sent) ∧
      t = ((s.usr2em n n.prevGen).give c).setPc c p := by
  simp only [State.step] at hs
  split at hs
  · rename_i hg
    exact ⟨hg.2,_,_,rfl,rfl,(Option.some.inj hs).symm⟩
  · cases hs

theorem step_send_pc (hs : s.step (.send c) = some t) : s.pc c = .idle ∧
    t.pc = Function.update s.pc c (if (s.stateCnt.addFetch cntSend).evgen = evgenMax then .sendFix else .sent) := by
  obtain ⟨hidle,n,p,hn,hp,rfl⟩ := step_send_eq hs
  rw [← hn, ← hp]
  exact ⟨hidle,rfl⟩

private theorem step_free_eq (hs : s.step (.free c) = some t) : s.pc c = .idle ∧
    ∃ n p, n = s.stateCnt.addFetch cntFree ∧ p = (if n.evgen = evgenMax then Pc.freeFix else Pc.idle) ∧
      t = { ((s.usr2em n n.prevGen).give c).setPc c p with frees := s.frees + 1 } := by
  simp only [State.step] at hs
  split at hs
  · rename_i hg
    exact ⟨hg.2,_,_,rfl,rfl,(Option.some.inj hs).symm⟩
  · cases hs

theorem step_free_pc (hs : s.step (.free c) = some t) : s.pc c = .idle ∧
    t.pc = Function.update s.pc c (if (s.stateCnt.addFetch cntFree).evgen = evgenMax then .freeFix else .idle) := by
  obtain ⟨hidle,n,p,hn,hp,rfl⟩ := step_free_eq hs
  rw [← hn, ← hp]
  exact ⟨hidle,rfl⟩

theorem step_revert_pc (hs : s.step (.revert c) = some t) : s.pc c = .sent ∧
    t.pc = Function.update s.pc c
      (if (s.stateCnt.subFetch cntSend).evgen = evgenInit - 1 then .revertFix else .idle) := by
  simp only [State.step] at hs
  split at hs
  · rename_i hg
    refine ⟨hg.2,?_⟩
    split at hs
    · rename_i h
      rw [← Option.some.inj hs, if_pos h]
      rfl
    · rename_i h
      rw [← Option.some.inj hs, if_neg h]
      rfl
  · cases hs

end Step

omit [Fintype ι] in
/-- The access and the core that makes it, in a word whose generation is in its field -/
theorem step_move {a b : Int} (hs : s.step l = some t) (hc : s.stateCnt = encode g a b) (h0 : 0 < g)
    (h1 : g < 0xFFFF) : ∃ c p, Move g (s.pc c) (s.genDelta l) p ∧ t.pc = Function.update s.pc c p := by
  have hmax (d e : BitVec 16) := @addFetch_evgen_max _ s g a b d e hc h0 h1
  have hinit (d e : BitVec 16) := @subFetch_evgen_init _ s g a b d e hc h0 (by omega)
  have hstay (c : ι) (hpc : t.pc = s.pc) : ∃ c p, Move g (s.pc c) 0 p ∧ t.pc = Function.update s.pc c p :=
    ⟨c,s.pc c,.stay _,by rw [hpc, Function.update_eq_self]⟩
  cases l with
  | ref c =>
    obtain ⟨-,-,n,-,rfl⟩ := step_ref hs
    exact hstay c rfl
  | dispatch c =>
    obtain ⟨-,-,n,-,rfl⟩ := step_dispatch hs
    exact hstay c rfl
  | enqueue c =>
    obtain ⟨-,hp,rfl⟩ := step_enqueue hs
    exact ⟨c,.idle,hp ▸ .enqueue,rfl⟩
  | send c =>
    obtain ⟨hp,hpc⟩ := step_send_pc hs
    refine ⟨c,_,?_,hpc⟩
    rw [hp, cntSend]
    split
    · rename_i h
      exact .sendMax ((hmax _ _).1 h)
    · rename_i h
      exact .send (mt (hmax _ _).2 h)
  | free c =>
    obtain ⟨hp,hpc⟩ := step_free_pc hs
    refine ⟨c,_,?_,hpc⟩
    rw [hp, cntFree]
    split
    · rename_i h
      exact .freeMax ((hmax _ _).1 h)
    · rename_i h
      exact .free (mt (hmax _ _).2 h)
  | revert c =>
    obtain ⟨hp,hpc⟩ := step_revert_pc hs
    refine ⟨c,_,?_,hpc⟩
    rw [hp, cntSend]
    split
    · rename_i h
      exact .revertInit ((hinit _ _).1 h)
    · rename_i h
      exact .revert (mt (hinit _ _).2 h)
  | fix c =>
    obtain ⟨-,n,⟨hp,-,rfl⟩ | ⟨hp,-,rfl⟩ | ⟨hp,-,rfl⟩⟩ := step_fix hs
    · exact ⟨c,.sent,by rw [State.genDelta, hp]; exact .sendFix,rfl⟩
    · exact ⟨c,.idle,by rw [State.genDelta, hp]; exact .freeFix,rfl⟩
    · exact ⟨c,.idle,by rw [State.genDelta, hp]; exact .revertFix,rfl⟩

omit [DecidableEq ι] in
/-- What a timely send or free knows of the generation -/
private theorem timely_bounds {a b : Int} (hc : s.stateCnt = encode g a b)
    (hl : Timely s l) (hone : s.genDelta l = 1) :
    (s.total Pc.restarts ≠ 0 → g ≠ 0xEFFE ∧ g ≠ 0xFFFE) ∧ (s.total Pc.setsBack ≠ 0 → g ≠ 0xFFF) := by
  have hne (x : Int) (y : BitVec 16) (hy : y = BitVec.ofInt 16 x) (h : s.stateCnt.evgen ≠ y) : g ≠ x := by
    rintro rfl
    rw [hc, encode_evgen] at h
    exact h hy.symm
  have htimely : ((∃ c, s.pc c = .sendFix ∨ s.pc c = .freeFix) →
      s.stateCnt.evgen ≠ evgenMax - 1 ∧ s.stateCnt.evgen ≠ 0xFFFE) ∧
      ((∃ c, s.pc c = .revertFix) → s.stateCnt.evgen ≠ evgenInit - 1) := by
    cases l with
    | send | free => exact hl
    | ref | enqueue | revert | dispatch => exact absurd hone (by simp [State.genDelta])
    | fix c =>
      simp only [State.genDelta] at hone
      split at hone <;> omega
  refine ⟨fun h => ?_,fun h => ?_⟩
  · obtain ⟨c,hc'⟩ := exists_of_total h
    have hpending : s.pc c = .sendFix ∨ s.pc c = .freeFix := by
      cases hp : s.pc c <;> simp_all [Pc.restarts]
    obtain ⟨hmax,hend⟩ := htimely.1 ⟨c,hpending⟩
    exact ⟨hne 0xEFFE _ rfl hmax,hne 0xFFFE _ rfl hend⟩
  · obtain ⟨c,hc'⟩ := exists_of_total h
    have hpending : s.pc c = .revertFix := by
      cases hp : s.pc c <;> simp_all [Pc.setsBack]
    exact hne 0xFFF _ rfl (htimely.2 ⟨c,hpending⟩)

private theorem bounded_pos {n : Nat} {sending restarts setsBack : Nat} (hn : n < 0x1000)
    (h : Bounded n g sending restarts setsBack) : 0 < g := by
  have hge := h.ge
  omega

theorem genInv_step (hn : Fintype.card ι < 0x1000) (h : GenInv s) (hs : s.step l = some t) (hl : Timely s l) :
    GenInv t := by
  obtain ⟨g,hc,hb⟩ := h.stateCnt
  have hpos := bounded_pos hn hb
  have hle := hb.le
  obtain ⟨c,p,hmove,hpc⟩ := step_move hs hc hpos (by omega)
  have htimely := timely_bounds hc hl
  have hcnt := step_stateCnt hs hc
  rw [← step_emOwned hs, ← step_refs hs] at hcnt
  refine ⟨_,hcnt,?_⟩
  have hsending := total_update s Pc.sending hpc
  have hrestarts := total_update s Pc.restarts hpc
  have hsetsBack := total_update s Pc.setsBack hpc
  have hlimit := total_sending_le s
  have hlimit' := total_sending_le t
  obtain ⟨hone,hge,-,hzero,hback⟩ := hb
  generalize s.genDelta l = δ at *
  generalize s.pc c = q at *
  clear hcnt hc hpc hs hl
  cases hmove <;> simp only [Pc.sending, Pc.restarts, Pc.setsBack, Nat.add_zero] at hsending hrestarts hsetsBack <;>
    constructor <;> omega

theorem genInv_initial (h : Initial preallocPools s) : GenInv s := by
  obtain ⟨o,ho,howner,hcnt,-⟩ := h.owner
  have hg := gen_bounds o.transitions
  have hem : s.emOwned = 0 := by simp [State.emOwned, h.queued, h.idle, Pc.sending]
  have href : s.refs = 1 := by simp [State.refs, h.created, h.frees]
  have hzero (f : Pc → Nat) (hf : f .idle = 0) : s.total f = 0 := by simp [State.total, h.idle, hf]
  refine ⟨gen o.transitions,?_,?_⟩
  · rw [hcnt, (EventState.reachable_inv ho).stateCnt, howner, hem, href]
    rfl
  · rw [hzero _ rfl, hzero _ rfl, hzero _ rfl]
    constructor <;> omega

/-- In every run of timely steps no access carries or borrows out of the generation. -/
theorem generation_in_field (hn : Fintype.card ι < 0x1000)
    (h : (refMachine ι preallocPools).ReachableVia (fun s l _ => Timely s l) s) : InField s := by
  have hi : GenInv s := h.invariant (I := GenInv) (fun _ => genInv_initial)
    fun _ _ _ hi hs hl => genInv_step hn hi hs hl
  obtain ⟨g,hc,hb⟩ := hi.stateCnt
  have hpos := bounded_pos hn hb
  have hle := hb.le
  have hg : (s.stateCnt.evgen.toNat : Int) = g := by
    rw [hc, encode_evgen, BitVec.toNat_ofInt]
    omega
  refine ⟨by omega,by omega,?_,by rw [hg, ← hc]⟩
  rw [hc]
  exact encode_rsvd (by omega) (by omega)

instance (s : State ι) : (l : Label ι) → Decidable (Timely s l)
  | .send _ | .free _ => inferInstanceAs (Decidable (_ ∧ _))
  | .ref _ | .enqueue _ | .revert _ | .fix _ | .dispatch _ => inferInstanceAs (Decidable True)

/-- Core 0 restarts the generation after another core has gone on and taken its send back. -/
private def restarted : Option (State (Fin 3)) :=
  System.exec State.step (fun s l _ => decide (Timely s l)) owned
    [.ref 0, .ref 0, .send 0, .enqueue 0, .send 0, .enqueue 0, .dispatch 1, .dispatch 2,
      .send 1, .send 0, .send 2, .revert 2, .fix 0, .revert 1]

private theorem restarted_isSome : restarted.isSome = true := by decide

theorem generation_in_field_restarted : InField (restarted.get restarted_isSome) :=
  generation_in_field (by decide) (System.ReachableVia.exec (fun _ _ _ => of_decide_eq_true)
    (.start owned_initial) (Option.some_get restarted_isSome).symm)

/-- The second restart borrows from the reserved bits. -/
theorem generation_borrows : ¬∀ s : State (Fin 3), (refMachine (Fin 3) true).ReachableVia
    (fun s l t => FewRefs t ∧ Owned s l) s → InField s := by
  intro h
  have hs := (h (restartedTwice.get restartedTwice_isSome) (System.ReachableVia.exec
    (fun _ _ _ => of_decide_eq_true) (.start owned_initial)
    (Option.some_get restartedTwice_isSome).symm)).rsvd
  revert hs
  decide

end EmOdp.EventState.Ref
