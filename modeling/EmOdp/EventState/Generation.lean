import EmOdp.EventState.Verify

/-! What the calls do to the counters of an event without references, when no field
over- or underflows: the generation runs through its values in a cycle. -/
namespace EmOdp.EventState
open Lib.PackedWord EvstateCnt

/-- The number of generations, `EVGEN_MAX - EVGEN_INIT`. -/
def evgenCycle : Nat := evgenMax.toNat - evgenInit.toNat

theorem evgenCycle_eq : evgenCycle = 0xDFFF := rfl

/-- The generation after `t` transitions from the user to EM. -/
def gen (t : Nat) : Int := 0x1000 + (t % evgenCycle : Nat)

theorem gen_bounds (t : Nat) : 0x1000 ≤ gen t ∧ gen t < 0xEFFF := by
  simp only [gen, evgenCycle_eq]; omega

/-- The transition to `EVGEN_MAX` restarts the cycle. -/
theorem gen_succ (t : Nat) : gen (t+1) = if gen t + 1 = 0xEFFF then 0x1000 else gen t + 1 := by
  simp only [gen, evgenCycle_eq]; omega

theorem gen_eq_iff {t u : Nat} : gen t = gen u ↔ t % evgenCycle = u % evgenCycle := by
  unfold gen; omega

/-- Generations differ within a cycle. -/
theorem gen_ne {t u : Nat} (h : t < u) (hlt : u < t + evgenCycle) : gen t ≠ gen u := by
  rw [Ne, gen_eq_iff]
  simp only [evgenCycle_eq] at *; omega

theorem ofInt_eq_iff {x y : Int} (hx0 : 0 ≤ x) (hx1 : x < 2 ^ 16) (hy0 : 0 ≤ y) (hy1 : y < 2 ^ 16) :
    BitVec.ofInt 16 x = BitVec.ofInt 16 y ↔ x = y := by
  refine ⟨fun h => ?_,fun h => by rw [h]⟩
  have hn := congrArg BitVec.toNat h
  simp only [BitVec.toNat_ofInt] at hn
  omega

theorem ofInt_gen_ne {t u : Nat} (h : t < u) (hlt : u < t + evgenCycle) :
    BitVec.ofInt 16 (gen t) ≠ BitVec.ofInt 16 (gen u) := by
  have ht := gen_bounds t
  have hu := gen_bounds u
  rw [Ne, ofInt_eq_iff (by omega) (by omega) (by omega) (by omega)]
  exact gen_ne h hlt

section Counter
variable {g s r : Int}

theorem evgen_eq_max (h0 : 0 ≤ g) (h1 : g < 2 ^ 16) :
    (encode g s r).evgen = evgenMax ↔ g = 0xEFFF := by
  rw [encode_evgen, show evgenMax = BitVec.ofInt 16 0xEFFF from rfl]
  exact ofInt_eq_iff h0 h1 (by omega) (by omega)

theorem evgen_eq_below_init (h0 : 0 ≤ g) (h1 : g < 2 ^ 16) :
    (encode g s r).evgen = evgenInit - 1 ↔ g = 0xFFF := by
  rw [encode_evgen, show evgenInit - 1 = BitVec.ofInt 16 0xFFF from rfl]
  exact ofInt_eq_iff h0 h1 (by omega) (by omega)

private theorem toNat_evgenWrap : (evgenMax - evgenInit).toNat = 0xDFFF := rfl

theorem subFetch_evgenWrap : (encode g s r).subFetch evgenWrap = encode (g - 0xDFFF) s r := by
  rw [evgenWrap, encode_subFetch, toNat_evgenWrap]; congr 1 <;> simp

theorem addFetch_evgenWrap : (encode g s r).addFetch evgenWrap = encode (g + 0xDFFF) s r := by
  rw [evgenWrap, encode_addFetch, toNat_evgenWrap]; congr 1 <;> simp

/-- Only the generation changes, there is no borrow. -/
theorem encode_prevGen (h0 : 0 < g) (h1 : g < 2 ^ 16) : (encode g s r).prevGen = encode (g-1) s r := by
  have hsub : (encode g s r).prevGen = (encode g s r).subFetch (ofParts 1 0 0 0) := by
    have hpos : 1 ≤ (encode g s r).evgen.toNat := by
      rw [encode_evgen, BitVec.toNat_ofInt]
      omega
    generalize encode g s r = c at hpos ⊢
    conv_rhs => rw [← c.ofParts_fields]
    have hone : (ofParts 1 0 0 0).u64 = 1#64 := rfl
    have hlow := append_sub_ofNat (x := c.rsvd) hpos
    have hmid := append_sub_ofNat (x := c.refCnt) (hpos.trans (le_toNat_append (x := c.rsvd)))
    have hword := append_sub_ofNat (x := c.sendCnt)
      (hpos.trans ((le_toNat_append (x := c.rsvd)).trans (le_toNat_append (x := c.refCnt))))
    rw [subFetch, prevGen, hone, ofParts, ofParts, hword, hmid, hlow]
    rfl
  rw [hsub, encode_subFetch]
  congr 1 <;> simp

end Counter

/-- The handle of an event without references has the generation of the counters. -/
def EvHdl.current (event : EvHdl) (refsUsed : Bool) (g : Int) : EvHdl :=
  if refsUsed then event else { event with evgen := BitVec.ofInt 16 g }

theorem EvHdl.current_current (event : EvHdl) (refsUsed : Bool) (g g' : Int) :
    (event.current refsUsed g).current refsUsed g' = event.current refsUsed g' := by
  cases refsUsed <;> rfl

theorem EvHdl.current_false (event : EvHdl) (refsUsed : Bool) (g g' : Int) :
    (event.current refsUsed g).current false g' = event.current false g' := by
  cases refsUsed <;> rfl

section Calls
variable {v : Variant} {event : EvHdl} {evHdr : EvHdr} {t : Nat} {g s r : Int} {b c : BitVec 16}

/-- Ranges in which the 16-bit counts are exact. -/
structure InRange (s r : Int) : Prop where
  sends_ge : -0x8000 ≤ s
  sends_lt : s < 0x8000
  refs_gt : -0x8000 < r
  refs_lt : r < 0x8000

theorem InRange.sends_refs (h : InRange s r) (h0 : 0 ≤ g) (h1 : g < 2 ^ 32) :
    (encode g s r).sends = s ∧ (encode g s r).refs = r := by
  obtain ⟨hs0,hs1,hr0,hr1⟩ := h
  exact ⟨encode_sends h0 h1 (by omega) (by omega) (by omega) (by omega),
    encode_refs h0 h1 (by omega) (by omega)⟩

/-- The check after a transition, in terms of the exact counts. -/
theorem usr2emError_encode (h : InRange s r) (event : EvHdl) (t : Nat) :
    (encode (gen t) s r).usr2emError false event ↔
      (s > r ∨ s < 0) ∨ event.evgen ≠ BitVec.ofInt 16 (gen t) := by
  have hg := gen_bounds t
  obtain ⟨hs,hr⟩ := h.sends_refs (g := gen t) (by omega) (by omega)
  simp [usr2emError, hs, hr, encode_evgen]

theorem not_usr2emError_encode {refsUsed : Bool} (hs : 0 ≤ s) (hsr : s ≤ r) (hr : r < 0x8000)
    (hgen : refsUsed = false → event.evgen = BitVec.ofInt 16 (gen t)) :
    ¬(encode (gen t) s r).usr2emError refsUsed event := by
  have hg := gen_bounds t
  have hrange : InRange s r := ⟨by omega,by omega,by omega,hr⟩
  obtain ⟨hsends,hrefs⟩ := hrange.sends_refs (g := gen t) (by omega) (by omega)
  rintro ((h | h) | ⟨hrefsUsed,hne⟩)
  · rw [hsends, hrefs] at h
    omega
  · rw [hsends] at h
    omega
  · rw [encode_evgen] at hne
    exact hne (hgen hrefsUsed)

theorem em2usrError_encode (h : InRange s r) (h0 : 0 ≤ g) (h1 : g < 2 ^ 32) :
    (encode g s r).em2usrError ↔ s ≥ r ∨ s < 0 := by
  obtain ⟨hs,hr⟩ := h.sends_refs h0 h1
  simp [em2usrError, hs, hr]

/-- A send or a free, for any handle. -/
theorem esvUsr2em_counts (hcnt : evHdr.stateCnt = encode (gen t) s r) :
    esvUsr2em v event evHdr (ofParts 1 0 b c) false =
      if (encode (gen t) (s+c.toNat) (r-b.toNat)).usr2emError evHdr.refsUsed event then
        .error ⟨encode (gen t) (s+c.toNat) (r-b.toNat),event,
          if v = .single ∧ evHdr.refsUsed then .usr2emRef else .usr2em⟩
      else .ok { evHdr with stateCnt := encode (gen (t+1)) (s+c.toNat) (r-b.toNat) } := by
  have hg := gen_bounds t
  have hadd : evHdr.stateCnt.addFetch (ofParts 1 0 b c) =
      encode (gen t + 1) (s+c.toNat) (r-b.toNat) := by
    rw [hcnt, encode_addFetch]; congr 1
  have hprev : (encode (gen t + 1) (s+c.toNat) (r-b.toNat)).prevGen =
      encode (gen t) (s+c.toNat) (r-b.toNat) := by
    rw [encode_prevGen (by omega) (by omega)]; congr 1; omega
  have hnext : (if (encode (gen t + 1) (s+c.toNat) (r-b.toNat)).evgen = evgenMax then
        (encode (gen t + 1) (s+c.toNat) (r-b.toNat)).subFetch evgenWrap
      else encode (gen t + 1) (s+c.toNat) (r-b.toNat)) =
      encode (gen (t+1)) (s+c.toNat) (r-b.toNat) := by
    rw [gen_succ]
    simp only [evgen_eq_max (s := s+c.toNat) (r := r-b.toNat) (g := gen t + 1) (by omega) (by omega)]
    split
    · rw [subFetch_evgenWrap]; congr 1; omega
    · rfl
  simp only [esvUsr2em, hadd, hprev, hnext, Bool.false_eq_true, if_false]

theorem esvUsr2em_eq (hcnt : evHdr.stateCnt = encode (gen t) s r) (hrefs : evHdr.refsUsed = false) :
    esvUsr2em v event evHdr (ofParts 1 0 b c) false =
      if (encode (gen t) (s+c.toNat) (r-b.toNat)).usr2emError false event then
        .error ⟨encode (gen t) (s+c.toNat) (r-b.toNat),event,.usr2em⟩
      else .ok { evHdr with stateCnt := encode (gen (t+1)) (s+c.toNat) (r-b.toNat) } := by
  simp only [esvUsr2em_counts hcnt, hrefs, Bool.false_eq_true, and_false, if_false]

/-- A revert undoes the transition, also across the restart of the generations. -/
theorem esvUsr2em_revert_counts (hcnt : evHdr.stateCnt = encode (gen (t+1)) s r) :
    esvUsr2em v event evHdr (ofParts 1 0 b c) true =
      if (encode (gen t) (s-c.toNat) (r+b.toNat)).usr2emError evHdr.refsUsed event then
        .error ⟨encode (gen t) (s-c.toNat) (r+b.toNat),event,
          if v = .single ∧ evHdr.refsUsed then .usr2emRef else .usr2em⟩
      else .ok { evHdr with stateCnt := encode (gen t) (s-c.toNat) (r+b.toNat) } := by
  have hg := gen_bounds t
  have hg' := gen_bounds (t+1)
  have hsub : evHdr.stateCnt.subFetch (ofParts 1 0 b c) =
      encode (gen (t+1) - 1) (s-c.toNat) (r+b.toNat) := by
    rw [hcnt, encode_subFetch]; congr 1
  have hprev : (if (encode (gen (t+1) - 1) (s-c.toNat) (r+b.toNat)).evgen = evgenInit - 1 then
        (encode (gen (t+1) - 1) (s-c.toNat) (r+b.toNat)).addFetch evgenWrap
      else encode (gen (t+1) - 1) (s-c.toNat) (r+b.toNat)) =
      encode (gen t) (s-c.toNat) (r+b.toNat) := by
    have hs := gen_succ t
    simp only [evgen_eq_below_init (s := s-c.toNat) (r := r+b.toNat) (g := gen (t+1) - 1)
      (by omega) (by omega)]
    split
    · rw [addFetch_evgenWrap]; congr 1; split at hs <;> omega
    · congr 1; split at hs <;> omega
  simp only [esvUsr2em, hsub, hprev, if_true]

theorem esvUsr2em_revert_eq (hcnt : evHdr.stateCnt = encode (gen (t+1)) s r)
    (hrefs : evHdr.refsUsed = false) :
    esvUsr2em v event evHdr (ofParts 1 0 b c) true =
      if (encode (gen t) (s-c.toNat) (r+b.toNat)).usr2emError false event then
        .error ⟨encode (gen t) (s-c.toNat) (r+b.toNat),event,.usr2em⟩
      else .ok { evHdr with stateCnt := encode (gen t) (s-c.toNat) (r+b.toNat) } := by
  simp only [esvUsr2em_revert_counts hcnt, hrefs, Bool.false_eq_true, and_false, if_false]

/-- A transition to the user, with or without references -/
theorem esvEm2usr_counts (hcnt : evHdr.stateCnt = encode g s r) :
    esvEm2usr event evHdr (ofParts 0 0 b c) false =
      if (encode g (s-c.toNat) (r+b.toNat)).em2usrError then
        .error ⟨encode g (s-c.toNat) (r+b.toNat),event.current evHdr.refsUsed g,.em2usr⟩
      else .ok (event.current evHdr.refsUsed g,{ evHdr with
        event := if evHdr.refsUsed then evHdr.event else event.current false g
        stateCnt := encode g (s-c.toNat) (r+b.toNat) }) := by
  have hsub : evHdr.stateCnt.subFetch (ofParts 0 0 b c) = encode g (s-c.toNat) (r+b.toNat) := by
    rw [hcnt, encode_subFetch]
    congr 1
    simp
  simp only [esvEm2usr, hsub, Bool.false_eq_true, if_false, encode_evgen, EvHdl.current]
  cases evHdr.refsUsed <;> rfl

/-- A transition to the user that is taken back -/
theorem esvEm2usr_revert_counts (hcnt : evHdr.stateCnt = encode g s r) :
    esvEm2usr event evHdr (ofParts 0 0 b c) true =
      if (encode g (s+c.toNat) (r-b.toNat)).em2usrError then
        .error ⟨encode g (s+c.toNat) (r-b.toNat),event.current evHdr.refsUsed g,.em2usr⟩
      else .ok (event.current evHdr.refsUsed g,{ evHdr with
        event := if evHdr.refsUsed then evHdr.event else event.current false g
        stateCnt := encode g (s+c.toNat) (r-b.toNat) }) := by
  have hadd : evHdr.stateCnt.addFetch (ofParts 0 0 b c) = encode g (s+c.toNat) (r-b.toNat) := by
    rw [hcnt, encode_addFetch]
    congr 1
    simp
  simp only [esvEm2usr, hadd, if_true, encode_evgen, EvHdl.current]
  cases evHdr.refsUsed <;> rfl

theorem esvEm2usr_eq (hcnt : evHdr.stateCnt = encode g s r) (hrefs : evHdr.refsUsed = false) :
    esvEm2usr event evHdr (ofParts 0 0 b c) false =
      if (encode g (s-c.toNat) (r+b.toNat)).em2usrError then
        .error ⟨encode g (s-c.toNat) (r+b.toNat),{ event with evgen := BitVec.ofInt 16 g },.em2usr⟩
      else .ok ({ event with evgen := BitVec.ofInt 16 g },{ evHdr with
        event := { event with evgen := BitVec.ofInt 16 g }
        stateCnt := encode g (s-c.toNat) (r+b.toNat) }) := by
  simp only [esvEm2usr_counts hcnt, hrefs, Bool.false_eq_true, if_false, EvHdl.current]

end Calls
end EmOdp.EventState
