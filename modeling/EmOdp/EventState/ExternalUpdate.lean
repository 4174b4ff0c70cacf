import EmOdp.EventState.Allocate

/-! The updates for external events against the sequences of transitions that they combine. -/
namespace EmOdp.EventState
open EvstateCnt
variable {event : EvHdl} {evHdr : EvHdr} {t : Nat} {g s r : Int} {b c : BitVec 16}

/-- The three calculations in the comment of `esv_update_ext`: allocated, sent and dispatched -/
def updateSteps (event : EvHdl) (evHdr : EvHdr) : Except EvstateError (EvHdl × EvHdr) :=
  (esvEm2usr event evHdr cntAlloc false).bind fun r =>
    (esvUsr2em .single r.1 r.2 cntSend false).bind fun evHdr =>
      esvEm2usr r.1 evHdr cntDispatch false

/-- The calculations in the comment of `esv_evinit_ext`: initialised as sent and dispatched -/
def evinitSteps (event : EvHdl) (evHdr : EvHdr) : Except EvstateError (EvHdl × EvHdr) :=
  let (event,evHdr) := esvEvinit event evHdr initCntExtev
  esvEm2usr event evHdr cntDispatch false

private theorem nextGen (t : Nat) : (if (encode (gen t + 1) s r).evgen = evgenMax then
      (encode (gen t + 1) s r).subFetch evgenWrap else encode (gen t + 1) s r) = encode (gen (t+1)) s r := by
  have hg := gen_bounds t
  rw [gen_succ]
  simp only [evgen_eq_max (s := s) (r := r) (g := gen t + 1) (by omega) (by omega)]
  split
  · rw [subFetch_evgenWrap]
    congr 1
    omega
  · rfl

theorem esvUpdateExt_counts (hcnt : evHdr.stateCnt = encode (gen t) s r) :
    esvUpdateExt event evHdr =
      if (encode (gen (t+1)) s (r+1)).em2usrError then
        .error ⟨encode (gen (t+1)) s (r+1),event.current evHdr.refsUsed (gen (t+1)),.em2usr⟩
      else .ok (event.current evHdr.refsUsed (gen (t+1)),{ evHdr with
        event := if evHdr.refsUsed then evHdr.event else event.current false (gen (t+1))
        stateCnt := encode (gen (t+1)) s (r+1) }) := by
  have hadd : (⟨evHdr.stateCnt.u64 + ((ofParts 1 0 0 0).u64 - (ofParts 0 0 1 0).u64)⟩ : EvstateCnt) =
      encode (gen t + 1) s (r+1) := by
    have hone := encode_addFetch (gen t) s r 1 0 0
    have htwo := encode_subFetch (gen t + 1) s r 0 1 0
    rw [show ((1 : BitVec 16).toNat : Int) = 1 from rfl, show ((0 : BitVec 16).toNat : Int) = 0 from rfl,
      Int.add_zero, Int.sub_zero] at hone
    rw [show ((1 : BitVec 16).toNat : Int) = 1 from rfl, show ((0 : BitVec 16).toNat : Int) = 0 from rfl,
      Int.sub_zero, Int.sub_zero] at htwo
    rw [hcnt, ← htwo, ← hone, subFetch, addFetch]
    simp only [BitVec.sub_eq_add_neg, BitVec.add_assoc]
  rw [esvUpdateExt, hadd, nextGen, encode_evgen]
  cases evHdr.refsUsed <;> simp only [EvHdl.current, Bool.false_eq_true, if_false, if_true]

/-- The last calculation is made on what the first two leave. -/
private theorem updateSteps_of {event' : EvHdl} {allocated sent : EvHdr}
    (halloc : esvEm2usr event evHdr cntAlloc false = .ok (event',allocated))
    (hsend : esvUsr2em .single event' allocated cntSend false = .ok sent) :
    updateSteps event evHdr = esvEm2usr event' sent cntDispatch false := by
  rw [updateSteps, halloc, Except.bind, hsend, Except.bind]

private theorem alloc_freed (hcnt : evHdr.stateCnt = encode (gen t) 0 0) :
    esvEm2usr event evHdr cntAlloc false = .ok (event.current evHdr.refsUsed (gen t),{ evHdr with
      event := if evHdr.refsUsed then evHdr.event else event.current false (gen t)
      stateCnt := encode (gen t) 0 1 }) := by
  have hg := gen_bounds t
  have hok : ¬(encode (gen t) 0 1).em2usrError := by
    rw [em2usrError_encode ⟨by decide,by decide,by decide,by decide⟩ (by omega) (by omega)]
    decide
  have hcounts := @esvEm2usr_counts event evHdr (gen t) 0 0 1 0 hcnt
  rw [show (0 : Int) - (0 : BitVec 16).toNat = 0 from rfl,
    show (0 : Int) + (1 : BitVec 16).toNat = 1 from rfl, if_neg hok] at hcounts
  exact hcounts

private theorem send_allocated (hcnt : evHdr.stateCnt = encode (gen t) 0 1)
    (hgen : evHdr.refsUsed = false → event.evgen = BitVec.ofInt 16 (gen t)) :
    esvUsr2em .single event evHdr cntSend false = .ok { evHdr with
      stateCnt := encode (gen (t+1)) 1 1 } := by
  have hok : ¬(encode (gen t) 1 1).usr2emError evHdr.refsUsed event :=
    not_usr2emError_encode (by decide) (by decide) (by decide) hgen
  have hcounts := @esvUsr2em_counts .single event evHdr t 0 1 0 1 hcnt
  rw [show (0 : Int) + (1 : BitVec 16).toNat = 1 from rfl,
    show (1 : Int) - (0 : BitVec 16).toNat = 1 from rfl, if_neg hok] at hcounts
  exact hcounts

private theorem dispatch_sent (hcnt : evHdr.stateCnt = encode (gen t) 1 1) :
    esvEm2usr event evHdr cntDispatch false = .ok (event.current evHdr.refsUsed (gen t),{ evHdr with
      event := if evHdr.refsUsed then evHdr.event else event.current false (gen t)
      stateCnt := encode (gen t) 0 1 }) := by
  have hg := gen_bounds t
  have hok : ¬(encode (gen t) 0 1).em2usrError := by
    rw [em2usrError_encode ⟨by decide,by decide,by decide,by decide⟩ (by omega) (by omega)]
    decide
  have hcounts := @esvEm2usr_counts event evHdr (gen t) 1 1 0 1 hcnt
  rw [show (1 : Int) - (1 : BitVec 16).toNat = 0 from rfl,
    show (1 : Int) + (0 : BitVec 16).toNat = 1 from rfl, if_neg hok] at hcounts
  exact hcounts

/-- The three calculations, one after the other -/
private theorem updateSteps_freed (hcnt : evHdr.stateCnt = encode (gen t) 0 0) :
    updateSteps event evHdr = .ok (event.current evHdr.refsUsed (gen (t+1)),{ evHdr with
      event := if evHdr.refsUsed then evHdr.event else event.current false (gen (t+1))
      stateCnt := encode (gen (t+1)) 0 1 }) := by
  have hsend := @send_allocated (event.current evHdr.refsUsed (gen t)) { evHdr with
      event := if evHdr.refsUsed then evHdr.event else event.current false (gen t)
      stateCnt := encode (gen t) 0 1 } t rfl fun hrefs => by
    rw [EvHdl.current, if_neg (by rw [show evHdr.refsUsed = false from hrefs]; decide)]
  rw [updateSteps_of (alloc_freed hcnt) hsend, dispatch_sent rfl]
  cases hrefs : evHdr.refsUsed <;> rfl

private theorem evinitSteps_eq (event : EvHdl) (evHdr : EvHdr) :
    evinitSteps event evHdr = .ok (esvEvinitExt event evHdr) := by
  have hinit : initCntExtev = encode (gen 0) 1 1 := by decide
  have hcnt : encode (gen 0) 0 1 = initCntExtev.subFetch cntDispatch := by decide
  have hgen : BitVec.ofInt 16 (gen 0) = evgenInit := by decide
  have hgen' : (initCntExtev.subFetch cntDispatch).evgen = evgenInit := by decide
  simp only [evinitSteps, esvEvinit]
  rw [dispatch_sent (t := 0) hinit, esvEvinitExt, hcnt]
  cases hrefs : evHdr.refsUsed <;>
    simp only [EvHdl.current, Bool.false_eq_true, if_false, if_true, hgen, hgen']

/-- The combined update does the three calculations, also where the generation restarts, and the combined
initialisation the two; no field over- or underflows into another one. -/
theorem external_updates_eq_steps :
    (∀ (event : EvHdl) (evHdr : EvHdr) (g : BitVec 16), evgenInit ≤ g → g < evgenMax →
      evHdr.stateCnt = ofParts g 0 refCntInit sendCntInit →
      ∃ r, esvUpdateExt event evHdr = .ok r ∧ updateSteps event evHdr = .ok r ∧
        r.2.stateCnt = ofParts (if g + 1 = evgenMax then evgenInit else g + 1) 0 (refCntInit - 1) sendCntInit) ∧
    ∀ (event : EvHdl) (evHdr : EvHdr), evinitSteps event evHdr = .ok (esvEvinitExt event evHdr) := by
  constructor
  · intro event evHdr g hge hlt hfreed
    have hge' : 0x1000 ≤ g.toNat := hge
    have hlt' : g.toNat < 0xEFFF := hlt
    have hgen : gen (g.toNat - 0x1000) = g.toNat := by
      rw [gen, evgenCycle_eq]
      omega
    have hcnt : evHdr.stateCnt = encode (gen (g.toNat - 0x1000)) 0 0 := by
      rw [hfreed, ofParts_eq_encode, hgen]
      rfl
    have hg' := gen_bounds (g.toNat - 0x1000 + 1)
    have hok : ¬(encode (gen (g.toNat - 0x1000 + 1)) 0 (0+1)).em2usrError := by
      rw [em2usrError_encode ⟨by decide,by decide,by decide,by decide⟩ (by omega) (by omega)]
      decide
    refine ⟨_,(esvUpdateExt_counts hcnt).trans (if_neg hok),updateSteps_freed hcnt,?_⟩
    rw [ofParts_eq_encode]
    have hnext : gen (g.toNat - 0x1000 + 1) = ((if g + 1 = evgenMax then evgenInit else g + 1).toNat : Int) := by
      have hmax : g + 1 = evgenMax ↔ g.toNat + 1 = 0xEFFF := by
        rw [← BitVec.toNat_inj, BitVec.toNat_add]
        show (g.toNat + 1) % 2^16 = 0xEFFF ↔ _
        omega
      rw [gen_succ, hgen]
      by_cases h : g.toNat + 1 = 0xEFFF
      · rw [if_pos (by omega), if_pos (hmax.2 h)]
        rfl
      · rw [if_neg (by omega), if_neg (mt hmax.1 h), BitVec.toNat_add]
        show _ = (((g.toNat + 1) % 2^16 : Nat) : Int)
        omega
    rw [hnext]
    rfl
  · exact evinitSteps_eq

/-- An event freed in the last generation, the next use starts the generations anew. -/
theorem external_updates_eq_steps_lastGen :
    ∃ r, esvUpdateExt ⟨7,0xEFFE⟩ ⟨⟨7,0xEFFE⟩,ofParts 0xEFFE 0 0x8000 0x8000,false,false⟩ = .ok r ∧
      updateSteps ⟨7,0xEFFE⟩ ⟨⟨7,0xEFFE⟩,ofParts 0xEFFE 0 0x8000 0x8000,false,false⟩ = .ok r ∧
      r.2.stateCnt = ofParts 0x1000 0 0x7FFF 0x8000 :=
  external_updates_eq_steps.1 ⟨7,0xEFFE⟩ ⟨⟨7,0xEFFE⟩,ofParts 0xEFFE 0 0x8000 0x8000,false,false⟩ 0xEFFE
    (by decide) (by decide) rfl

end EmOdp.EventState
