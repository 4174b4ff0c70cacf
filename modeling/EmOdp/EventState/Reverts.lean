import EmOdp.Lib.EachCell
import EmOdp.EventState.Generation

/-! The transitions that an operation takes back when it fails, and whether what they leave is the state
before. The revert of `evstate_em2usr` has the check for an event of the user, but gives it to EM. -/
namespace EmOdp.EventState
open Lib EvstateCnt
variable {v : Variant} {event : EvHdl} {evHdr : EvHdr} {g s r : Int} {b c : BitVec 16}

inductive Transition where
  | usr2em | free | em2usr
  deriving DecidableEq, Repr

namespace Transition
variable (tr : Transition) (v : Variant) (event : EvHdl) (evHdr : EvHdr)

/-- The handle after the transition and the header; only EM's handles change. -/
def apply : Except EvstateError (EvHdl × EvHdr) :=
  match tr with
  | usr2em => (evstateUsr2em v event evHdr).map fun evHdr => (event,evHdr)
  | free => (evstateFree v event evHdr).map fun evHdr => (event,evHdr)
  | em2usr => evstateEm2usr event evHdr

def revert : Except EvstateError (EvHdl × EvHdr) :=
  match tr with
  | usr2em => (evstateUsr2emRevert v event evHdr).map fun evHdr => (event,evHdr)
  | free => (evstateFreeRevert v event evHdr).map fun evHdr => (event,evHdr)
  | em2usr => evstateEm2usrRevert event evHdr

/-- Raw ODP events have no counters to change, `evstate_free` does not look for them. -/
def Counts : Prop := evHdr.odpType = false ∨ tr = free ∧ v = .single

instance : Decidable (tr.Counts v evHdr) := inferInstanceAs (Decidable (_ ∨ _))

/-- Each event in turn: what a `_multi` function does, and for one event the function itself -/
def applyEach : List EvHdl → (BitVec 48 → EvHdr) → Except EvstateError (List EvHdl × (BitVec 48 → EvHdr)) :=
  eachCell EvHdl.evptr (tr.apply v)

def revertEach : List EvHdl → (BitVec 48 → EvHdr) → Except EvstateError (List EvHdl × (BitVec 48 → EvHdr)) :=
  eachCell EvHdl.evptr (tr.revert v)

end Transition

/-- A state that the functions leave: the generation is one of those in use, and no more is sent than
there are references. -/
structure EvstateCnt.Valid (c : EvstateCnt) : Prop where
  evgen_ge : evgenInit ≤ c.evgen
  evgen_lt : c.evgen < evgenMax
  rsvd : c.rsvd = 0
  sends_ge : 0 ≤ c.sends
  sends_le : c.sends ≤ c.refs

private theorem toInt_sub (x y : BitVec 16) :
    (x - y).toInt = if (2^16 - y.toNat + x.toNat) % 2^16 < 2^15 then
      (((2^16 - y.toNat + x.toNat) % 2^16 : Nat) : Int)
    else ((2^16 - y.toNat + x.toNat) % 2^16 : Nat) - 2^16 := by
  rw [BitVec.toInt_eq_toNat_cond, BitVec.toNat_sub]
  split <;> split <;> omega

theorem EvstateCnt.Valid.eq_encode {c : EvstateCnt} (h : c.Valid) :
    c = encode (gen (c.evgen.toNat - 0x1000)) c.sends c.refs ∧ c.refs < 0x8000 := by
  have hge : 0x1000 ≤ c.evgen.toNat := h.evgen_ge
  have hlt : c.evgen.toNat < 0xEFFF := h.evgen_lt
  have hgen : gen (c.evgen.toNat - 0x1000) = c.evgen.toNat := by
    rw [gen, evgenCycle_eq]
    omega
  have hinit : sendCntInit.toNat = 0x8000 ∧ refCntInit.toNat = 0x8000 := ⟨rfl,rfl⟩
  have hsendCnt := c.sendCnt.isLt
  have hrefCnt := c.refCnt.isLt
  have hsends : c.sends = c.sendCnt.toNat - 0x8000 := by
    have h := toInt_sub c.sendCnt sendCntInit
    rw [← sends, hinit.1] at h
    split at h <;> omega
  have hnonneg := h.sends_ge.trans h.sends_le
  have hrefs : c.refs = 0x8000 - c.refCnt.toNat ∧ c.refs < 0x8000 := by
    have h := toInt_sub refCntInit c.refCnt
    rw [← refs, hinit.2] at h
    split at h <;> omega
  refine ⟨?_,hrefs.2⟩
  rw [hgen, hsends, hrefs.1, ← ofParts_eq_encode]
  exact (h.rsvd ▸ ofParts_fields c).symm

/-- What a call takes from the user to EM, its revert gives back. -/
theorem esvUsr2em_restores {evHdr' : EvHdr} (hv : evHdr.stateCnt.Valid)
    (h : esvUsr2em v event evHdr (ofParts 1 0 b c) false = .ok evHdr') :
    esvUsr2em v event evHdr' (ofParts 1 0 b c) true = .ok evHdr := by
  obtain ⟨hcnt,hlt⟩ := hv.eq_encode
  rw [esvUsr2em_counts hcnt] at h
  split at h
  · cases h
  · rename_i hok
    have hsends := hv.sends_ge
    have hrefs := hv.sends_le
    cases h
    have hback : ¬(encode (gen (evHdr.stateCnt.evgen.toNat - 0x1000)) evHdr.stateCnt.sends
        evHdr.stateCnt.refs).usr2emError evHdr.refsUsed event :=
      not_usr2emError_encode hsends hrefs hlt fun hused => by
        rw [EvstateCnt.usr2emError, not_or, not_and_or] at hok
        rw [← encode_evgen]
        exact not_not.1 (hok.2.resolve_left (not_not.2 hused))
    rw [esvUsr2em_revert_counts rfl, add_sub_cancel_right, sub_add_cancel, if_neg hback, ← hcnt]

/-- An event that EM has sent and has again: the send counts among the references that the user is
left with. -/
private theorem esvEm2usr_restores {event' : EvHdl} {evHdr' : EvHdr} (hv : evHdr.stateCnt.Valid)
    (h : esvEm2usr event evHdr cntDispatch false = .ok (event',evHdr')) :
    (∃ r, esvEm2usr event' evHdr' cntDispatch true = .ok r ∧ r.2.stateCnt = evHdr.stateCnt ∧
      esvEm2usr r.1 r.2 cntDispatch false = .ok (event',evHdr')) ↔
        evHdr.stateCnt.sends < evHdr.stateCnt.refs := by
  obtain ⟨hcnt,hlt⟩ := hv.eq_encode
  have hsends := hv.sends_ge
  have hrefs := hv.sends_le
  have hg := gen_bounds (evHdr.stateCnt.evgen.toNat - 0x1000)
  generalize gen (evHdr.stateCnt.evgen.toNat - 0x1000) = g at hcnt hg
  generalize hs : evHdr.stateCnt.sends = s at *
  generalize hr : evHdr.stateCnt.refs = r at *
  have hone : ((1 : BitVec 16).toNat : Int) = 1 := rfl
  have hzero : ((0 : BitVec 16).toNat : Int) = 0 := rfl
  have hdispatch (event : EvHdl) (evHdr : EvHdr) := @esvEm2usr_counts event evHdr g s r 0 1
  have hback (event : EvHdl) (evHdr : EvHdr) := @esvEm2usr_revert_counts event evHdr g (s-1) r 0 1
  simp only [hone, hzero, add_zero, sub_zero, sub_add_cancel] at hdispatch hback
  rw [cntDispatch] at *
  rw [hdispatch event evHdr hcnt] at h
  split at h
  · cases h
  · rename_i hok
    cases h
    have herror : (encode g s r).em2usrError ↔ s ≥ r ∨ s < 0 :=
      em2usrError_encode ⟨by omega,by omega,by omega,by omega⟩ (by omega) (by omega)
    rw [hback _ _ rfl]
    constructor
    · rintro ⟨r',h,-⟩
      split at h
      · cases h
      · rename_i hrevert
        rw [herror] at hrevert
        omega
    · intro hlt'
      rw [if_neg (by rw [herror]; omega)]
      refine ⟨_,rfl,hcnt.symm,?_⟩
      rw [hdispatch _ _ rfl, if_neg hok]
      simp only [EvHdl.current_current, EvHdl.current_false]
      cases evHdr.refsUsed <;> rfl

namespace Transition
variable {tr : Transition} {event' : EvHdl} {evHdr' : EvHdr}

/-- The update of the counters -/
def update (tr : Transition) (v : Variant) (event : EvHdl) (evHdr : EvHdr) (isRevert : Bool) :
    Except EvstateError (EvHdl × EvHdr) :=
  match tr with
  | usr2em => (esvUsr2em v event evHdr cntSend isRevert).map fun evHdr => (event,evHdr)
  | free => (esvUsr2em v event evHdr cntFree isRevert).map fun evHdr => (event,evHdr)
  | em2usr => esvEm2usr event evHdr cntDispatch isRevert

theorem apply_eq (tr : Transition) (v : Variant) (event : EvHdl) (evHdr : EvHdr) :
    tr.apply v event evHdr = if tr.Counts v evHdr then tr.update v event evHdr false else .ok (event,evHdr) := by
  cases tr <;> cases v <;> cases h : evHdr.odpType <;>
    simp only [apply, update, Counts, evstateUsr2em, evstateFree, evstateEm2usr, h, reduceCtorEq, and_true,
      and_false, or_true, or_false, Bool.false_eq_true, Bool.true_eq_false, if_true,
      if_false] <;> rfl

theorem revert_eq (tr : Transition) (v : Variant) (event : EvHdl) (evHdr : EvHdr) :
    tr.revert v event evHdr = if tr.Counts v evHdr then tr.update v event evHdr true else .ok (event,evHdr) := by
  cases tr <;> cases v <;> cases h : evHdr.odpType <;>
    simp only [revert, update, Counts, evstateUsr2emRevert, evstateFreeRevert, evstateEm2usrRevert, h,
      reduceCtorEq, and_true, and_false, or_true, or_false, Bool.false_eq_true,
      Bool.true_eq_false, if_true, if_false] <;> rfl

private theorem map_pair {x : Except EvstateError EvHdr} {r : EvHdl × EvHdr}
    (h : x.map (fun evHdr => (event,evHdr)) = .ok r) : x = .ok r.2 ∧ r.1 = event := by
  cases x with
  | error e => cases h
  | ok evHdr =>
    cases h
    exact ⟨rfl,rfl⟩

/-- Neither the event's type nor what its handle points at changes. -/
theorem update_ok {isRevert : Bool} {r : EvHdl × EvHdr} (h : tr.update v event evHdr isRevert = .ok r) :
    r.2.odpType = evHdr.odpType ∧ r.1.evptr = event.evptr := by
  have husr2em {cnt : EvstateCnt} {hdr : EvHdr} (h : esvUsr2em v event evHdr cnt isRevert = .ok hdr) :
      hdr.odpType = evHdr.odpType := by
    unfold esvUsr2em at h
    rcases ite_eq_iff.1 h with ⟨-,h⟩ | ⟨-,h⟩
    · cases h
    · rw [← Except.ok.inj h]
  cases tr with
  | usr2em =>
    obtain ⟨hcall,hevent⟩ := map_pair h
    exact ⟨husr2em hcall,by rw [hevent]⟩
  | free =>
    obtain ⟨hcall,hevent⟩ := map_pair h
    exact ⟨husr2em hcall,by rw [hevent]⟩
  | em2usr =>
    unfold update esvEm2usr at h
    rcases ite_eq_iff.1 h with ⟨-,h⟩ | ⟨-,h⟩
    · cases h
    · rw [← Except.ok.inj h]
      refine ⟨rfl,?_⟩
      dsimp only
      split <;> rfl

/-- The revert is not reported, the counters are the ones before, and the owner from before can use
the event just as it did. -/
def Restored (tr : Transition) (v : Variant) (evHdr : EvHdr) (r : EvHdl × EvHdr) : Prop :=
  ∃ back, tr.revert v r.1 r.2 = .ok back ∧ back.2.stateCnt = evHdr.stateCnt ∧
    tr.apply v back.1 back.2 = .ok r

/-- There is a reference besides those that are sent. -/
def Unsent (tr : Transition) (evHdr : EvHdr) : Prop :=
  tr = em2usr → evHdr.odpType = false → evHdr.stateCnt.sends < evHdr.stateCnt.refs

private theorem usr2em_restored {cnt : EvstateCnt} {r : EvHdl × EvHdr}
    (hrestores : ∀ hdr, esvUsr2em v event evHdr cnt false = .ok hdr → esvUsr2em v event hdr cnt true = .ok evHdr)
    (h : (esvUsr2em v event evHdr cnt false).map (fun evHdr => (event,evHdr)) = .ok r) :
    (esvUsr2em v r.1 r.2 cnt true).map (fun evHdr => (r.1,evHdr)) = .ok (event,evHdr) := by
  obtain ⟨hcall,hevent⟩ := map_pair h
  rw [hevent, hrestores _ hcall, Except.map]

/-- The same for the updates alone -/
private theorem update_restored_iff {r : EvHdl × EvHdr} (hv : evHdr.stateCnt.Valid)
    (hodp : tr = em2usr → evHdr.odpType = false) (h : tr.update v event evHdr false = .ok r) :
    (∃ back, tr.update v r.1 r.2 true = .ok back ∧ back.2.stateCnt = evHdr.stateCnt ∧
      tr.update v back.1 back.2 false = .ok r) ↔ tr.Unsent evHdr := by
  cases tr with
  | usr2em => exact ⟨fun _ => nofun,fun _ => ⟨_,usr2em_restored (fun _ => esvUsr2em_restores hv) h,rfl,h⟩⟩
  | free => exact ⟨fun _ => nofun,fun _ => ⟨_,usr2em_restored (fun _ => esvUsr2em_restores hv) h,rfl,h⟩⟩
  | em2usr => exact (esvEm2usr_restores hv h).trans ⟨fun hlt _ _ => hlt,fun hlt => hlt rfl (hodp rfl)⟩

theorem restored_iff {r : EvHdl × EvHdr} (hv : tr.Counts v evHdr → evHdr.stateCnt.Valid)
    (h : tr.apply v event evHdr = .ok r) : tr.Restored v evHdr r ↔ tr.Unsent evHdr := by
  rw [apply_eq] at h
  split at h
  · rename_i hcounts
    have hkeeps {hdr hdr' : EvHdr} (hodp : hdr'.odpType = hdr.odpType) (h : tr.Counts v hdr) :
        tr.Counts v hdr' := h.imp_left (hodp.trans ·)
    have hr := hkeeps (update_ok h).1 hcounts
    rw [← update_restored_iff (hv hcounts) (fun htr => hcounts.resolve_right fun hfree => by
      rw [htr] at hfree
      exact absurd hfree.1 (by decide)) h, Restored]
    refine exists_congr fun back => ?_
    rw [revert_eq, if_pos hr]
    refine and_congr_right fun hback => ?_
    rw [apply_eq, if_pos (hkeeps (update_ok hback).1 hr)]
  · rename_i hcounts
    cases h
    refine iff_of_true ⟨_,by rw [revert_eq, if_neg hcounts],rfl,by rw [apply_eq, if_neg hcounts]⟩ ?_
    exact fun _ hodp => absurd (.inl hodp) hcounts

/-- The reverts of a batch are not reported, all counters are as before, and the owners from before
can use the events just as they did. -/
def Restores (tr : Transition) (v : Variant) (hdrs : BitVec 48 → EvHdr)
    (r : List EvHdl × (BitVec 48 → EvHdr)) : Prop :=
  ∃ back, tr.revertEach v r.1 r.2 = .ok back ∧ (∀ p, (back.2 p).stateCnt = (hdrs p).stateCnt) ∧
    tr.applyEach v back.1 back.2 = .ok r

private theorem apply_evptr {r : EvHdl × EvHdr} (h : tr.apply v event evHdr = .ok r) :
    r.1.evptr = event.evptr := by
  rw [apply_eq] at h
  split at h
  · exact (update_ok h).2
  · cases h
    rfl

private theorem revert_evptr {r : EvHdl × EvHdr} (h : tr.revert v event evHdr = .ok r) :
    r.1.evptr = event.evptr := by
  rw [revert_eq] at h
  split at h
  · exact (update_ok h).2
  · cases h
    rfl

/-- Batches of distinct events in valid states are restored unless an event without a reference
to spare was taken from EM. -/
theorem reverts_restore_iff (tr : Transition) (v : Variant) (events : List EvHdl) (hdrs : BitVec 48 → EvHdr)
    (r : List EvHdl × (BitVec 48 → EvHdr)) (hnodup : (events.map EvHdl.evptr).Nodup)
    (hvalid : ∀ event ∈ events, tr.Counts v (hdrs event.evptr) → (hdrs event.evptr).stateCnt.Valid)
    (h : tr.applyEach v events hdrs = .ok r) :
    tr.Restores v hdrs r ↔ ∀ event ∈ events, tr.Unsent (hdrs event.evptr) := by
  obtain ⟨events',hdrs'⟩ := r
  exact @eachCell_back_iff _ _ _ _ _ _ (tr.apply v) _ _ _ _ (tr.revert v) (fun x y => y.stateCnt = x.stateCnt)
    (fun event => tr.Unsent (hdrs event.evptr)) (fun _ => rfl) (fun _ _ _ => apply_evptr)
    (fun _ _ _ => revert_evptr) hnodup (fun event hevent _ hr => restored_iff (hvalid event hevent) hr) h

/-- The header of a user's event in the last generation -/
private def lastGen : EvHdr := ⟨⟨7,0xEFFE⟩,ofParts 0xEFFE 0 0x7FFF 0x8000,false,false⟩

/-- A send in the last generation is taken back, the restart of the generations too. -/
theorem reverts_restore_lastGen : ∃ r, usr2em.applyEach .multi [⟨7,0xEFFE⟩] (fun _ => lastGen) = .ok r ∧
    usr2em.Restores .multi (fun _ => lastGen) r := by
  have hvalid : lastGen.stateCnt.Valid :=
    ⟨by decide,by decide,by decide,by decide,by decide⟩
  have happly : ∃ r, usr2em.apply .multi ⟨7,0xEFFE⟩ lastGen = .ok r := ⟨_,rfl⟩
  obtain ⟨r,hr⟩ := @eachCell_complete _ _ _ _ _ EvHdl.evptr (usr2em.apply .multi) [⟨7,0xEFFE⟩] (fun _ => lastGen)
    (List.nodup_singleton _) fun event hevent => by
      rw [List.mem_singleton.1 hevent]
      exact happly
  exact ⟨r,hr,(reverts_restore_iff usr2em .multi [⟨7,0xEFFE⟩] (fun _ => lastGen) r (List.nodup_singleton _)
    (fun _ _ _ => hvalid) hr).2 fun _ _ => nofun⟩

/-- The header of an event without references that EM has, when it is dispatched -/
private def dispatched : EvHdr := ⟨⟨7,0x2000⟩,ofParts 0x2000 0 0x7FFF 0x8001,false,false⟩

/-- The event as the user has it -/
private def received : EvHdl × EvHdr := (⟨7,0x2000⟩,⟨⟨7,0x2000⟩,ofParts 0x2000 0 0x7FFF 0x8000,false,false⟩)

/-- Its only reference is the one that was sent. -/
theorem dispatch_revert_reported : ¬∀ (tr : Transition) (v : Variant) (events : List EvHdl)
    (hdrs : BitVec 48 → EvHdr) (r : List EvHdl × (BitVec 48 → EvHdr)), (events.map EvHdl.evptr).Nodup →
    (∀ event ∈ events, tr.Counts v (hdrs event.evptr) → (hdrs event.evptr).stateCnt.Valid) →
    tr.applyEach v events hdrs = .ok r → tr.Restores v hdrs r := by
  intro h
  have hvalid : dispatched.stateCnt.Valid :=
    ⟨by decide,by decide,by decide,by decide,by decide⟩
  have happly : em2usr.apply .single ⟨7,0x1FFF⟩ dispatched = .ok received := by decide
  have hrevert : em2usr.revert .single received.1 received.2 =
      .error ⟨dispatched.stateCnt,⟨7,0x2000⟩,.em2usr⟩ := by decide
  obtain ⟨⟨events,hdrs⟩,hback,-⟩ := h em2usr .single [⟨7,0x1FFF⟩] (fun _ => dispatched)
    ([received.1],Function.update (fun _ => dispatched) 7 received.2) (List.nodup_singleton _)
    (fun _ _ _ => hvalid) (eachCell_cons_iff.2 ⟨received,[],happly,rfl,rfl⟩)
  obtain ⟨r,-,hr,-⟩ := eachCell_cons_iff.1 hback
  have hself : Function.update (fun _ => dispatched) (7 : BitVec 48) received.2 received.1.evptr = received.2 :=
    Function.update_self ..
  dsimp only at hr
  rw [hself, hrevert] at hr
  cases hr

end Transition
end EmOdp.EventState
