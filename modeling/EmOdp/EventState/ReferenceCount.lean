import EmOdp.Lib.CoreSum
import EmOdp.EventState.References
import EmOdp.EventState.NoFalsePositive

/-! The counters of an event with references are exact while no access carries or borrows
from the generation into the reference count. -/
namespace EmOdp.EventState
open Lib Lib.PackedWord EvstateCnt

/-- The low half of the word, generation and reserved bits, as one number. -/
def EvstateCnt.low (c : EvstateCnt) : Int := c.rsvd.toNat * 2 ^ 16 + c.evgen.toNat

theorem encode_low {g s r : Int} (h0 : 0 ≤ g) (h1 : g < 2 ^ 32) : (encode g s r).low = g := by
  have hfield : (encode g s r).low = (field 0 32 (encode g s r).u64).toNat := by
    rw [← append_field 0 16 16, toNat_append]
    rfl
  have hword : (0x8000+s) * 2 ^ 48 + (0x8000-r) * 2 ^ 32 + g =
      ((0x8000+s) * 2 ^ 16 + (0x8000-r)) * 2 ^ 32 + g := by omega
  rw [hfield, encode, field_ofInt 0 32 (by decide), Int.pow_zero, Int.ediv_one, hword, ofInt_mul_add,
    BitVec.toNat_ofInt]
  omega

private theorem counts_ofParts (a b c d : BitVec 16) :
    (ofParts a b c d).refCnt = c ∧ (ofParts a b c d).sendCnt = d := by
  have hlow := field_append_low (x := d) (y := c ++ (b ++ a)) 32 16 (by decide)
  have hrefs := field_append_high (x := c) (y := b ++ a) 0 16
  have hsends := field_append_high (x := d) (y := c ++ (b ++ a)) 0 16
  rw [field_self] at hrefs hsends
  exact ⟨hlow.trans hrefs,hsends⟩

theorem prevGen_counts (c : EvstateCnt) :
    c.prevGen.refs = c.refs ∧ c.prevGen.sends = c.sends := by
  simp only [refs, sends, prevGen, counts_ofParts, and_self]

namespace Ref
variable {ι : Type} [Fintype ι] [DecidableEq ι] {s t : State ι} {l : Label ι}

/-- References owned by EM. -/
def State.emOwned (s : State ι) : Nat := s.queued + ∑ c, (s.pc c).sending

/-- One for the event, plus the references created, minus the frees. -/
def State.refs (s : State ι) : Int := 1 + s.created - s.frees

omit [Fintype ι] [DecidableEq ι] in
/-- What an access adds to the generation. -/
def State.genDelta (s : State ι) : Label ι → Int
  | .send _ | .free _ => 1
  | .revert _ => -1
  | .fix c =>
    match s.pc c with
    | .sendFix | .freeFix => -0xDFFF
    | .revertFix => 0xDFFF
    | .idle | .sent => 0
  | .ref _ | .enqueue _ | .dispatch _ => 0

def Label.sendDelta : Label ι → Int
  | .send _ => 1
  | .revert _ | .dispatch _ => -1
  | .ref _ | .free _ | .enqueue _ | .fix _ => 0

def Label.refDelta : Label ι → Int
  | .ref _ => 1
  | .free _ => -1
  | .send _ | .enqueue _ | .revert _ | .fix _ | .dispatch _ => 0

section Step
variable {c : ι}

omit [Fintype ι]

theorem step_ref (hs : s.step (.ref c) = some t) : s.error = false ∧ s.pc c = .idle ∧
    ∃ n, n = s.stateCnt.subFetch cntAlloc ∧
      t = { (s.em2usr n).acquire c with created := s.created + 1 } := by
  simp only [State.step] at hs
  split at hs
  · rename_i hg
    exact ⟨hg.1,hg.2,_,rfl,(Option.some.inj hs).symm⟩
  · cases hs

theorem step_dispatch (hs : s.step (.dispatch c) = some t) : s.error = false ∧ 0 < s.queued ∧
    ∃ n, n = s.stateCnt.subFetch cntDispatch ∧
      t = { (s.em2usr n).acquire c with queued := s.queued - 1 } := by
  simp only [State.step] at hs
  split at hs
  · rename_i hg
    exact ⟨hg.1,hg.2.2,_,rfl,(Option.some.inj hs).symm⟩
  · cases hs

theorem step_enqueue (hs : s.step (.enqueue c) = some t) : s.error = false ∧ s.pc c = .sent ∧
    t = { s.setPc c .idle with queued := s.queued + 1 } := by
  simp only [State.step] at hs
  split at hs
  · rename_i hg
    exact ⟨hg.1,hg.2,(Option.some.inj hs).symm⟩
  · cases hs

theorem step_send (hs : s.step (.send c) = some t) : s.error = false ∧ s.pc c = .idle ∧
    ∃ n p, n = s.stateCnt.addFetch cntSend ∧ p.sending = 1 ∧
      t = ((s.usr2em n n.prevGen).give c).setPc c p := by
  simp only [State.step] at hs
  split at hs
  · rename_i hg
    exact ⟨hg.1,hg.2,_,_,rfl,by split <;> rfl,(Option.some.inj hs).symm⟩
  · cases hs

theorem step_free (hs : s.step (.free c) = some t) : s.error = false ∧ s.pc c = .idle ∧
    ∃ n p, n = s.stateCnt.addFetch cntFree ∧ p.sending = 0 ∧
      t = { ((s.usr2em n n.prevGen).give c).setPc c p with frees := s.frees + 1 } := by
  simp only [State.step] at hs
  split at hs
  · rename_i hg
    exact ⟨hg.1,hg.2,_,_,rfl,by split <;> rfl,(Option.some.inj hs).symm⟩
  · cases hs

theorem step_revert (hs : s.step (.revert c) = some t) : s.error = false ∧ s.pc c = .sent ∧
    ∃ n, n = s.stateCnt.subFetch cntSend ∧
      (t = { s.acquire c with stateCnt := n }.setPc c .revertFix ∨
        t = ((s.usr2em n n).acquire c).setPc c .idle) := by
  simp only [State.step] at hs
  split at hs
  · rename_i hg
    refine ⟨hg.1,hg.2,_,rfl,?_⟩
    split at hs
    · exact .inl (Option.some.inj hs).symm
    · exact .inr (Option.some.inj hs).symm
  · cases hs

theorem step_fix (hs : s.step (.fix c) = some t) : s.error = false ∧ ∃ n,
    s.pc c = .sendFix ∧ n = s.stateCnt.subFetch evgenWrap ∧
      t = { s with stateCnt := n }.setPc c .sent ∨
    s.pc c = .freeFix ∧ n = s.stateCnt.subFetch evgenWrap ∧
      t = { s with stateCnt := n }.setPc c .idle ∨
    s.pc c = .revertFix ∧ n = s.stateCnt.addFetch evgenWrap ∧
      t = (s.usr2em n n).setPc c .idle := by
  simp only [State.step] at hs
  split at hs
  · rename_i he
    refine ⟨he,?_⟩
    split at hs
    · rename_i hp
      exact ⟨_,.inl ⟨hp,rfl,(Option.some.inj hs).symm⟩⟩
    · rename_i hp
      exact ⟨_,.inr (.inl ⟨hp,rfl,(Option.some.inj hs).symm⟩)⟩
    · rename_i hp
      exact ⟨_,.inr (.inr ⟨hp,rfl,(Option.some.inj hs).symm⟩)⟩
    · cases hs
    · cases hs
  · cases hs

end Step

theorem emOwned_setPc (s : State ι) (c : ι) (p : Pc) :
    (s.setPc c p).emOwned + (s.pc c).sending = s.emOwned + p.sending := by
  have h := sum_update (fun i => (s.pc i).sending) c p.sending
  have hf : (fun i => (Function.update s.pc c p i).sending) =
      Function.update (fun i => (s.pc i).sending) c p.sending := by
    funext i
    by_cases hi : i = c
    · subst hi; simp
    · simp [hi]
  rw [← hf] at h
  have h' : ∑ i, (Function.update s.pc c p i).sending + (s.pc c).sending =
    ∑ i, (s.pc i).sending + p.sending := h
  simp only [State.emOwned, State.setPc]
  omega

theorem step_emOwned (hs : s.step l = some t) : (t.emOwned : Int) = s.emOwned + l.sendDelta := by
  cases l with
  | ref c =>
    obtain ⟨-,-,n,-,rfl⟩ := step_ref hs
    simp only [State.emOwned, State.acquire, State.em2usr, Label.sendDelta, add_zero]
  | dispatch c =>
    obtain ⟨-,hq,n,-,rfl⟩ := step_dispatch hs
    simp only [State.emOwned, State.acquire, State.em2usr, Label.sendDelta]
    omega
  | enqueue c =>
    obtain ⟨-,hp,rfl⟩ := step_enqueue hs
    have h := emOwned_setPc s c .idle
    rw [hp] at h
    simp only [State.emOwned, State.setPc, Pc.sending, Label.sendDelta] at h ⊢
    omega
  | send c =>
    obtain ⟨-,hp,n,p,-,hp1,rfl⟩ := step_send hs
    have h := emOwned_setPc s c p
    rw [hp, hp1] at h
    simp only [State.emOwned, State.setPc, State.give, State.usr2em, Pc.sending,
      Label.sendDelta] at h ⊢
    omega
  | free c =>
    obtain ⟨-,hp,n,p,-,hp0,rfl⟩ := step_free hs
    have h := emOwned_setPc s c p
    rw [hp, hp0] at h
    simp only [State.emOwned, State.setPc, State.give, State.usr2em, Pc.sending,
      Label.sendDelta] at h ⊢
    omega
  | revert c =>
    obtain ⟨-,hp,n,-,rfl | rfl⟩ := step_revert hs
    · have h := emOwned_setPc s c .revertFix
      rw [hp] at h
      simp only [State.emOwned, State.setPc, State.acquire, Pc.sending, Label.sendDelta] at h ⊢
      omega
    · have h := emOwned_setPc s c .idle
      rw [hp] at h
      simp only [State.emOwned, State.setPc, State.acquire, State.usr2em, Pc.sending,
        Label.sendDelta] at h ⊢
      omega
  | fix c =>
    obtain ⟨-,n,⟨hp,-,rfl⟩ | ⟨hp,-,rfl⟩ | ⟨hp,-,rfl⟩⟩ := step_fix hs
    · have h := emOwned_setPc s c .sent
      rw [hp] at h
      simp only [State.emOwned, State.setPc, Pc.sending, Label.sendDelta] at h ⊢
      omega
    · have h := emOwned_setPc s c .idle
      rw [hp] at h
      simp only [State.emOwned, State.setPc, Pc.sending, Label.sendDelta] at h ⊢
      omega
    · have h := emOwned_setPc s c .idle
      rw [hp] at h
      simp only [State.emOwned, State.setPc, State.usr2em, Pc.sending, Label.sendDelta] at h ⊢
      omega

omit [Fintype ι] in
theorem step_refs (hs : s.step l = some t) : t.refs = s.refs + l.refDelta := by
  cases l with
  | ref c =>
    obtain ⟨-,-,n,-,rfl⟩ := step_ref hs
    simp only [State.refs, State.acquire, State.em2usr, Label.refDelta]
    omega
  | dispatch c =>
    obtain ⟨-,-,n,-,rfl⟩ := step_dispatch hs
    simp only [State.refs, State.acquire, State.em2usr, Label.refDelta]
    omega
  | enqueue c =>
    obtain ⟨-,-,rfl⟩ := step_enqueue hs
    simp only [State.refs, State.setPc, Label.refDelta]
    omega
  | send c =>
    obtain ⟨-,-,n,p,-,-,rfl⟩ := step_send hs
    simp only [State.refs, State.setPc, State.give, State.usr2em, Label.refDelta]
    omega
  | free c =>
    obtain ⟨-,-,n,p,-,-,rfl⟩ := step_free hs
    simp only [State.refs, State.setPc, State.give, State.usr2em, Label.refDelta]
    omega
  | revert c =>
    obtain ⟨-,-,n,-,rfl | rfl⟩ := step_revert hs
    · simp only [State.refs, State.setPc, State.acquire, Label.refDelta]
      omega
    · simp only [State.refs, State.setPc, State.acquire, State.usr2em, Label.refDelta]
      omega
  | fix c =>
    obtain ⟨-,n,⟨-,-,rfl⟩ | ⟨-,-,rfl⟩ | ⟨-,-,rfl⟩⟩ := step_fix hs
    · simp only [State.refs, State.setPc, Label.refDelta]
      omega
    · simp only [State.refs, State.setPc, Label.refDelta]
      omega
    · simp only [State.refs, State.setPc, State.usr2em, Label.refDelta]
      omega

private theorem addFetch_eq {c n : EvstateCnt} {g a b : Int} {d e f : BitVec 16}
    (hc : c = encode g a b) (hn : n = c.addFetch (ofParts d 0 e f)) :
    n = encode (g+d.toNat) (a+f.toNat) (b-e.toNat) := by
  rw [hn, hc, encode_addFetch]

private theorem subFetch_eq {c n : EvstateCnt} {g a b : Int} {d e f : BitVec 16}
    (hc : c = encode g a b) (hn : n = c.subFetch (ofParts d 0 e f)) :
    n = encode (g-d.toNat) (a-f.toNat) (b+e.toNat) := by
  rw [hn, hc, encode_subFetch]

private theorem encode_congr {g g' a a' b b' : Int} (hg : g = g') (ha : a = a') (hb : b = b') :
    encode g a b = encode g' a' b' := by
  rw [hg, ha, hb]

omit [Fintype ι] in
/-- In every run the word is the sum of the exact counts. -/
theorem step_stateCnt {g a b : Int} (hs : s.step l = some t) (hc : s.stateCnt = encode g a b) :
    t.stateCnt = encode (g + s.genDelta l) (a + l.sendDelta) (b + l.refDelta) := by
  cases l with
  | ref c =>
    obtain ⟨-,-,n,hn,rfl⟩ := step_ref hs
    refine (subFetch_eq hc hn).trans (encode_congr ?_ ?_ ?_) <;>
      simp [State.genDelta, Label.sendDelta, Label.refDelta]
  | dispatch c =>
    obtain ⟨-,-,n,hn,rfl⟩ := step_dispatch hs
    refine (subFetch_eq hc hn).trans (encode_congr ?_ ?_ ?_) <;>
      simp [State.genDelta, Label.sendDelta, Label.refDelta, sub_eq_add_neg]
  | enqueue c =>
    obtain ⟨-,-,rfl⟩ := step_enqueue hs
    refine hc.trans (encode_congr ?_ ?_ ?_) <;>
      simp [State.genDelta, Label.sendDelta, Label.refDelta]
  | send c =>
    obtain ⟨-,-,n,p,hn,-,rfl⟩ := step_send hs
    refine (addFetch_eq hc hn).trans (encode_congr ?_ ?_ ?_) <;>
      simp [State.genDelta, Label.sendDelta, Label.refDelta]
  | free c =>
    obtain ⟨-,-,n,p,hn,-,rfl⟩ := step_free hs
    refine (addFetch_eq hc hn).trans (encode_congr ?_ ?_ ?_) <;>
      simp [State.genDelta, Label.sendDelta, Label.refDelta, sub_eq_add_neg]
  | revert c =>
    obtain ⟨-,-,n,hn,rfl | rfl⟩ := step_revert hs
    all_goals
      refine (subFetch_eq hc hn).trans (encode_congr ?_ ?_ ?_) <;>
        simp [State.genDelta, Label.sendDelta, Label.refDelta, sub_eq_add_neg]
  | fix c =>
    obtain ⟨-,n,⟨hp,hn,rfl⟩ | ⟨hp,hn,rfl⟩ | ⟨hp,hn,rfl⟩⟩ := step_fix hs
    · rw [hc, subFetch_evgenWrap] at hn
      refine hn.trans (encode_congr ?_ ?_ ?_) <;>
        simp [State.genDelta, Label.sendDelta, Label.refDelta, hp, sub_eq_add_neg]
    · rw [hc, subFetch_evgenWrap] at hn
      refine hn.trans (encode_congr ?_ ?_ ?_) <;>
        simp [State.genDelta, Label.sendDelta, Label.refDelta, hp, sub_eq_add_neg]
    · rw [hc, addFetch_evgenWrap] at hn
      refine hn.trans (encode_congr ?_ ?_ ?_) <;>
        simp [State.genDelta, Label.sendDelta, Label.refDelta, hp]

end Ref
end EmOdp.EventState
