import EmOdp.EventState.NoFalsePositive

/-! A handle that the user no longer owns is always reported. -/
namespace EmOdp.EventState
open Lib EvstateCnt
variable {preallocPools : Bool} {s : State}

/-- A transition by a handle of an earlier generation, in whatever state the event is: the
counts are wrong unless the user owns the event, and then the generation is. -/
private theorem stale_error {hdl : EvHdl} {k : Nat} {b c : BitVec 16} (v : Variant) (h : Inv s)
    (hm : (hdl,k) ∈ s.returned) (hk : k < s.transitions) (hlt : s.transitions < k + evgenCycle)
    (hbc : b.toNat + c.toNat = 1) :
    ∃ e, esvUsr2em v hdl s.hdr (ofParts 1 0 b c) false = .error e := by
  have hrange : InRange (s.owner.sends + c.toNat) (s.owner.refs - b.toNat) := by
    cases s.owner <;> constructor <;> simp only [Owner.sends, Owner.refs] <;> omega
  have hbad : (encode (gen s.transitions) (s.owner.sends + c.toNat)
      (s.owner.refs - b.toNat)).usr2emError false hdl := by
    rw [usr2emError_encode hrange]
    cases s.owner with
    | free => left; left; simp only [Owner.sends, Owner.refs]; omega
    | em => left; left; simp only [Owner.sends, Owner.refs]; omega
    | user =>
      right
      rw [h.returned _ hm]
      exact ofInt_gen_ne hk hlt
  rw [esvUsr2em_eq h.stateCnt h.refsUsed, if_pos hbad]
  exact ⟨_,rfl⟩

/-- A send or a free with a handle that fewer than `EVGEN_MAX - EVGEN_INIT` transitions
have superseded is reported in every state of a legal run. -/
theorem stale_use_reported (h : (machine preallocPools).Reachable s) {hdl : EvHdl} {k : Nat}
    (hm : (hdl,k) ∈ s.returned) (hk : k < s.transitions) (hlt : s.transitions < k + evgenCycle)
    (v : Variant) :
    (∃ e, evstateUsr2em v hdl s.hdr = .error e) ∧ ∃ e, evstateFree v hdl s.hdr = .error e := by
  have hi := reachable_inv h
  constructor
  · simp only [evstateUsr2em, hi.odpType, Bool.false_eq_true, if_false]
    exact stale_error v hi hm hk hlt rfl
  · simp only [evstateFree, hi.odpType, Bool.false_eq_true, and_false, if_false]
    exact stale_error v hi hm hk hlt rfl

/-- A double free. -/
theorem stale_use_reported_freed : ∃ e, evstateFree .single ⟨7,evgenInit⟩ freed.hdr = .error e :=
  (stale_use_reported freed_reachable (k := 0) (List.mem_singleton.2 rfl) (by decide)
    (by decide) .single).2

end EmOdp.EventState
