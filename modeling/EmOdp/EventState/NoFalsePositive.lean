import EmOdp.EventState.Ownership
import EmOdp.EventState.Generation

/-! Legal use of an event without references is never reported. -/
namespace EmOdp.EventState
open Lib EvstateCnt
variable {preallocPools : Bool} {s t : State}

/-- The counters show the owner and the transitions made, the user's handle is current. -/
structure Inv (s : State) : Prop where
  refsUsed : s.hdr.refsUsed = false
  odpType : s.hdr.odpType = false
  stateCnt : s.hdr.stateCnt = encode (gen s.transitions) s.owner.sends s.owner.refs
  handle : s.owner = .user → s.handle.evgen = BitVec.ofInt 16 (gen s.transitions)
  undo : s.undo = true → ∃ t, s.transitions = t+1 ∧ s.handle.evgen = BitVec.ofInt 16 (gen t)
  returned : ∀ r ∈ s.returned, r.1.evgen = BitVec.ofInt 16 (gen r.2)

theorem Owner.inRange (owner : Owner) : InRange owner.sends owner.refs := by
  cases owner <;> exact ⟨by decide,by decide,by decide,by decide⟩

private theorem initCntAlloc_eq : initCntAlloc = encode (gen 0) 0 1 := by decide
private theorem initCntExtev_eq : initCntExtev = encode (gen 0) 1 1 := by decide

private theorem inv_new {owner : Owner} {event : EvHdl} {hdr : EvHdr} {initCnt : EvstateCnt}
    (hrefs : hdr.refsUsed = false) (hodp : hdr.odpType = false)
    (hcnt : initCnt = encode (gen 0) owner.sends owner.refs) :
    Inv (.new owner (esvEvinit event hdr initCnt)) :=
  ⟨hrefs,hodp,hcnt,fun _ => rfl,nofun,fun r hr => by
    rw [List.mem_singleton.1 hr]; rfl⟩

theorem evinitExt_eq (event : EvHdl) (hdr : EvHdr) :
    esvEvinitExt event hdr = esvEvinit event hdr initCntAlloc := by
  have hcnt : initCntExtev.subFetch cntDispatch = initCntAlloc := by decide
  have hgen : initCntAlloc.evgen = evgenInit := by decide
  simp only [esvEvinitExt, esvEvinit, hcnt, hgen]

theorem inv_start (h : Start preallocPools s) : Inv s := by
  cases h with
  | prealloc event hdr hrefs hodp => exact inv_new hrefs hodp initCntAlloc_eq
  | alloc event hdr r hrefs hodp hp hr =>
    simp only [evstateAlloc, hp, Bool.not_false, Bool.true_or, if_true] at hr
    cases hr
    exact inv_new hrefs hodp initCntAlloc_eq
  | init event hdr v isExtev hrefs hodp =>
    cases v <;> cases isExtev
    · exact inv_new hrefs hodp initCntAlloc_eq
    · simp only [evstateInit, if_true, evinitExt_eq]
      exact inv_new hrefs hodp initCntAlloc_eq
    · exact inv_new hrefs hodp initCntAlloc_eq
    · exact inv_new hrefs hodp initCntExtev_eq

section Calls
variable {v : Variant} {evgen : BitVec 16}

/-- The user gives its event to EM or frees it, with its current handle. -/
private theorem toEm_ok {owner : Owner} {b c : BitVec 16} (v : Variant) (h : Inv s)
    (ho : s.owner = .user) (hne : owner ≠ .user) (hs : owner.sends = c.toNat)
    (hr : owner.refs = 1-b.toNat) :
    ∃ t, (esvUsr2em v s.handle s.hdr (ofParts 1 0 b c) false).map (s.toEm owner) = .ok t ∧
      Inv t := by
  have hs' : s.owner.sends + c.toNat = owner.sends := by rw [ho, hs]; simp [Owner.sends]
  have hr' : s.owner.refs - b.toNat = owner.refs := by rw [ho, hr]; simp [Owner.refs]
  have hno : ¬(encode (gen s.transitions) owner.sends owner.refs).usr2emError false s.handle := by
    rw [usr2emError_encode owner.inRange, h.handle ho]
    cases owner <;> simp [Owner.sends, Owner.refs]
  have hcall := @esvUsr2em_eq v s.handle _ _ _ _ b c h.stateCnt h.refsUsed
  rw [hs', hr', if_neg hno] at hcall
  rw [hcall]
  exact ⟨_,rfl,h.refsUsed,h.odpType,rfl,fun hu => absurd hu hne,
    fun _ => ⟨s.transitions,rfl,h.handle ho⟩,h.returned⟩

/-- The transition that is reverted was the last step. -/
private theorem revert_ok {b c : BitVec 16} (v : Variant) (h : Inv s) (hu : s.undo = true)
    (hs : s.owner.sends = c.toNat) (hr : s.owner.refs = 1-b.toNat) :
    ∃ t, (esvUsr2em v s.handle s.hdr (ofParts 1 0 b c) true).map s.revert = .ok t ∧ Inv t := by
  obtain ⟨n,hn,hev⟩ := h.undo hu
  have hs' : s.owner.sends - c.toNat = Owner.user.sends := by rw [hs]; simp [Owner.sends]
  have hr' : s.owner.refs + b.toNat = Owner.user.refs := by rw [hr]; simp [Owner.refs]
  have hno : ¬(encode (gen n) Owner.user.sends Owner.user.refs).usr2emError false s.handle := by
    rw [usr2emError_encode (Owner.inRange _), hev]
    simp [Owner.sends, Owner.refs]
  have hcnt := h.stateCnt
  rw [hn] at hcnt
  have hcall := @esvUsr2em_revert_eq v s.handle _ _ _ _ b c hcnt h.refsUsed
  rw [hs', hr', if_neg hno] at hcall
  rw [hcall]
  have hpred : (s.transitions - 1) = n := by omega
  refine ⟨_,rfl,h.refsUsed,h.odpType,?_,fun _ => ?_,nofun,h.returned⟩
  · simp only [State.revert, hpred]
  · simp only [State.revert, hpred, hev]

/-- EM gives the event to the user, with a handle of the current generation. -/
private theorem toUser_ok {b c : BitVec 16} (event : EvHdl) (h : Inv s)
    (hs : s.owner.sends = c.toNat) (hr : s.owner.refs = 1-b.toNat) :
    ∃ t, (esvEm2usr event s.hdr (ofParts 0 0 b c) false).map s.toUser = .ok t ∧ Inv t := by
  have hg := gen_bounds s.transitions
  have hs' : s.owner.sends - c.toNat = Owner.user.sends := by rw [hs]; simp [Owner.sends]
  have hr' : s.owner.refs + b.toNat = Owner.user.refs := by rw [hr]; simp [Owner.refs]
  have hno : ¬(encode (gen s.transitions) Owner.user.sends Owner.user.refs).em2usrError := by
    rw [em2usrError_encode (Owner.inRange _) (by omega) (by omega)]
    decide
  have hcall := @esvEm2usr_eq event _ _ _ _ b c h.stateCnt h.refsUsed
  rw [hs', hr', if_neg hno] at hcall
  rw [hcall]
  refine ⟨_,rfl,h.refsUsed,h.odpType,rfl,fun _ => rfl,nofun,fun r hr => ?_⟩
  rcases List.mem_cons.1 hr with rfl | hr
  · rfl
  · exact h.returned r hr

/-- A legal step is not reported. -/
theorem call_ok {l : Label} (h : Inv s) (hl : s.Legal preallocPools l) :
    ∃ t, s.call preallocPools l = .ok t ∧ Inv t := by
  have hodp := h.odpType
  cases l with
  | usr2em v =>
    simp only [State.call, evstateUsr2em, hodp, Bool.false_eq_true, if_false]
    exact toEm_ok v h hl (by decide) rfl rfl
  | free v =>
    simp only [State.call, evstateFree, hodp, Bool.false_eq_true, and_false, if_false]
    exact toEm_ok v h hl (by decide) rfl rfl
  | em2usr evgen =>
    have hs : s.owner = .em := hl
    simp only [State.call, evstateEm2usr, hodp, Bool.false_eq_true, if_false]
    exact toUser_ok _ h (by rw [hs]; rfl) (by rw [hs]; rfl)
  | alloc evgen =>
    obtain ⟨hs,hp⟩ := hl
    simp only [State.call, evstateAlloc, hp, h.refsUsed, Bool.not_true, Bool.or_false,
      Bool.false_eq_true, if_false]
    exact toUser_ok _ h (by rw [hs]; rfl) (by rw [hs]; rfl)
  | usr2emRevert v =>
    obtain ⟨hs,hu⟩ := hl
    simp only [State.call, evstateUsr2emRevert, hodp, Bool.false_eq_true, if_false]
    exact revert_ok v h hu (by rw [hs]; rfl) (by rw [hs]; rfl)
  | freeRevert v =>
    obtain ⟨hs,hu⟩ := hl
    simp only [State.call, evstateFreeRevert, hodp, Bool.false_eq_true, and_false, if_false]
    exact revert_ok v h hu (by rw [hs]; rfl) (by rw [hs]; rfl)

end Calls

theorem reachable_inv (h : (machine preallocPools).Reachable s) : Inv s :=
  h.invariant (I := Inv) (fun _ => inv_start) fun s l t hi hs _ => by
    obtain ⟨t',ht,hi'⟩ := call_ok hi hs.1
    rw [hs.2] at ht
    cases ht
    exact hi'

/-- No legal step is reported, and the counters decode to the owner's at every time. -/
theorem no_false_positive (h : (machine preallocPools).Reachable s) :
    (∀ l, s.Legal preallocPools l → ∃ t, s.call preallocPools l = .ok t) ∧
    s.hdr.stateCnt.sends = s.owner.sends ∧ s.hdr.stateCnt.refs = s.owner.refs ∧
    s.hdr.stateCnt.rsvd = 0 ∧
    evgenInit ≤ s.hdr.stateCnt.evgen ∧ s.hdr.stateCnt.evgen < evgenMax ∧
    (s.owner = .user → s.handle.evgen = s.hdr.stateCnt.evgen) := by
  have hi := reachable_inv h
  have hg := gen_bounds s.transitions
  have hsr := s.owner.inRange.sends_refs (g := gen s.transitions) (by omega) (by omega)
  have hev : s.hdr.stateCnt.evgen = BitVec.ofInt 16 (gen s.transitions) := by
    rw [hi.stateCnt, encode_evgen]
  have hnat : (BitVec.ofInt 16 (gen s.transitions)).toNat = (gen s.transitions).toNat := by
    rw [BitVec.toNat_ofInt]; omega
  refine ⟨fun l hl => (call_ok hi hl).imp fun _ ht => ht.1,by rw [hi.stateCnt]; exact hsr.1,
    by rw [hi.stateCnt]; exact hsr.2,by rw [hi.stateCnt]; exact encode_rsvd (by omega) (by omega),
    ?_,?_,fun hu => by rw [hi.handle hu, hev]⟩
  · rw [hev, BitVec.le_def, hnat, show evgenInit.toNat = 0x1000 from rfl]; omega
  · rw [hev, BitVec.lt_def, hnat, show evgenMax.toNat = 0xEFFF from rfl]; omega

private theorem map_ok {α β ε : Type} {x : Except ε α} {f : α → β} {b : β} (h : x.map f = .ok b) :
    ∃ a, x = .ok a ∧ b = f a := by
  cases x with
  | error => cases h
  | ok a => exact ⟨a,rfl,(Except.ok.inj h).symm⟩

private theorem em2usr_evptr {event : EvHdl} {evHdr : EvHdr} {r : EvHdl × EvHdr}
    (h : evstateEm2usr event evHdr = .ok r) : r.1.evptr = event.evptr := by
  simp only [evstateEm2usr, esvEm2usr, Bool.false_eq_true, if_false] at h
  split at h
  · rw [← Except.ok.inj h]
  · split at h
    · cases h
    · rw [← Except.ok.inj h]
      dsimp only
      split <;> rfl

/-- Any number of sends and dispatches can be made. -/
theorem exists_user_run (n : Nat) : ∃ s, (machine true).Reachable s ∧ s.owner = .user ∧
    s.transitions = n ∧ s.handle.evptr = 7 := by
  induction n with
  | zero =>
    exact ⟨_,.start (.prealloc ⟨7,0⟩ ⟨⟨0,0⟩,⟨0⟩,false,false⟩ rfl rfl),rfl,rfl,rfl⟩
  | succ n ih =>
    obtain ⟨s,hs,ho,hn,hp⟩ := ih
    obtain ⟨t,ht,-⟩ := @call_ok true s (.usr2em .single) (reachable_inv hs) ho
    have hreach : (machine true).Reachable t := .step hs (l := .usr2em .single) ⟨ho,ht⟩ trivial
    obtain ⟨hdr,-,rfl⟩ := map_ok ht
    obtain ⟨u,hu,-⟩ := @call_ok true _ (.em2usr 0) (reachable_inv hreach) rfl
    have hreach' : (machine true).Reachable u := .step hreach (l := .em2usr 0) ⟨rfl,hu⟩ trivial
    obtain ⟨r,hr,rfl⟩ := map_ok hu
    exact ⟨_,hreach',rfl,by simp [State.toUser, State.toEm, hn],(em2usr_evptr hr).trans hp⟩

/-- A preallocated event is freed. -/
def freed : State :=
  ⟨⟨⟨7,evgenInit⟩,encode (gen 1) 0 0,false,false⟩,.free,⟨7,evgenInit⟩,true,1,[(⟨7,evgenInit⟩,0)]⟩

theorem freed_reachable : (machine true).Reachable freed :=
  .step (.start (.prealloc ⟨7,0⟩ ⟨⟨0,0⟩,⟨0⟩,false,false⟩ rfl rfl)) (l := .free .multi)
    ⟨rfl,by decide⟩ trivial

theorem no_false_positive_freed :
    (∃ t, freed.call true (.alloc 0) = .ok t) ∧ freed.hdr.stateCnt.refs = 0 :=
  ⟨(no_false_positive freed_reachable).1 _ ⟨rfl,rfl⟩,(no_false_positive freed_reachable).2.2.1⟩

end EmOdp.EventState
