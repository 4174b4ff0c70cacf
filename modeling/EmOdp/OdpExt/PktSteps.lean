import EmOdp.OdpExt.PktEnqueue

/-! What each call makes of the header of a packet, and `em_odp_pkt_enqueue` of those of its packets. -/
namespace EmOdp.OdpExt
open Lib EventState EventFree EvstateCnt Pointwise
open Send (QueueElem QueueType)

section Header
variable {cfg : Config} {p : OdpEvt} {event : EvHdl} {e e' : OdpEvent}

/-- A packet that EM does not have: EM left it freed if it comes from one of its pools. -/
structure Raw (cfg : Config) (e : OdpEvent) : Prop where
  userFlag : e.userFlag = false
  refsUsed : e.hdr.refsUsed = false
  freed : cfg.preallocPools = true → e.emPool = true → ∃ t, e.hdr.stateCnt = encode (gen t) 0 0

/-- A packet that EM has initialized -/
structure Inited (p : OdpEvt) (e : OdpEvent) : Prop where
  userFlag : e.userFlag = true
  refsUsed : e.hdr.refsUsed = false
  odpType : e.hdr.odpType = false
  evptr : e.hdr.event.evptr = p

/-- The user has it with the handle in its header. -/
structure Owned (p : OdpEvt) (e : OdpEvent) : Prop extends Inited p e where
  counts : ∃ t, e.hdr.stateCnt = encode (gen t) 0 1 ∧ e.hdr.event.evgen = BitVec.ofInt 16 (gen t)

/-- The user has sent it. -/
structure Sent (p : OdpEvt) (e : OdpEvent) : Prop extends Inited p e where
  counts : ∃ t, e.hdr.stateCnt = encode (gen t) 1 1

theorem inRange_owned : InRange 0 1 := ⟨by decide,by decide,by decide,by decide⟩
theorem inRange_unsent : InRange (-1) 1 := ⟨by decide,by decide,by decide,by decide⟩

/-- An event that has been sent is given to the user. -/
theorem Sent.evstateEm2usr (cfg : Config) (event : EvHdl) (h : Sent p e) (hp : event.evptr = p) :
    ∃ e', evstateEm2usr cfg event e = some (e'.hdr.event,e') ∧ Owned p e' ∧ e'.type = e.type := by
  obtain ⟨t,hcnt⟩ := h.counts
  have hg := gen_bounds t
  have hno : ¬(encode (gen t) 0 1).em2usrError := by
    rw [em2usrError_encode inRange_owned (by omega) (by omega)]
    decide
  have hcall := @esvEm2usr_eq event _ _ _ _ 0 1 hcnt h.refsUsed
  rw [show (1 : Int) - (1 : BitVec 16).toNat = 0 from rfl,
    show (1 : Int) + (0 : BitVec 16).toNat = 1 from rfl, if_neg hno] at hcall
  have heq : EventState.evstateEm2usr event e.hdr = _ := (if_neg (by rw [h.odpType]; decide)).trans hcall
  rw [OdpExt.evstateEm2usr, heq]
  let hdl : EvHdl := { event with evgen := BitVec.ofInt 16 (gen t) }
  exact ⟨{ e with hdr := { e.hdr with event := hdl, stateCnt := encode (gen t) 0 1 }, apiOp := _ },rfl,
    ⟨⟨h.userFlag,h.refsUsed,h.odpType,hp⟩,t,rfl,rfl⟩,rfl⟩

/-- An event that has not been sent is not given to the user again. -/
theorem Owned.evstateEm2usr (h : Owned p e) : evstateEm2usr cfg event e = none := by
  obtain ⟨t,hcnt,-⟩ := h.counts
  have hg := gen_bounds t
  have herr : (encode (gen t) (-1) 1).em2usrError := by
    rw [em2usrError_encode inRange_unsent (by omega) (by omega)]
    decide
  have hcall := @esvEm2usr_eq event _ _ _ _ 0 1 hcnt h.refsUsed
  rw [show (0 : Int) - (1 : BitVec 16).toNat = -1 from rfl,
    show (1 : Int) + (0 : BitVec 16).toNat = 1 from rfl, if_pos herr] at hcall
  have heq : EventState.evstateEm2usr event e.hdr = _ := (if_neg (by rw [h.odpType]; decide)).trans hcall
  rw [OdpExt.evstateEm2usr, heq]
  rfl

theorem Owned.evstateUsr2em (cfg : Config) (h : Owned p e) :
    ∃ e', evstateUsr2em cfg e.hdr.event e = some e' ∧ Sent p e' ∧ e'.type = e.type := by
  obtain ⟨t,hcnt,hgen⟩ := h.counts
  have hno : ¬(encode (gen t) 1 1).usr2emError e.hdr.refsUsed e.hdr.event :=
    not_usr2emError_encode (by decide) (by decide) (by decide) fun _ => hgen
  have hcall := @esvUsr2em_counts .single e.hdr.event _ _ _ _ 0 1 hcnt
  rw [show (0 : Int) + (1 : BitVec 16).toNat = 1 from rfl,
    show (1 : Int) - (0 : BitVec 16).toNat = 1 from rfl, if_neg hno] at hcall
  rw [OdpExt.evstateUsr2em, if_neg (by rw [h.odpType]; decide), OdpEvent.esvUsr2em, cntSend, hcall]
  exact ⟨_,rfl,⟨⟨h.userFlag,h.refsUsed,h.odpType,h.evptr⟩,_,rfl⟩,rfl⟩

/-- What `em_free` and `em_free_multi` leave of a packet -/
theorem Owned.free (cfg : Config) (v : Variant) (h : Owned p e) :
    ∃ e', e.esvUsr2em cfg .other v e.hdr.event cntFree false = some e' ∧ e'.type = e.type ∧
      e'.hdr.refsUsed = false ∧ ∃ t, e'.hdr.stateCnt = encode (gen t) 0 0 := by
  obtain ⟨t,hcnt,hgen⟩ := h.counts
  have hno : ¬(encode (gen t) 0 0).usr2emError e.hdr.refsUsed e.hdr.event :=
    not_usr2emError_encode (by decide) (by decide) (by decide) fun _ => hgen
  have hcall := @esvUsr2em_counts v e.hdr.event _ _ _ _ 1 0 hcnt
  rw [show (0 : Int) + (0 : BitVec 16).toNat = 0 from rfl,
    show (1 : Int) - (1 : BitVec 16).toNat = 0 from rfl, if_neg hno] at hcall
  rw [OdpEvent.esvUsr2em, cntFree, hcall]
  exact ⟨_,rfl,rfl,h.refsUsed,_,rfl⟩

/-- A header that is used anew: the counters start again, or go on from those of a freed packet. -/
private theorem evhdrInitPkt_ok {preallocPools emPool : Bool} {hdr : EvHdr} (hrefs : hdr.refsUsed = false)
    (hfreed : preallocPools = true → emPool = true → ∃ t, hdr.stateCnt = encode (gen t) 0 0) :
    ∃ hdr', EventState.evhdrInitPkt preallocPools event hdr emPool false true = .ok (hdr'.event,hdr') ∧
      hdr'.event.evptr = event.evptr ∧
      ∃ t, hdr'.stateCnt = encode (gen t) 0 1 ∧ hdr'.event.evgen = BitVec.ofInt 16 (gen t) := by
  rw [EventState.evhdrInitPkt, if_neg (by decide)]
  dsimp only
  rw [hrefs, Bool.or_false]
  by_cases hpool : preallocPools = true ∧ emPool = true
  · obtain ⟨t,hcnt⟩ := hfreed hpool.1 hpool.2
    have hg := gen_bounds (t+1)
    have hno : ¬(encode (gen (t+1)) 0 1).em2usrError := by
      rw [em2usrError_encode inRange_owned (by omega) (by omega)]
      decide
    have hcall := (@esvUpdateExt_counts event ⟨hdr.event,hdr.stateCnt,false,false⟩ _ _ _ hcnt).trans (if_neg hno)
    rw [hpool.1, hpool.2, if_neg (by decide), if_neg (by decide), evstateUpdate, if_pos rfl, hcall]
    exact ⟨⟨⟨event.evptr,BitVec.ofInt 16 (gen (t+1))⟩,encode (gen (t+1)) 0 1,false,false⟩,rfl,rfl,t+1,rfl,rfl⟩
  · have hcnt : initCntAlloc = encode (gen 0) 0 1 := by decide
    have hgen : evgenInit = BitVec.ofInt 16 (gen 0) := by decide
    have hinit : evstateInit .single event ⟨hdr.event,hdr.stateCnt,false,false⟩ true =
        esvEvinit event ⟨hdr.event,hdr.stateCnt,false,false⟩ initCntAlloc := evinitExt_eq ..
    have hno : (!preallocPools) = true ∨ (!emPool) = true := by
      rw [Bool.not_eq_true', Bool.not_eq_true', ← Bool.not_eq_true, ← Bool.not_eq_true]
      exact Decidable.not_and_iff_or_not.1 hpool
    rw [hinit]
    refine ⟨⟨⟨event.evptr,evgenInit⟩,initCntAlloc,false,false⟩,?_,rfl,0,hcnt,hgen⟩
    split
    · rfl
    · rename_i hprealloc
      rw [if_pos (hno.resolve_left hprealloc)]
      rfl

/-- A packet from outside of EM is given to the user, as if it had been sent. -/
theorem Raw.evhdrInitPkt (hesv : cfg.esvEnabled = true) (h : Raw cfg e) (hp : event.evptr = p) :
    ∃ e', evhdrInitPkt cfg event e = some (e'.hdr.event,e') ∧ Owned p e' ∧ e'.type = e.type := by
  obtain ⟨hdr,heq,hptr,hcounts⟩ := @evhdrInitPkt_ok event _ _ _ h.refsUsed h.freed
  rw [OdpExt.evhdrInitPkt, if_neg (by rw [h.userFlag]; decide), if_pos hesv, heq]
  exact ⟨firstSeen e hdr _,rfl,⟨⟨rfl,rfl,rfl,hptr.trans hp⟩,hcounts⟩,rfl⟩

theorem Sent.evhdrInitPkt (hesv : cfg.esvEnabled = true) (h : Sent p e) :
    ∃ e', evhdrInitPkt cfg event e = some (e'.hdr.event,e') ∧ Owned p e' ∧ e'.type = e.type := by
  rw [OdpExt.evhdrInitPkt, if_pos h.userFlag, if_pos hesv]
  exact h.evstateEm2usr cfg e.hdr.event h.evptr

/-- What the user gets of a packet: its handle, and with ESV enabled the event itself. -/
structure Given (cfg : Config) (p : OdpEvt) (e : OdpEvent) (r : EvHdl × OdpEvent) : Prop where
  evptr : r.1.evptr = p
  type : r.2.type = e.type
  owned : cfg.esvEnabled = true → Owned p r.2 ∧ r.1 = r.2.hdr.event

theorem evhdrInitPkt_given (p : OdpEvt) (e : OdpEvent) (h : cfg.esvEnabled = true → Raw cfg e ∨ Sent p e) :
    ∃ r, evhdrInitPkt cfg ⟨p,0⟩ e = some r ∧ Given cfg p e r := by
  cases hesv : cfg.esvEnabled with
  | true =>
    have hinit : ∃ e', evhdrInitPkt cfg ⟨p,0⟩ e = some (e'.hdr.event,e') ∧ Owned p e' ∧ e'.type = e.type :=
      (h hesv).elim (fun hraw => hraw.evhdrInitPkt hesv rfl) fun hsent => hsent.evhdrInitPkt hesv
    obtain ⟨e',heq,hown,htype⟩ := hinit
    exact ⟨_,heq,hown.evptr,htype,fun _ => ⟨hown,rfl⟩⟩
  | false =>
    rw [evhdrInitPkt, hesv]
    split
    · exact ⟨_,rfl,rfl,rfl,fun hc => by rw [hesv] at hc; cases hc⟩
    · exact ⟨_,rfl,rfl,rfl,fun hc => by rw [hesv] at hc; cases hc⟩

end Header

section Batch
variable {cfg : Config}

/-- The packets of an array after `event_init_pkt_multi` -/
structure GivenAll (cfg : Config) (ps : List OdpEvt) (m : OdpEvt → OdpEvent)
    (r : List EvHdl × (OdpEvt → OdpEvent)) : Prop where
  evptr : r.1.map EvHdl.evptr = ps
  frame : ∀ p ∉ ps, r.2 p = m p
  given : ∀ event ∈ r.1, Given cfg event.evptr (m event.evptr) (event,r.2 event.evptr)

theorem eventInitPktMulti_given {ps : List OdpEvt} {m : OdpEvt → OdpEvent} (hnodup : ps.Nodup)
    (h : cfg.esvEnabled = true → ∀ p ∈ ps, Raw cfg (m p)) :
    ∃ r, eventInitPktMulti cfg ps m = some r ∧ GivenAll cfg ps m r := by
  induction ps generalizing m with
  | nil => exact ⟨_,rfl,rfl,fun _ _ => rfl,fun _ hmem => absurd hmem List.not_mem_nil⟩
  | cons p ps ih =>
    obtain ⟨hp,hnodup⟩ := List.nodup_cons.1 hnodup
    have hne {q : OdpEvt} (hq : q ∈ ps) : q ≠ p := fun he => hp (he ▸ hq)
    obtain ⟨⟨event,e⟩,hinit,hgiven⟩ := evhdrInitPkt_given p (m p) fun hesv =>
      .inl (h hesv p List.mem_cons_self)
    obtain ⟨⟨events,m'⟩,hrest,hall⟩ := ih (m := Function.update m p e) hnodup fun hesv q hq => by
      rw [Function.update_of_ne (hne hq)]
      exact h hesv q (List.mem_cons_of_mem p hq)
    rw [eventInitPktMulti, hinit, Option.bind_eq_bind, Option.bind_some]
    dsimp only
    rw [hrest]
    refine ⟨_,rfl,?_,?_,?_⟩
    · rw [List.map_cons, hall.evptr, hgiven.evptr]
    · intro q hq
      obtain ⟨hqp,hq⟩ := not_or.1 (mt List.mem_cons.2 hq)
      exact (hall.frame q hq).trans (Function.update_of_ne hqp e m)
    · intro event' hmem
      rcases List.mem_cons.1 hmem with rfl | hmem
      · have hm' : m' p = e := (hall.frame p hp).trans (Function.update_self p e m)
        rw [hgiven.evptr]
        dsimp only
        rw [hm']
        exact hgiven
      · have hmem' : event'.evptr ∈ ps := hall.evptr ▸ List.mem_map_of_mem hmem
        have hgiven' := hall.given event' hmem
        rw [Function.update_of_ne (hne hmem')] at hgiven'
        exact hgiven'

end Batch

section Free
variable {cfg : Config} {m : Memory} {events : List EvHdl}

/-- The memory after the packets have been freed -/
structure FreedAll (cfg : Config) (ps : List OdpEvt) (m m' : Memory) : Prop where
  frame : ∀ p ∉ ps, m'.event p = m.event p
  type : ∀ p, (m'.event p).type = (m.event p).type
  freed : cfg.esvEnabled = true → ∀ p ∈ ps, (m'.event p).hdr.refsUsed = false ∧
    ∃ t, (m'.event p).hdr.stateCnt = encode (gen t) 0 0

/-- Packets with the user -/
structure UserPkts (cfg : Config) (m : Memory) (events : List EvHdl) : Prop where
  nodup : (events.map EvHdl.evptr).Nodup
  packet : ∀ event ∈ events, event.evptr ≠ 0 ∧ (m.event event.evptr).type = .packet
  owned : cfg.esvEnabled = true → ∀ event ∈ events, Owned event.evptr (m.event event.evptr) ∧
    event = (m.event event.evptr).hdr.event

private theorem not_vector {e : OdpEvent} (h : e.type = .packet) : ¬e.isVectorType = true := by
  rw [OdpEvent.isVectorType, h]
  decide

private theorem prepareFreeVectors_pkts {op : ApiOp} (h : ∀ event ∈ events, (m.event event.evptr).type = .packet) :
    prepareFreeVectors cfg op events m = some m := by
  induction events with
  | nil => rfl
  | cons event events ih =>
    rw [prepareFreeVectors, if_neg (not_vector (h event List.mem_cons_self)), Option.bind_eq_bind, Option.bind_some]
    exact ih fun event' hmem => h event' (List.mem_cons_of_mem event hmem)

private theorem kept_pkts (h : ∀ event ∈ events, (m.event event.evptr).type = .packet) :
    kept cfg m events = events := by
  refine List.filter_eq_self.2 fun event hmem => ?_
  rw [activeTmo, h event hmem, decide_eq_false (by decide), Bool.false_and, Bool.and_false]
  rfl

theorem UserPkts.tail {event : EvHdl} (h : UserPkts cfg m (event :: events)) (e : OdpEvent) :
    UserPkts cfg { m with event := Function.update m.event event.evptr e } events := by
  obtain ⟨hevent,hnodup⟩ := List.nodup_cons.1 h.nodup
  have hne {event' : EvHdl} (hmem : event' ∈ events) :
      Function.update m.event event.evptr e event'.evptr = m.event event'.evptr :=
    Function.update_of_ne (fun he => hevent (by rw [← he]; exact List.mem_map_of_mem hmem)) e m.event
  refine ⟨hnodup,fun event' hmem => ?_,fun hesv event' hmem => ?_⟩
  · dsimp only
    rw [hne hmem]
    exact h.packet event' (List.mem_cons_of_mem event hmem)
  · dsimp only
    rw [hne hmem]
    exact h.owned hesv event' (List.mem_cons_of_mem event hmem)

/-- `evstate_free_multi` -/
private theorem UserPkts.evstateFree (h : UserPkts cfg m events) (hesv : cfg.esvEnabled = true) : ∃ ev,
    run (events.map fun event => (event.evptr,fun e : OdpEvent => e.evstateFreeMulti cfg .other event)) m.event =
      some ev ∧ FreedAll cfg (events.map EvHdl.evptr) m { m with event := ev } := by
  induction events generalizing m with
  | nil => exact ⟨_,rfl,fun _ _ => rfl,fun _ => rfl,fun _ _ hmem => absurd hmem List.not_mem_nil⟩
  | cons event events ih =>
    obtain ⟨hown,hevent⟩ := h.owned hesv event List.mem_cons_self
    obtain ⟨e,hfree,htype,hfreed⟩ := hown.free cfg .multi
    obtain ⟨ev,hrun,hall⟩ := ih (h.tail e)
    have hnot := (List.nodup_cons.1 h.nodup).1
    rw [List.map_cons, run_cons, OdpEvent.evstateFreeMulti, if_neg (by rw [hown.odpType]; decide),
      show (m.event event.evptr).esvUsr2em cfg .other .multi event cntFree false = some e by
        rw [← hfree, ← hevent], Option.bind_some]
    refine ⟨ev,hrun,fun q hq => ?_,fun q => ?_,fun _ q hq => ?_⟩
    · obtain ⟨hqp,hq⟩ := not_or.1 (mt List.mem_cons.2 hq)
      exact (hall.frame q hq).trans (Function.update_of_ne hqp e m.event)
    · refine (hall.type q).trans ?_
      by_cases hq : q = event.evptr
      · obtain rfl := hq
        dsimp only
        rw [Function.update_self, htype]
      · exact congrArg OdpEvent.type (Function.update_of_ne hq e m.event)
    · rcases List.mem_cons.1 hq with rfl | hq
      · have hev : ev event.evptr = e := (hall.frame _ hnot).trans (Function.update_self ..)
        dsimp only
        rw [hev]
        exact hfreed
      · exact hall.freed hesv q hq

theorem UserPkts.not_undef (h : UserPkts cfg m events) : emEventUndef ∉ events :=
  fun hmem => (h.packet _ hmem).1 rfl

theorem UserPkts.emFreeMulti (h : UserPkts cfg m events) : ∃ m', emFreeMulti cfg events m =
    some (m',events.map EvHdl.evptr) ∧ FreedAll cfg (events.map EvHdl.evptr) m m' := by
  have hpkt := fun event hmem => (h.packet event hmem).2
  cases hesv : cfg.esvEnabled with
  | false =>
    rw [emFreeMulti_noEsv hesv h.not_undef, kept_pkts hpkt]
    exact ⟨_,rfl,fun _ _ => rfl,fun _ => rfl,fun hc => by rw [hesv] at hc; cases hc⟩
  | true =>
    obtain ⟨ev,hrun,hall⟩ := h.evstateFree hesv
    have hvector : prepareFreeVectors cfg .other events { m with event := ev } = some { m with event := ev } :=
      prepareFreeVectors_pkts fun event hmem => (hall.type event.evptr).trans (hpkt event hmem)
    refine ⟨_,?_,hall⟩
    rw [EventFree.emFreeMulti]
    split
    · rename_i hnil
      obtain rfl := hnil
      cases hrun
      rfl
    rw [if_neg fun hc => h.not_undef hc.2]
    obtain ⟨⟨numFree,t⟩,ht⟩ : ∃ r, freeTbls cfg events m = r := ⟨_,rfl⟩
    obtain ⟨hev,hodp,hhdr⟩ := freeTbls_take ht
    rw [ht]
    dsimp only
    rw [hev, hodp, hhdr, kept_pkts hpkt, evstateFreeMulti, List.zipWith_map_right, List.zipWith_self, hrun,
      Option.bind_eq_bind, Option.bind_some, hvector]
    rfl

theorem emFree_pkt {event : EvHdl} (h : UserPkts cfg m [event]) : ∃ m', emFree cfg event m = some (m',[event.evptr]) ∧
    FreedAll cfg [event.evptr] m m' := by
  obtain ⟨hne,htype⟩ := h.packet event List.mem_cons_self
  have hundef : event ≠ emEventUndef := by
    rintro rfl
    exact hne rfl
  have htmo : ¬(m.event event.evptr).type = .timeout := by
    rw [htype]
    decide
  rw [emFree, if_neg fun hc => hundef hc.2]
  dsimp only
  rw [if_neg fun hc => htmo hc.2]
  cases hesv : cfg.esvEnabled with
  | false => exact ⟨_,rfl,fun _ _ => rfl,fun _ => rfl,fun hc => by rw [hesv] at hc; cases hc⟩
  | true =>
    obtain ⟨hown,hevent⟩ := h.owned hesv event List.mem_cons_self
    obtain ⟨e,hfree,htype',hfreed⟩ := hown.free cfg .single
    rw [← hevent] at hfree
    have haccess : m.access event.evptr (fun e => e.evstateFree cfg .other event) =
        some { m with event := Function.update m.event event.evptr e } := by
      rw [Memory.access, OdpEvent.evstateFree, hfree]
      rfl
    rw [if_pos rfl, if_neg (by rw [hown.odpType]; decide), haccess, Option.bind_eq_bind, Option.bind_some,
      if_neg (not_vector htype)]
    refine ⟨_,rfl,fun q hq => ?_,fun q => ?_,fun _ q hq => ?_⟩
    · exact Function.update_of_ne (fun he => hq (List.mem_singleton.2 he)) e m.event
    · by_cases hq : q = event.evptr
      · obtain rfl := hq
        dsimp only
        rw [Function.update_self, htype']
      · exact congrArg OdpEvent.type (Function.update_of_ne hq e m.event)
    · obtain rfl := List.mem_singleton.1 hq
      dsimp only
      rw [Function.update_self]
      exact hfreed

end Free

section Enqueue
variable {cfg : Config} {m : Memory} {ps : List OdpEvt} {events : List EvHdl} {sent : Int} {r : Enqueued}

/-- The packets handed over come first, the others are freed. What is handed over has been initialized if
`init` is set. -/
structure EnqueueOk (cfg : Config) (init : Bool) (ps : List OdpEvt) (m : Memory) (r : Enqueued) : Prop where
  sent : r.sent = r.handed.length
  split : r.handed.map EvHdl.evptr ++ r.freed = ps
  frame : ∀ p ∉ ps, r.memory.event p = m.event p
  type : ∀ p, (r.memory.event p).type = (m.event p).type
  handed : cfg.esvEnabled = true → ∀ event ∈ r.handed,
    if init then Owned event.evptr (r.memory.event event.evptr) ∧ event = (r.memory.event event.evptr).hdr.event
    else Raw cfg (r.memory.event event.evptr)
  freed : cfg.esvEnabled = true → ∀ p ∈ r.freed, Raw cfg { r.memory.event p with userFlag := false }

theorem freeUnsent_eq {free : List EvHdl → Memory → Option (Memory × List OdpEvt)}
    (hnil : free [] m = some (m,[])) (hle : sent ≤ events.length) : freeUnsent free sent events m =
      (free (events.drop sent.toNat) m).map fun r => ⟨sent.toNat,events.take sent.toNat,r.2,r.1⟩ := by
  rw [freeUnsent]
  split
  · have hsent : (if sent < 0 then 0 else sent) = (sent.toNat : Int) := by
      split
      · omega
      · omega
    rw [hsent]
    rfl
  · have hsent : sent.toNat = events.length := by omega
    have hcast : sent = (events.length : Int) := by omega
    rw [hsent, List.drop_length, List.take_length, hnil, hcast]
    rfl

theorem enqueueRaw_ok (hle : sent ≤ ps.length) (hraw : cfg.esvEnabled = true → ∀ p ∈ ps, Raw cfg (m.event p)) :
    ∃ r, enqueueRaw ps m sent = some r ∧ EnqueueOk cfg false ps m r := by
  have hptr : (eventsOdp2em ps).map EvHdl.evptr = ps := by
    rw [eventsOdp2em, List.map_map]
    exact List.map_id ps
  have hlen : (eventsOdp2em ps).length = ps.length := List.length_map ..
  rw [enqueueRaw, freeUnsent_eq rfl (by rw [hlen]; exact hle), odpPacketFreeMulti, Option.map_some]
  have hn : sent.toNat ≤ ps.length := by omega
  refine ⟨_,rfl,?_,?_,fun _ _ => rfl,fun _ => rfl,fun hesv event hmem => ?_,fun hesv p hmem => ?_⟩
  · dsimp only
    rw [List.length_take, hlen, Nat.min_eq_left hn]
  · dsimp only
    rw [← List.map_append, List.take_append_drop, hptr]
  · have hp : event.evptr ∈ ps := hptr ▸ List.mem_map_of_mem (List.mem_of_mem_take hmem)
    exact hraw hesv _ hp
  · have hp : p ∈ ps := by
      rw [← hptr]
      exact List.map_subset _ (List.drop_subset ..) hmem
    have hr := hraw hesv p hp
    exact ⟨rfl,hr.refsUsed,hr.freed⟩

/-- The packets that `event_init_pkt_multi` has initialized are with the user. -/
theorem GivenAll.userPkts {r : List EvHdl × (OdpEvt → OdpEvent)} (h : GivenAll cfg ps m.event r) (hnodup : ps.Nodup)
    (hpkt : ∀ p ∈ ps, p ≠ 0 ∧ (m.event p).type = .packet) {l : List EvHdl} (hl : l.Sublist r.1) :
    UserPkts cfg { m with event := r.2 } l := by
  refine ⟨(hl.map EvHdl.evptr).nodup (h.evptr ▸ hnodup),fun event hmem => ?_,fun hesv event hmem => ?_⟩
  · have hp : event.evptr ∈ ps := h.evptr ▸ List.mem_map_of_mem (hl.subset hmem)
    exact ⟨(hpkt _ hp).1,(h.given event (hl.subset hmem)).type.trans (hpkt _ hp).2⟩
  · exact (h.given event (hl.subset hmem)).owned hesv

theorem GivenAll.type {r : List EvHdl × (OdpEvt → OdpEvent)} (h : GivenAll cfg ps m.event r) (p : OdpEvt) :
    (r.2 p).type = (m.event p).type := by
  by_cases hp : p ∈ ps
  · obtain ⟨event,hmem,rfl⟩ := List.mem_map.1 (h.evptr ▸ hp)
    exact (h.given event hmem).type
  · rw [h.frame p hp]

theorem enqueueInit_ok (hnodup : ps.Nodup) (hle : sent ≤ ps.length)
    (hpkt : ∀ p ∈ ps, p ≠ 0 ∧ (m.event p).type = .packet)
    (hraw : cfg.esvEnabled = true → ∀ p ∈ ps, Raw cfg (m.event p)) :
    ∃ r, enqueueInit cfg ps m sent = some r ∧ EnqueueOk cfg true ps m r := by
  obtain ⟨⟨events,ev⟩,hinit,hall⟩ := eventInitPktMulti_given hnodup hraw
  have hlen : events.length = ps.length := by
    rw [← hall.evptr, List.length_map]
  have hn : sent.toNat ≤ ps.length := by omega
  obtain ⟨m',hfree,hfreed⟩ := (hall.userPkts hnodup hpkt (List.drop_sublist sent.toNat events)).emFreeMulti
  have hsplit : (events.take sent.toNat).map EvHdl.evptr ++ (events.drop sent.toNat).map EvHdl.evptr = ps := by
    rw [← List.map_append, List.take_append_drop]
    exact hall.evptr
  -- what is handed over is not freed
  have hdisjoint := (List.nodup_append'.1 (hsplit ▸ hnodup)).2.2
  rw [enqueueInit, hinit, Option.bind_eq_bind, Option.bind_some]
  dsimp only
  rw [freeUnsent_eq rfl (by rw [hlen]; exact hle), hfree, Option.map_some]
  refine ⟨_,rfl,?_,hsplit,fun p hp => ?_,fun p => ?_,fun hesv event hmem => ?_,fun hesv p hmem => ?_⟩
  · dsimp only
    rw [List.length_take, hlen, Nat.min_eq_left hn]
  · refine (hfreed.frame p fun hmem => hp ?_).trans (hall.frame p hp)
    rw [← hsplit]
    exact List.mem_append_right _ hmem
  · exact (hfreed.type p).trans (hall.type p)
  · rw [if_pos rfl]
    dsimp only
    rw [hfreed.frame _ fun hc => hdisjoint (List.mem_map_of_mem hmem) hc]
    exact (hall.given event (List.mem_of_mem_take hmem)).owned hesv
  · obtain ⟨hrefs,hcnt⟩ := hfreed.freed hesv p hmem
    exact ⟨rfl,hrefs,fun _ _ => hcnt⟩

/-- Whether the headers are initialized before the packets are handed over -/
def inits : Option QueueElem → Bool
  | none => true
  | some q => !q.scheduled && q.type ≠ .local

theorem emOdpPktEnqueue_ok {orderedContext : Bool} {res : Results} {qElem : Option QueueElem} {external : Bool}
    (hnodup : ps.Nodup) (hres : res.Within ps.length) (hpkt : ∀ p ∈ ps, p ≠ 0 ∧ (m.event p).type = .packet)
    (hraw : cfg.esvEnabled = true → ∀ p ∈ ps, Raw cfg (m.event p)) :
    ∃ r, emOdpPktEnqueue cfg orderedContext res ps m qElem external = some r ∧
      EnqueueOk cfg (inits qElem) ps m r := by
  have hzero : (0 : Int) ≤ ps.length := Int.natCast_nonneg _
  have hnone : EnqueueOk cfg (inits qElem) ps m ⟨0,[],ps,m⟩ := by
    refine ⟨rfl,rfl,fun _ _ => rfl,fun _ => rfl,fun _ _ hmem => absurd hmem List.not_mem_nil,fun hesv p hmem => ?_⟩
    have hr := hraw hesv p hmem
    exact ⟨rfl,hr.refsUsed,hr.freed⟩
  unfold emOdpPktEnqueue
  split
  · rename_i hnil
    obtain rfl := hnil
    exact ⟨_,rfl,hnone⟩
  cases qElem with
  | none =>
    refine enqueueInit_ok hnodup ?_ hpkt hraw
    split
    · exact hres.chaining
    · exact hzero
  | some q =>
    dsimp only
    split
    · rename_i hsched
      rw [inits, hsched]
      exact enqueueRaw_ok hres.enqMulti hraw
    · rename_i hsched
      rw [Bool.not_eq_true] at hsched
      split
      · rename_i hlocal
        rw [inits, hlocal, hsched]
        refine enqueueRaw_ok ?_ hraw
        rw [sendLocalMulti]
        split
        · exact hzero
        · split
          · exact hres.put
          · exact hzero
      · rename_i hunsched
        rw [inits, hunsched, hsched]
        exact enqueueInit_ok hnodup hres.enqMulti hpkt hraw
      · rename_i hout
        rw [inits, hout, hsched]
        refine enqueueInit_ok hnodup ?_ hpkt hraw
        rw [sendOutputMulti]
        split
        · exact hzero
        · split
          · split
            · exact hzero
            · split
              · exact hzero
              · exact hres.enqMulti
          · exact hres.outputFn
      · exact ⟨_,rfl,hnone⟩

/-- Where a packet of the call is after it -/
theorem EnqueueOk.cases {init : Bool} (h : EnqueueOk cfg init ps m r) (hnodup : ps.Nodup) (p : OdpEvt) :
    (p ∈ ps ∧ p ∈ r.freed ∧ p ∉ r.handed.map EvHdl.evptr) ∨ (p ∈ ps ∧ p ∉ r.freed ∧ p ∈ r.handed.map EvHdl.evptr) ∨
      (p ∉ ps ∧ p ∉ r.freed ∧ p ∉ r.handed.map EvHdl.evptr) := by
  have hdisjoint := (List.nodup_append'.1 (h.split ▸ hnodup)).2.2
  rw [← h.split, List.mem_append]
  by_cases hf : p ∈ r.freed
  · exact .inl ⟨.inr hf,hf,fun hh => hdisjoint hh hf⟩
  · by_cases hh : p ∈ r.handed.map EvHdl.evptr
    · exact .inr (.inl ⟨.inl hh,hf,hh⟩)
    · exact .inr (.inr ⟨fun hc => hc.elim hh hf,hf,hh⟩)

end Enqueue
end EmOdp.OdpExt
