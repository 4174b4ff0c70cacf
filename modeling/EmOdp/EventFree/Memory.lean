import EmOdp.EventState.Verify
import EmOdp.Lib.Pointwise

/-! Events in memory: the header of each by its address, and the tables of the vectors among them.
`evstate_error` and `evstate_unmark_error` never return, so they end a run. -/
namespace EmOdp.EventFree
open EventState Lib.Pointwise

structure Config where
  /-- `EM_CHECK_LEVEL` -/
  checkLevel : Nat
  esvEnabled : Bool
  preallocPools : Bool
  /-- `em_shm->opt.esv.store_state` -/
  storeState : Bool
  /-- `timer_rings_used` -/
  ringsUsed : Bool

/-- `odp_event_t` -/
abbrev OdpEvt := BitVec 48

instance : LawfulBEq OdpEvt := inferInstance

inductive OdpType where
  | buffer | packet | timeout | vector | packetVector | other
  deriving DecidableEq

/-- `state.api_op` as far as `check_valid_unmark` tells the calls apart -/
inductive ApiOp where
  | markSend
  /-- `EVSTATE__MARK_FREE` or `EVSTATE__MARK_FREE_MULTI` -/
  | markFree
  | other
  deriving DecidableEq

/-- An ODP event with its header -/
structure OdpEvent where
  type : OdpType
  hdr : EvHdr
  /-- `event_type` is of the major type `EM_EVENT_TYPE_TIMER_IND` -/
  timerInd : Bool
  /-- `flags.tmo_type != EM_TMO_TYPE_NONE` -/
  tmoActive : Bool
  apiOp : ApiOp
  /-- the header was initialized by EM -/
  userFlag : Bool
  /-- from a pool of EM's -/
  emPool : Bool
  deriving DecidableEq

/-- `em_locm.evhdr_nonem` -/
def evhdrNonem : EvHdr := ⟨⟨0,0⟩,⟨0⟩,false,true⟩

/-- `EM_EVENT_UNDEF` -/
def emEventUndef : EvHdl := ⟨0,0⟩

/-- `events_em2odp_inplace`, `events_em2pkt_inplace` for one handle -/
def em2odp (event : EvHdl) : EvHdl := { event with evgen := 0 }

namespace OdpEvent
variable (cfg : Config) (op : ApiOp) (v : Variant) (event : EvHdl) (e : OdpEvent)

/-- `is_vector_type` -/
def isVectorType : Bool := e.type = .vector || e.type = .packetVector

/-- `esv_usr2em` with `evhdr_update_state` -/
def esvUsr2em (cnt : EvstateCnt) (isRevert : Bool) : Option OdpEvent :=
  (EventState.esvUsr2em v event e.hdr cnt isRevert).toOption.map fun hdr =>
    { e with hdr, apiOp := if cfg.storeState && !hdr.refsUsed then op else e.apiOp }

/-- `evstate_free` -/
def evstateFree : Option OdpEvent := e.esvUsr2em cfg op .single event cntFree false

/-- `evstate_free_multi` for one event -/
def evstateFreeMulti : Option OdpEvent :=
  if e.hdr.odpType then some e else e.esvUsr2em cfg op .multi event cntFree false

/-- `evhdr_init_pkt`, `evhdr_init_evvec` and `evhdr_init_pktvec` with `is_extev` false -/
def evhdrInit : Option (EvHdl × OdpEvent) :=
  if e.userFlag then some (if cfg.esvEnabled then e.hdr.event else event,e)
  else
    -- the flags of a vector are cleared first, those of a packet after `evstate_init`
    let hdr := if e.type = .packet then e.hdr else { e.hdr with refsUsed := false }
    let init : Except EvstateError (EvHdl × EvHdr) :=
      if !cfg.esvEnabled then .ok (event,{ hdr with event })
      else if !cfg.preallocPools || hdr.refsUsed || !e.emPool then .ok (esvEvinit event hdr initCntAlloc)
      else esvEm2usr event hdr cntAlloc false
    init.toOption.map fun r => (r.1,{ e with
      hdr := { r.2 with refsUsed := false, odpType := false }
      timerInd := false
      tmoActive := false
      apiOp := if cfg.esvEnabled && cfg.storeState then .other else e.apiOp
      userFlag := true })

/-- `event_init_odp`, `event_init_odp_multi` and `event_init_pkt_multi` for one event with `is_extev`
false -/
def eventInitOdp : Option (EvHdl × OdpEvent) :=
  match e.type with
  | .packet | .vector | .packetVector => e.evhdrInit cfg event
  | .buffer => some (if cfg.esvEnabled then e.hdr.event else event,e)
  | .timeout =>
    let hdl := { event with evgen := e.hdr.event.evgen }
    some (if cfg.esvEnabled then (hdl,{ e with hdr := { e.hdr with event := hdl } }) else (event,e))
  | .other => some (event,e)

end OdpEvent

structure Memory where
  event : OdpEvt → OdpEvent
  /-- the table of a vector -/
  table : OdpEvt → List EvHdl

/-- `event_init_odp_multi` in place -/
def initTbl (cfg : Config) : List EvHdl → (OdpEvt → OdpEvent) →
    Option (List EvHdl × (OdpEvt → OdpEvent))
  | [], m => some ([],m)
  | event :: tbl, m => do
    let (event',e) ← (m event.evptr).eventInitOdp cfg event
    let (tbl,m) ← initTbl cfg tbl (Function.update m event.evptr e)
    return (event' :: tbl,m)

/-- `evstate_free_multi`, a header is known by its event -/
def evstateFreeMulti (cfg : Config) (op : ApiOp) (events : List EvHdl) (evHdrs : List OdpEvt) :
    (OdpEvt → OdpEvent) → Option (OdpEvt → OdpEvent) :=
  run (events.zipWith (fun event evHdr => (evHdr,fun e => e.evstateFreeMulti cfg op event)) evHdrs)

namespace Memory
variable (cfg : Config) (op : ApiOp) (odpEvent : OdpEvt) (m : Memory)

/-- `event_vector_tbl` -/
def eventVectorTbl : Option Memory :=
  let tbl := m.table odpEvent
  (initTbl cfg (if cfg.esvEnabled then tbl.map em2odp else tbl) m.event).map fun r =>
    ⟨r.2,Function.update m.table odpEvent r.1⟩

/-- `event_vector_prepare_free_full` -/
def eventVectorPrepareFreeFull : Option Memory := do
  let m ← m.eventVectorTbl cfg odpEvent
  let tbl := m.table odpEvent
  let event ← EventFree.evstateFreeMulti cfg op tbl (tbl.map EvHdl.evptr) m.event
  return ⟨event,Function.update m.table odpEvent (tbl.map em2odp)⟩

end Memory

namespace OdpEvent
variable {cfg : Config} {op : ApiOp} {v : Variant} {event event' : EvHdl} {p : OdpEvt} {e e' : OdpEvent}
  {cnt : EvstateCnt} {isRevert : Bool}

/-- The handle of an event once it has been initialized -/
def handle (p : OdpEvt) (e : OdpEvent) : EvHdl := if e.type = .other then ⟨p,0⟩ else e.hdr.event

/-- The header has been initialized, so that it is for each type of events with one. -/
def EmInit (e : OdpEvent) : Prop := match e.type with
  | .packet | .vector | .packetVector => e.userFlag = true
  | .buffer => True
  | .timeout | .other => False

/-- The event at an address: events without a header share that of the core, only packets and buffers
can be given the type of these, and an initialized header has the handle of its event. -/
structure Valid (p : OdpEvt) (e : OdpEvent) : Prop where
  nonem : e.type = .other → e.hdr = evhdrNonem ∧ e.apiOp = .other
  typed : e.type = .timeout ∨ e.isVectorType = true → e.hdr.odpType = false
  evptr : e.EmInit → e.hdr.event.evptr = p

/-- What no initialization and no state transition changes -/
structure Kept (e e' : OdpEvent) : Prop where
  type : e'.type = e.type
  tmoActive : e.type = .timeout → e'.tmoActive = e.tmoActive
  timerInd : e.timerInd = false → e'.timerInd = false

theorem Kept.refl (e : OdpEvent) : Kept e e := ⟨rfl,fun _ => rfl,id⟩

theorem Kept.trans {e'' : OdpEvent} (h : Kept e e') (h' : Kept e' e'') : Kept e e'' :=
  ⟨h'.type.trans h.type,fun ht => (h'.tmoActive (h.type.trans ht)).trans (h.tmoActive ht),
    h'.timerInd ∘ h.timerInd⟩

/-- The counters after a transition, and those that are checked -/
def usr2emCnt (stateCnt cnt : EvstateCnt) : Bool → EvstateCnt × EvstateCnt
  | true =>
    let newCnt := stateCnt.subFetch cnt
    let newCnt := if newCnt.evgen = evgenInit - 1 then newCnt.addFetch evgenWrap else newCnt
    (newCnt,newCnt)
  | false =>
    let newCnt := stateCnt.addFetch cnt
    (if newCnt.evgen = evgenMax then newCnt.subFetch evgenWrap else newCnt,newCnt.prevGen)

/-- A transition changes the counters only, and the variants differ in what they report only. -/
theorem esvUsr2em_toOption (v : Variant) (event : EvHdl) (hdr : EvHdr) (cnt : EvstateCnt)
    (isRevert : Bool) : (EventState.esvUsr2em v event hdr cnt isRevert).toOption =
      if (usr2emCnt hdr.stateCnt cnt isRevert).2.usr2emError hdr.refsUsed event then none
      else some { hdr with stateCnt := (usr2emCnt hdr.stateCnt cnt isRevert).1 } := by
  have hite (c : Prop) [Decidable c] (err : EvstateError) (hdr : EvHdr) :
      (if c then Except.error err else .ok hdr).toOption = if c then none else some hdr := by
    split <;> rfl
  cases isRevert with
  | true => exact hite ..
  | false => exact hite ..

theorem esvUsr2em_eq (h : e.esvUsr2em cfg op v event cnt isRevert = some e') :
    e' = { e with hdr := { e.hdr with stateCnt := e'.hdr.stateCnt }, apiOp := e'.apiOp } := by
  rw [esvUsr2em, esvUsr2em_toOption] at h
  split at h
  · cases h
  · cases h
    rfl

theorem esvUsr2em_variant (v v' : Variant) :
    e.esvUsr2em cfg op v event cnt isRevert = e.esvUsr2em cfg op v' event cnt isRevert := by
  rw [esvUsr2em, esvUsr2em, esvUsr2em_toOption, esvUsr2em_toOption]

/-- The handle is not looked at for events with references. -/
theorem esvUsr2em_refsUsed (href : e.hdr.refsUsed = true) (event event' : EvHdl) :
    e.esvUsr2em cfg op v event cnt isRevert = e.esvUsr2em cfg op v event' cnt isRevert := by
  have hnot (newCnt : EvstateCnt) (hdl : EvHdl) :
      newCnt.usr2emError e.hdr.refsUsed hdl ↔ (newCnt.sends > newCnt.refs ∨ newCnt.sends < 0) := by
    refine or_iff_left ?_
    rw [href]
    rintro ⟨⟨⟩,-⟩
  rw [esvUsr2em, esvUsr2em, esvUsr2em_toOption, esvUsr2em_toOption]
  simp only [hnot]

theorem evstateFreeMulti_eq (h : e.evstateFreeMulti cfg op event = some e') :
    e' = { e with hdr := { e.hdr with stateCnt := e'.hdr.stateCnt }, apiOp := e'.apiOp } := by
  rw [evstateFreeMulti] at h
  split at h
  · cases h
    rfl
  · exact esvUsr2em_eq h

/-- An update of the counters -/
theorem Valid.counted (h : e.Valid p) {stateCnt : EvstateCnt} {apiOp : ApiOp}
    (hother : e.type ≠ .other) : Valid p { e with hdr := { e.hdr with stateCnt }, apiOp } :=
  ⟨fun ht => absurd ht hother,h.typed,h.evptr⟩

theorem Valid.evstateFreeMulti (h : e.Valid p) (hfree : e.evstateFreeMulti cfg op event = some e') :
    e'.Valid p ∧ Kept e e' ∧ e'.handle p = e.handle p := by
  have heq := evstateFreeMulti_eq hfree
  by_cases hother : e.type = .other
  · have hodp : e.hdr.odpType = true := by rw [(h.nonem hother).1]; rfl
    rw [OdpEvent.evstateFreeMulti, if_pos hodp] at hfree
    cases hfree
    exact ⟨h,.refl e,rfl⟩
  · rw [heq]
    exact ⟨h.counted hother,⟨rfl,fun _ => rfl,id⟩,rfl⟩

theorem evhdrInit_some (hflag : e.userFlag = false) (h : e.evhdrInit cfg event = some (event',e')) :
    e'.type = e.type ∧ e'.userFlag = true ∧ e'.timerInd = false ∧ e'.hdr.odpType = false ∧
      e'.hdr.event = event' ∧ event'.evptr = event.evptr := by
  rw [evhdrInit, if_neg (by rw [hflag]; decide), Option.map_eq_some_iff] at h
  obtain ⟨⟨hdl,hdr⟩,hinit,heq⟩ := h
  have hev : hdr.event = hdl ∧ hdl.evptr = event.evptr := by
    clear heq
    dsimp only at hinit
    generalize (if e.type = .packet then e.hdr else { e.hdr with refsUsed := false }) = hdr' at hinit
    split at hinit
    · cases hinit
      exact ⟨rfl,rfl⟩
    split at hinit
    · cases hinit
      exact ⟨rfl,rfl⟩
    · rename_i hprealloc
      simp only [Bool.or_eq_true, not_or, Bool.not_eq_true] at hprealloc
      simp only [esvEm2usr, hprealloc.1.2, Bool.false_eq_true, if_false] at hinit
      split at hinit
      · cases hinit
      · cases hinit
        exact ⟨rfl,rfl⟩
  cases heq
  exact ⟨rfl,rfl,rfl,rfl,hev⟩

/-- An initialized event is as it was. -/
theorem EmInit.eventInitOdp (hesv : cfg.esvEnabled = true) (h : e.EmInit) :
    e.eventInitOdp cfg event = some (e.handle p,e) := by
  cases ht : e.type with
  | packet | vector | packetVector =>
    rw [EmInit, ht] at h
    have hflag : e.userFlag = true := h
    simp only [OdpEvent.eventInitOdp, ht, evhdrInit, hflag, hesv, if_true, handle, reduceCtorEq, if_false]
  | buffer => simp only [OdpEvent.eventInitOdp, ht, hesv, if_true, handle, reduceCtorEq, if_false]
  | timeout | other =>
    rw [EmInit, ht] at h
    exact h.elim

/-- An initialization has nothing to do for the event. -/
structure Inited (p : OdpEvt) (e : OdpEvent) : Prop where
  init : e.EmInit ∨ e.type = .timeout ∨ e.type = .other
  evptr : e.type ≠ .other → e.hdr.event.evptr = p

theorem Inited.again (hesv : cfg.esvEnabled = true) (h : e.Inited p) :
    e.eventInitOdp cfg ⟨p,0⟩ = some (e.handle p,e) := by
  rcases h.init with hem | ht | ht
  · exact hem.eventInitOdp hesv
  · have hother : e.type ≠ .other := by
      rw [ht]
      decide
    have hevent : { evptr := p, evgen := e.hdr.event.evgen } = e.hdr.event :=
      EvHdl.ext (h.evptr hother).symm rfl
    simp only [OdpEvent.eventInitOdp, ht, hesv, if_true, hevent, handle, reduceCtorEq, if_false]
    rw [← ht]
  · simp only [OdpEvent.eventInitOdp, ht, handle, if_true]

theorem Inited.handle_evptr (h : e.Inited p) : (e.handle p).evptr = p := by
  rw [handle]
  split
  · rfl
  · exact h.evptr ‹_›

theorem Valid.eventInitOdp (hesv : cfg.esvEnabled = true) (h : e.Valid p)
    (hinit : e.eventInitOdp cfg ⟨p,0⟩ = some (event',e')) :
    event' = e'.handle p ∧ e'.Inited p ∧ e'.Valid p ∧ Kept e e' := by
  by_cases hem : e.EmInit
  · rw [hem.eventInitOdp hesv (p := p)] at hinit
    cases hinit
    exact ⟨rfl,⟨.inl hem,fun _ => h.evptr hem⟩,h,.refl e⟩
  have hnew (htype : e.type = .packet ∨ e.isVectorType = true) (hflag : e.userFlag = false)
      (hinit : e.evhdrInit cfg ⟨p,0⟩ = some (event',e')) :
      event' = e'.handle p ∧ e'.Inited p ∧ e'.Valid p ∧ Kept e e' := by
    obtain ⟨ht,huser,hind,hodp,hevent,hptr⟩ := evhdrInit_some hflag hinit
    have hem' : e'.EmInit := by
      rw [EmInit, ht]
      cases hte : e.type with
      | packet | vector | packetVector => exact huser
      | buffer => trivial
      | timeout | other => simp [isVectorType, hte] at htype
    have hne : e.type ≠ .timeout ∧ e.type ≠ .other := by
      constructor <;> intro hc <;> simp [isVectorType, hc] at htype
    have hhandle : event' = e'.handle p := by
      rw [handle, ht, if_neg hne.2, hevent]
    have hevptr : e'.hdr.event.evptr = p := by rw [hevent, hptr]
    exact ⟨hhandle,⟨.inl hem',fun _ => hevptr⟩,⟨fun hc => absurd (ht.symm.trans hc) hne.2,fun _ => hodp,
      fun _ => hevptr⟩,ht,fun hc => absurd hc hne.1,fun _ => hind⟩
  cases ht : e.type with
  | packet =>
    rw [EmInit, ht] at hem
    have hflag : ¬e.userFlag = true := hem
    rw [OdpEvent.eventInitOdp, ht] at hinit
    exact hnew (.inl ht) (Bool.not_eq_true _ ▸ hflag) hinit
  | vector | packetVector =>
    rw [EmInit, ht] at hem
    have hflag : ¬e.userFlag = true := hem
    rw [OdpEvent.eventInitOdp, ht] at hinit
    exact hnew (.inr (by simp [isVectorType, ht])) (Bool.not_eq_true _ ▸ hflag) hinit
  | buffer =>
    rw [EmInit, ht] at hem
    exact absurd trivial hem
  | timeout =>
    simp only [OdpEvent.eventInitOdp, ht, hesv, if_true, Option.some.injEq, Prod.mk.injEq] at hinit
    obtain ⟨rfl,rfl⟩ := hinit
    exact ⟨by simp only [handle, reduceCtorEq, if_false],⟨.inr (.inl rfl),fun _ => rfl⟩,
      ⟨by rintro ⟨⟩,fun _ => h.typed (.inl ht),fun hc => hc.elim⟩,ht.symm,fun _ => rfl,id⟩
  | other =>
    simp only [OdpEvent.eventInitOdp, ht, Option.some.injEq, Prod.mk.injEq] at hinit
    obtain ⟨rfl,rfl⟩ := hinit
    exact ⟨by simp only [handle, ht, if_true],⟨.inr (.inr ht),fun hc => absurd ht hc⟩,h,.refl e⟩

end OdpEvent

section Table
variable {cfg : Config} {op : ApiOp} {m : Memory} {event event' : OdpEvt → OdpEvent} {odpEvent : OdpEvt}
  {tbl : List OdpEvt}

def initAct (cfg : Config) (p : OdpEvt) (e : OdpEvent) : Option OdpEvent :=
  (e.eventInitOdp cfg ⟨p,0⟩).map Prod.snd

def freeAct (cfg : Config) (op : ApiOp) (p : OdpEvt) (e : OdpEvent) : Option OdpEvent :=
  e.evstateFreeMulti cfg op (e.handle p)

/-- What the free of a vector does to the events of its table -/
def tableAccesses (cfg : Config) (op : ApiOp) (tbl : List OdpEvt) :
    List (OdpEvt × (OdpEvent → Option OdpEvent)) :=
  (tbl.map fun p => (p,initAct cfg p)) ++ tbl.map fun p => (p,freeAct cfg op p)

/-- The ODP events of a table -/
def Memory.odpTbl (m : Memory) (odpEvent : OdpEvt) : List OdpEvt := (m.table odpEvent).map EvHdl.evptr

theorem map_em2odp (tbl : List EvHdl) : tbl.map em2odp = (tbl.map EvHdl.evptr).map (⟨·,0⟩) := by
  rw [List.map_map]
  rfl

theorem initAct_inited (hesv : cfg.esvEnabled = true) {p : OdpEvt} {e e' : OdpEvent} (h : e.Valid p)
    (hinit : initAct cfg p e = some e') :
    e.eventInitOdp cfg ⟨p,0⟩ = some (e'.handle p,e') ∧ e'.Inited p ∧ e'.Valid p ∧ OdpEvent.Kept e e' := by
  rw [initAct, Option.map_eq_some_iff] at hinit
  obtain ⟨⟨hdl,e''⟩,hinit,rfl⟩ := hinit
  obtain ⟨rfl,hrest⟩ := h.eventInitOdp hesv hinit
  exact ⟨hinit,hrest⟩

theorem initAct_again (hesv : cfg.esvEnabled = true) {p : OdpEvt} {e : OdpEvent} (h : e.Inited p) :
    initAct cfg p e = some e := by
  rw [initAct, h.again hesv]
  rfl

/-- Each event of a table is initialized once. -/
theorem run_init (hesv : cfg.esvEnabled = true) (hvalid : ∀ p, (event p).Valid p)
    (h : run (tbl.map fun p => (p,initAct cfg p)) event = some event') (p : OdpEvt) :
    (p ∈ tbl → initAct cfg p (event p) = some (event' p)) ∧ (p ∉ tbl → event' p = event p) := by
  have hp := run_eq_some_iff.1 h p
  rw [accesses_map] at hp
  constructor
  · intro hmem
    obtain ⟨n,hn⟩ := Nat.exists_eq_succ_of_ne_zero (List.count_pos_iff.2 hmem).ne'
    rw [hn, List.replicate_succ, fold_cons, Option.bind_eq_some_iff] at hp
    obtain ⟨e,he,hp⟩ := hp
    rw [fold_id fun act hact => ?_] at hp
    · exact he.trans hp
    · rw [List.eq_of_mem_replicate hact]
      exact initAct_again hesv (initAct_inited hesv (hvalid p) he).2.1
  · intro hmem
    rw [List.count_eq_zero.2 hmem] at hp
    exact (Option.some.inj hp).symm

theorem run_init_valid (hesv : cfg.esvEnabled = true) (hvalid : ∀ p, (event p).Valid p)
    (h : run (tbl.map fun p => (p,initAct cfg p)) event = some event') (p : OdpEvt) :
    (event' p).Valid p ∧ OdpEvent.Kept (event p) (event' p) ∧ (p ∈ tbl → (event' p).Inited p) := by
  obtain ⟨hin,hout⟩ := run_init hesv hvalid h p
  by_cases hmem : p ∈ tbl
  · obtain ⟨-,hinited,hvalid',hkept⟩ := initAct_inited hesv (hvalid p) (hin hmem)
    exact ⟨hvalid',hkept,fun _ => hinited⟩
  · rw [hout hmem]
    exact ⟨hvalid p,.refl _,fun hmem' => absurd hmem' hmem⟩

theorem initTbl_eq (hesv : cfg.esvEnabled = true) (hvalid : ∀ p, (event p).Valid p) :
    initTbl cfg (tbl.map (⟨·,0⟩)) event = (run (tbl.map fun p => (p,initAct cfg p)) event).map fun event' =>
      (tbl.map fun p => (event' p).handle p,event') := by
  induction tbl generalizing event with
  | nil => rfl
  | cons p tbl ih =>
    rw [List.map_cons, List.map_cons, initTbl, run_cons]
    cases hinit : (event p).eventInitOdp cfg ⟨p,0⟩ with
    | none =>
      rw [initAct, hinit]
      rfl
    | some r =>
      obtain ⟨hdl,e⟩ := r
      obtain ⟨rfl,hinited,hvalid',-⟩ := (hvalid p).eventInitOdp hesv hinit
      have hstep : initAct cfg p (event p) = some e := by rw [initAct, hinit]; rfl
      have hvalids (q : OdpEvt) : (Function.update event p e q).Valid q := by
        by_cases hqp : q = p
        · rw [hqp, Function.update_self]
          exact hvalid'
        · rw [Function.update_of_ne hqp]
          exact hvalid q
      rw [hstep]
      change ((initTbl cfg (tbl.map (⟨·,0⟩)) (Function.update event p e)).bind _) = Option.map _ (run _ _)
      rw [ih hvalids]
      cases hrun : run (tbl.map fun p => (p,initAct cfg p)) (Function.update event p e) with
      | none => rfl
      | some event' =>
        have hlast : event' p = e := by
          obtain ⟨hin,hout⟩ := run_init hesv hvalids hrun p
          rw [Function.update_self] at hin hout
          by_cases hmem : p ∈ tbl
          · exact (Option.some.inj ((initAct_again hesv hinited).symm.trans (hin hmem))).symm
          · exact hout hmem
        rw [Option.map_some, Option.map_some, List.map_cons, hlast]
        rfl

/-- The handles of a table that has been initialized are those in the headers. -/
theorem run_handles {act : EvHdl → OdpEvent → Option OdpEvent} {hdl : OdpEvt → EvHdl}
    (hact : ∀ p event e e', e.Valid p → act event e = some e' → e'.Valid p ∧ e'.handle p = e.handle p)
    (hptr : ∀ p ∈ tbl, (hdl p).evptr = p) (hvalid : ∀ p, (event p).Valid p)
    (hhdl : ∀ p ∈ tbl, (event p).handle p = hdl p) :
    run ((tbl.map hdl).zipWith (fun event evHdr => (evHdr,act event)) ((tbl.map hdl).map EvHdl.evptr)) event =
      run (tbl.map fun p => (p,fun e => act (e.handle p) e)) event := by
  rw [List.zipWith_map_right, List.zipWith_self, List.map_map]
  induction tbl generalizing event with
  | nil => rfl
  | cons p tbl ih =>
    rw [List.map_cons, List.map_cons, run_cons, Function.comp_apply, run_cons]
    rw [hptr p List.mem_cons_self]
    dsimp only
    rw [hhdl p List.mem_cons_self]
    refine Option.bind_congr fun e he => ?_
    obtain ⟨hvalid',hhandle⟩ := hact p _ _ _ (hvalid p) he
    refine ih (fun q hq => hptr q (List.mem_cons_of_mem _ hq)) (fun q => ?_) fun q hq => ?_
    · by_cases hqp : q = p
      · rw [hqp, Function.update_self]
        exact hvalid'
      · rw [Function.update_of_ne hqp]
        exact hvalid q
    · by_cases hqp : q = p
      · rw [hqp, Function.update_self, hhandle]
        exact hhdl p List.mem_cons_self
      · rw [Function.update_of_ne hqp]
        exact hhdl q (List.mem_cons_of_mem _ hq)

theorem evstateFreeMulti_handles {hdl : OdpEvt → EvHdl} (hptr : ∀ p ∈ tbl, (hdl p).evptr = p)
    (hvalid : ∀ p, (event p).Valid p) (hhdl : ∀ p ∈ tbl, (event p).handle p = hdl p) :
    evstateFreeMulti cfg op (tbl.map hdl) ((tbl.map hdl).map EvHdl.evptr) event =
      run (tbl.map fun p => (p,freeAct cfg op p)) event := by
  refine run_handles (fun p hdl e e' hvalid hfree => ?_) hptr hvalid hhdl
  obtain ⟨hvalid',-,hhandle⟩ := hvalid.evstateFreeMulti hfree
  exact ⟨hvalid',hhandle⟩

theorem prepareFreeFull_eq (hesv : cfg.esvEnabled = true) (hvalid : ∀ p, (m.event p).Valid p) :
    m.eventVectorPrepareFreeFull cfg op odpEvent =
      (run (tableAccesses cfg op (m.odpTbl odpEvent)) m.event).map fun event =>
        ⟨event,Function.update m.table odpEvent ((m.table odpEvent).map em2odp)⟩ := by
  rw [Memory.eventVectorPrepareFreeFull, Memory.eventVectorTbl, tableAccesses, run_append]
  rw [if_pos hesv, map_em2odp, ← Memory.odpTbl, initTbl_eq hesv hvalid]
  cases hrun : run ((m.odpTbl odpEvent).map fun p => (p,initAct cfg p)) m.event with
  | none => rfl
  | some event' =>
    have hinit := run_init_valid hesv hvalid hrun
    have hptr : ∀ p ∈ m.odpTbl odpEvent, ((event' p).handle p).evptr = p :=
      fun p hp => ((hinit p).2.2 hp).handle_evptr
    rw [Option.map_some, Option.map_some, Option.bind_eq_bind, Option.bind_some, Option.bind_some]
    dsimp only
    rw [Function.update_self, evstateFreeMulti_handles hptr (fun p => (hinit p).1) fun _ _ => rfl]
    refine Eq.trans ?_ (Option.map_eq_bind ..).symm
    refine Option.bind_congr fun event'' _ => congrArg some ?_
    have hsame : ((m.odpTbl odpEvent).map fun p => (event' p).handle p).map EvHdl.evptr =
        m.odpTbl odpEvent := by
      rw [List.map_map]
      exact (List.map_congr_left hptr).trans (List.map_id _)
    rw [Function.update_idem, map_em2odp, hsame]

end Table

end EmOdp.EventFree
