import EmOdp.EventFree.MarkRevert

/-! Marking and unmarking are inverse but for events in tables that have no header of their own, and those whose
state is not kept. -/
namespace EmOdp.EventFree
open EventState EvstateCnt Lib.Pointwise

variable {cfg : Config} {m m' : Memory} {events : List EvHdl} {event : EvHdl} {e e' : OdpEvent} {p : OdpEvt}

/-- The memory as it was once the tables of the vectors had been read; only the last call of each event may
differ. -/
structure AsBefore (cfg : Config) (m : Memory) (events : List EvHdl) (m' : Memory) : Prop where
  event : ∀ p, ∃ apiOp, m'.event p = { seen cfg m events p with apiOp }
  table : ∀ event ∈ events, (m.event event.evptr).isVectorType = true →
    (m.eventVectorTbl cfg event.evptr).map (fun m => m.table event.evptr) = some (m'.table event.evptr)
  other : ∀ v, ¬((m.event v).isVectorType = true ∧ v ∈ events.map EvHdl.evptr) → m'.table v = m.table v

/-- After marks as free and their unmarks everything is as before. -/
def Restores (cfg : Config) (m : Memory) (events : List EvHdl) (marks unmarks : List Call) : Prop :=
  ∃ m', (markCalls cfg marks m).bind (unmarkCalls cfg unmarks) = some m' ∧ AsBefore cfg m events m'

/-- An event in a table has a header of its own, and with the last call recorded its state is kept or its
references are. -/
def OdpEvent.Restorable (cfg : Config) (e : OdpEvent) : Prop :=
  e.type ≠ .other ∧ (cfg.storeState = true → e.hdr.odpType = true → e.hdr.refsUsed = true)

section Free
variable {marks unmarks : List Call} (hown : UserOwned cfg m events) (hesv : cfg.esvEnabled = true)
include hown hesv

/-- The handles `event_vector_tbl` gives -/
theorem UserOwned.table_eq (hevent : event ∈ events) (hvector : (m.event event.evptr).isVectorType = true) :
    (m.eventVectorTbl cfg event.evptr).map (fun m => m.table event.evptr) =
      some ((m.odpTbl event.evptr).map fun p => (seen cfg m events p).handle p) := by
  have hinit (p : OdpEvt) (hp : p ∈ m.odpTbl event.evptr) :
      initAct cfg p (m.event p) = some (seen cfg m events p) :=
    hown.seen_of_init (mem_inner_of_vector hevent hvector hp)
  have hrun : ∃ ev, run ((m.odpTbl event.evptr).map fun p => (p,initAct cfg p)) m.event = some ev := by
    refine run_exists fun p => ?_
    rw [accesses_map]
    by_cases hp : p ∈ m.odpTbl event.evptr
    · obtain ⟨n,hn⟩ := Nat.exists_eq_succ_of_ne_zero (List.count_pos_iff.2 hp).ne'
      have hseen := (hown.seen_inited hesv (mem_inner_of_vector hevent hvector hp)).1
      refine ⟨seen cfg m events p,?_⟩
      rw [hn, List.replicate_succ, fold_cons, hinit p hp, Option.bind_some]
      exact fold_id fun act hact => by rw [List.eq_of_mem_replicate hact]; exact initAct_again hesv hseen
    · rw [List.count_eq_zero.2 hp]
      exact ⟨_,rfl⟩
  obtain ⟨ev,hrun⟩ := hrun
  rw [Memory.eventVectorTbl, if_pos hesv, map_em2odp, ← Memory.odpTbl, initTbl_eq hesv hown.valid, hrun,
    Option.map_some, Option.map_some, Option.map_some]
  refine congrArg some ?_
  dsimp only
  rw [Function.update_self]
  refine List.map_congr_left fun p hp => ?_
  have hev := (run_init hesv hown.valid hrun p).1 hp
  rw [hinit p hp] at hev
  rw [Option.some.inj hev]

theorem UserOwned.restores_iff (hmarks : marks.flatMap Call.events = events)
    (hunmarks : (unmarks.flatMap Call.events).Perm events) :
    Restores cfg m events marks unmarks ↔ ∀ p ∈ inner m events, (seen cfg m events p).Restorable cfg := by
  obtain ⟨ev,hat,hcalls⟩ := hown.calls_eq hesv hmarks hunmarks
  rw [Restores, hcalls]
  have htable (event : EvHdl) (hevent : event ∈ events) (hvector : (m.event event.evptr).isVectorType = true) :
      restoredTable m (fun p => (seen cfg m events p).hdr.event) events event.evptr =
        (m.odpTbl event.evptr).map fun p => (seen cfg m events p).hdr.event :=
    if_pos ⟨hvector,List.mem_map_of_mem hevent⟩
  constructor
  · rintro ⟨m',hrun,hbefore⟩ p hp
    obtain ⟨ev',hrun',rfl⟩ := Option.map_eq_some_iff.1 hrun
    obtain ⟨event,hevent,hin⟩ := List.mem_flatMap.1 hp
    by_cases hvector : (m.event event.evptr).isVectorType = true
    swap
    · rw [if_neg hvector] at hin
      cases hin
    rw [if_pos hvector] at hin
    refine ⟨fun hother => ?_,fun hstore hodp => ?_⟩
    · have hshown := hbefore.table event hevent hvector
      rw [hown.table_eq hesv hevent hvector] at hshown
      dsimp only at hshown
      rw [htable event hevent hvector, Option.some.injEq] at hshown
      have hsame := List.map_inj_left.1 hshown p hin
      rw [OdpEvent.handle, if_pos hother, ((hown.seen_valid hesv p).nonem hother).1] at hsame
      refine hown.inner_ne ?_
      rw [show (0 : OdpEvt) = p from (congrArg EvHdl.evptr hsame).symm]
      exact hp
    · obtain ⟨t,s,r,-,hat⟩ := hat p
      have hev : ev p = seen cfg m events p := by
        rw [AtFree, At, if_pos (.inl hodp)] at hat
        exact hat
      rw [← hev]
      exact refsUsed_of_unmark hown hesv hunmarks hp hodp hstore hev (run_eq_some_iff.1 hrun' p)
  · intro hall
    have hfold (p : OdpEvt) : ∃ y, fold (accesses p ((unmarks.flatMap Call.events).flatMap (unmarkAccesses cfg m)))
        (ev p) = some y ∧ ∃ apiOp, y = { seen cfg m events p with apiOp } := by
      obtain ⟨t,s,r,hheld,hat⟩ := hat p
      have huses : 0 + ((unmarks.flatMap Call.events).map (useCount m p)).sum = uses m events p :=
        (Nat.zero_add _).trans (uses_perm hunmarks p)
      have htakes := Takes.flatMap_down (I := AtFree cfg m events p t s r) (j := 0) (n := uses m events p)
        (fun event hevent j hj => takes_unmark hown hesv hheld (hunmarks.subset hevent) hj
          fun hp hodp hstore => (hall p hp).2 hstore hodp) huses.le
      rw [huses] at htakes
      obtain ⟨y,hy,hzero⟩ := htakes _ hat
      exact ⟨y,by rw [accesses_flatMap]; exact hy,At.zero hzero hheld⟩
    choose ev' hev' using hfold
    rw [run_eq_some_iff.2 fun p => (hev' p).1]
    refine ⟨_,rfl,fun p => (hev' p).2,fun event hevent hvector => ?_,fun v hv => if_neg hv⟩
    rw [hown.table_eq hesv hevent hvector]
    dsimp only
    rw [htable event hevent hvector]
    refine congrArg some (List.map_congr_left fun p hp => ?_)
    rw [OdpEvent.handle, if_neg (hall p (mem_inner_of_vector hevent hvector hp)).1]

end Free

section Send

/-- Calls that each access the event they are given -/
theorem foldlM_access {f : EvHdl → Memory → Option Memory} {act : EvHdl → OdpEvent → Option OdpEvent}
    (hf : ∀ event ∈ events, ∀ m : Memory, (m.event event.evptr).timerInd = false →
      f event m = m.access event.evptr (act event))
    (hact : ∀ event e e', act event e = some e' → e'.timerInd = e.timerInd)
    (hind : ∀ event ∈ events, (m.event event.evptr).timerInd = false) :
    events.foldlM (fun m event => f event m) m =
      (run (events.map fun event => (event.evptr,act event)) m.event).map fun ev => ⟨ev,m.table⟩ := by
  induction events generalizing m with
  | nil => rfl
  | cons event events ih =>
    rw [List.foldlM_cons, hf event List.mem_cons_self m (hind event List.mem_cons_self), Memory.access, List.map_cons,
      run, Option.bind_eq_bind, Option.bind_map, Option.map_bind]
    refine Option.bind_congr fun e he => ?_
    refine ih (fun event hevent => hf event (List.mem_cons_of_mem _ hevent)) fun event' hevent => ?_
    have hind' := hind event' (List.mem_cons_of_mem _ hevent)
    dsimp only
    by_cases hp : event'.evptr = event.evptr
    · rw [hp] at hind' ⊢
      rw [Function.update_self, hact event _ _ he]
      exact hind'
    · rw [Function.update_of_ne hp]
      exact hind'

/-- Unmarking a send, nothing is done for the type `EM_EVENT_TYPE_ODP` -/
def unsendAct (cfg : Config) (event : EvHdl) (e : OdpEvent) : Option OdpEvent :=
  if e.hdr.odpType then some e else e.evstateUnmarkSend cfg event

theorem emEventMarkSend_eq (hesv : cfg.esvEnabled = true) (hdefined : event ≠ emEventUndef)
    (hind : (m.event event.evptr).timerInd = false) :
    emEventMarkSend cfg event m true = m.access event.evptr fun e => e.evstateUsr2em cfg event := by
  have hno : ¬(0 < cfg.checkLevel ∧ (m.event event.evptr).timerInd = true) := by
    intro hc
    rw [hind] at hc
    cases hc.2
  rw [emEventMarkSend, if_neg (by rw [hesv]; decide), if_neg fun hc => hdefined hc.2]
  dsimp only
  have hsched : ¬(3 ≤ cfg.checkLevel ∧ (!true) = true) := fun hc => Bool.noConfusion hc.2
  rw [if_neg hno, if_neg hsched]
  by_cases hodp : (m.event event.evptr).hdr.odpType = true
  · rw [if_pos hodp, Memory.access, OdpEvent.evstateUsr2em, if_pos hodp, Option.map_some, Function.update_eq_self]
  · rw [if_neg hodp]

theorem emEventUnmarkSend_eq (hesv : cfg.esvEnabled = true) (hdefined : event ≠ emEventUndef)
    (hind : (m.event event.evptr).timerInd = false) :
    emEventUnmarkSend cfg event m = m.access event.evptr (unsendAct cfg event) := by
  have hno : ¬(0 < cfg.checkLevel ∧ (m.event event.evptr).timerInd = true) := by
    intro hc
    rw [hind] at hc
    cases hc.2
  rw [emEventUnmarkSend, if_neg (by rw [hesv]; decide), if_neg fun hc => hdefined hc.2]
  dsimp only
  rw [if_neg hno]
  by_cases hodp : (m.event event.evptr).hdr.odpType = true
  · rw [if_pos hodp, Memory.access, unsendAct, if_pos hodp, Option.map_some, Function.update_eq_self]
  · rw [if_neg hodp, Memory.access, Memory.access, unsendAct, if_neg hodp]

theorem send_counted (h : e.evstateUsr2em cfg event = some e') : Counted e e' := by
  rw [OdpEvent.evstateUsr2em] at h
  split at h
  · cases h
    exact .refl e
  · rename_i hodp
    exact ⟨OdpEvent.esvUsr2em_eq h,fun hc => absurd hc hodp⟩

theorem unsend_counted (h : unsendAct cfg event e = some e') : Counted e e' := by
  rw [unsendAct] at h
  split at h
  · cases h
    exact .refl e
  · rename_i hodp
    rw [OdpEvent.evstateUnmarkSend, Option.bind_eq_some_iff] at h
    obtain ⟨e'',hcheck,h⟩ := h
    rw [checkValidUnmark_some hcheck, if_neg hodp] at h
    exact ⟨OdpEvent.esvUsr2em_eq h,fun hc => absurd hc hodp⟩

/-- After marks as sent and their unmarks everything is as before. -/
def RestoresSend (cfg : Config) (m : Memory) (events unmarked : List EvHdl) : Prop :=
  ∃ m', ((events.foldlM (fun m event => emEventMarkSend cfg event m true) m).bind fun m =>
      unmarked.foldlM (fun m event => emEventUnmarkSend cfg event m) m) = some m' ∧
    (∀ p, ∃ apiOp, m'.event p = { m.event p with apiOp }) ∧ m'.table = m.table

theorem accesses_each (act : EvHdl → OdpEvent → Option OdpEvent) (p : OdpEvt) (events : List EvHdl) :
    accesses p (events.map fun event => (event.evptr,act event)) =
      events.flatMap fun event => if event.evptr = p then [act event] else [] := by
  rw [List.map_eq_flatMap, accesses_flatMap]
  refine List.flatMap_congr fun event _ => ?_
  rw [accesses_cons]
  rfl

/-- How often an event is in an array -/
def outerUses (events : List EvHdl) (p : OdpEvt) : Nat :=
  (events.map fun event => if event.evptr = p then 1 else 0).sum

theorem outerUses_le : outerUses events p ≤ uses m events p :=
  List.sum_le_sum fun _ _ => Nat.le_add_right ..

section Blocks
variable {t j : Nat} {s r : Int} (hown : UserOwned cfg m events) (hesv : cfg.esvEnabled = true)
  (hheld : (seen cfg m events event.evptr).hdr.odpType = false → 0 < uses m events event.evptr →
    (seen cfg m events event.evptr).Held (uses m events event.evptr) t s r)
include hown hesv hheld

theorem takes_send (hevent : event ∈ events) (hj : j + 1 ≤ uses m events event.evptr) :
    Takes (At cfg .markSend 0 1 t s r (seen cfg m events event.evptr) (uses m events event.evptr) j)
      [fun e => e.evstateUsr2em cfg event]
      (At cfg .markSend 0 1 t s r (seen cfg m events event.evptr) (uses m events event.evptr) (j+1)) :=
  .single fun _ hx => At.mark hheld (v := .single) hj (.inr ⟨rfl,rfl⟩) (hown.handle hesv hevent) hx

theorem takes_unsend (hevent : event ∈ events) (hj : j + 1 ≤ uses m events event.evptr) :
    Takes (At cfg .markSend 0 1 t s r (seen cfg m events event.evptr) (uses m events event.evptr) (j+1))
      [unsendAct cfg event]
      (At cfg .markSend 0 1 t s r (seen cfg m events event.evptr) (uses m events event.evptr) j) := by
  refine .single fun x hx => ?_
  have hrevert := At.unmark hheld (v := .single) hj (.inr ⟨rfl,rfl⟩) (hown.handle hesv hevent) hx
  rw [unsendAct]
  by_cases hodp : x.hdr.odpType = true
  · rw [if_pos hodp] at hrevert ⊢
    exact hrevert
  · rw [if_neg hodp, OdpEvent.evstateUnmarkSend, At.check hheld hj (fun hodp' => ?_) hx]
    · exact hrevert
    · rw [← At.odpType hx] at hodp'
      exact absurd hodp' hodp

end Blocks

/-- What the marks make of an event, the unmarks undo. -/
theorem UserOwned.fold_sends {unmarked : List EvHdl} (hown : UserOwned cfg m events) (hesv : cfg.esvEnabled = true)
    (hunmarked : unmarked.Perm events) (p : OdpEvt) :
    ∃ y, fold (accesses p (events.map fun event => (event.evptr,fun e => e.evstateUsr2em cfg event))) (m.event p) =
        some y ∧ y.timerInd = (m.event p).timerInd ∧
      ∃ z, fold (accesses p (unmarked.map fun event => (event.evptr,unsendAct cfg event))) y = some z ∧
        ∃ apiOp, z = { m.event p with apiOp } := by
  rw [accesses_each, accesses_each]
  by_cases houter : ∃ event ∈ events, event.evptr = p
  · obtain ⟨event,hevent,hp⟩ := houter
    have hseen : seen cfg m events p = m.event p := hp ▸ hown.seen_outer hesv hevent
    obtain ⟨t,s,r,hheld⟩ := hown.counters p
    have hcount : 0 + outerUses events p ≤ uses m events p := (Nat.zero_add _).le.trans outerUses_le
    have hcount' : outerUses unmarked p = outerUses events p := (hunmarked.map _).sum_nat
    have hsend := Takes.flatMap_up (j := 0)
      (I := At cfg .markSend 0 1 t s r (seen cfg m events p) (uses m events p))
      (f := fun event : EvHdl => if event.evptr = p then [fun e : OdpEvent => e.evstateUsr2em cfg event] else [])
      (k := fun event => if event.evptr = p then 1 else 0) (n := uses m events p)
      (fun event hevent j hj => ?_) hcount
    have hunsend := Takes.flatMap_down (j := 0)
      (I := At cfg .markSend 0 1 t s r (seen cfg m events p) (uses m events p))
      (f := fun event : EvHdl => if event.evptr = p then [unsendAct cfg event] else [])
      (k := fun event => if event.evptr = p then 1 else 0) (n := uses m events p)
      (fun event hevent j hj => ?_) (by rw [← outerUses, hcount']; exact hcount)
    · obtain ⟨y,hy,hat⟩ := hsend _ (At.start hheld)
      rw [← outerUses, hcount'] at hunsend
      obtain ⟨z,hz,hzero⟩ := hunsend y hat
      have hind : y.timerInd = (seen cfg m events p).timerInd := by rw [(At.counted hat).eq]
      rw [hseen] at hy hind hzero
      rw [hseen] at hheld
      exact ⟨y,hy,hind,z,hz,At.zero hzero hheld⟩
    · by_cases hp : event.evptr = p
      · subst hp
        rw [if_pos rfl] at hj
        rw [if_pos rfl, if_pos rfl]
        exact takes_unsend hown hesv hheld (hunmarked.subset hevent) hj
      · rw [if_neg hp, if_neg hp]
        exact .nil
    · by_cases hp : event.evptr = p
      · subst hp
        rw [if_pos rfl] at hj
        rw [if_pos rfl, if_pos rfl]
        exact takes_send hown hesv hheld hevent hj
      · rw [if_neg hp, if_neg hp]
        exact .nil
  · have hnil (evs : List EvHdl) (hevs : evs ⊆ events) (act : EvHdl → OdpEvent → Option OdpEvent) :
        (evs.flatMap fun event => if event.evptr = p then [act event] else []) = [] :=
      List.flatMap_eq_nil_iff.2 fun event hevent => if_neg fun hp => houter ⟨event,hevs hevent,hp⟩
    rw [hnil events (List.Subset.refl _), hnil unmarked hunmarked.subset]
    exact ⟨_,rfl,rfl,_,rfl,_,rfl⟩

theorem UserOwned.restoresSend {unmarked : List EvHdl} (hown : UserOwned cfg m events) (hesv : cfg.esvEnabled = true)
    (hunmarked : unmarked.Perm events) : RestoresSend cfg m events unmarked := by
  have hne : ∀ event ∈ events, event ≠ emEventUndef := fun event hevent heq => hown.undef (heq ▸ hevent)
  have hfold (p : OdpEvt) := hown.fold_sends hesv hunmarked p
  choose ev hev hind ev' hev' hlast using hfold
  have hmark := foldlM_access (m := m) (f := fun event m => emEventMarkSend cfg event m true)
    (fun event hevent m hind => emEventMarkSend_eq hesv (hne event hevent) hind) (fun event e e' he => ?_) hown.timerInd
  have hunmark : unmarked.foldlM (fun m event => emEventUnmarkSend cfg event m) ⟨ev,m.table⟩ =
      (run (unmarked.map fun event => (event.evptr,unsendAct cfg event)) ev).map fun ev => ⟨ev,m.table⟩ :=
    foldlM_access (f := fun event m => emEventUnmarkSend cfg event m)
      (fun event hevent m hind => emEventUnmarkSend_eq hesv (hne event (hunmarked.subset hevent)) hind)
      (fun event e e' he => ?_) fun event hevent =>
        (hind event.evptr).trans (hown.timerInd event (hunmarked.subset hevent))
  · rw [RestoresSend, hmark, run_eq_some_iff.2 hev, Option.map_some, Option.bind_some, hunmark,
      run_eq_some_iff.2 hev']
    exact ⟨_,rfl,hlast,rfl⟩
  · rw [(unsend_counted he).eq]
  · rw [(send_counted he).eq]

end Send

/-- Marks and their unmarks, in any mix of the calls and in any order, leave everything as it was if and only if
the events in the tables have headers of their own and, with the last calls recorded, states that are kept. -/
theorem marks_undone_iff {marks unmarks : List Call} {unmarked : List EvHdl} (hesv : cfg.esvEnabled = true)
    (hown : UserOwned cfg m events) (hmarks : marks.flatMap Call.events = events)
    (hunmarks : (unmarks.flatMap Call.events).Perm events) (hunmarked : unmarked.Perm events) :
    (Restores cfg m events marks unmarks ∧ RestoresSend cfg m events unmarked) ↔
      ∀ p ∈ inner m events, (seen cfg m events p).Restorable cfg := by
  rw [← hown.restores_iff hesv hmarks hunmarks]
  exact and_iff_left (hown.restoresSend hesv hunmarked)

private def ownedEvent (p : OdpEvt) : OdpEvent :=
  let hdr : EvHdr := ⟨⟨p,evgenInit⟩,initCntAlloc,false,false⟩
  let e : OdpEvent := ⟨.buffer,hdr,false,false,.other,true,true⟩
  match p.toNat with
  | 1 => { e with type := .packetVector, hdr := ⟨⟨p,0xEFFE⟩,.ofParts 0xEFFE 0 (refCntInit - 1) sendCntInit,false,false⟩ }
  | 2 => { e with type := .packet, hdr := ⟨⟨p,evgenInit⟩,.ofParts 0x1001 0 refCntInit sendCntInit,false,false⟩, userFlag := false }
  | 3 => { e with type := .packet, hdr := ⟨⟨p,evgenInit⟩,.ofParts evgenInit 0 (refCntInit - 3) sendCntInit,true,false⟩ }
  | 4 => { e with type := .other, hdr := evhdrNonem }
  | 5 => { e with type := .vector }
  | _ => e

private def owned : Memory :=
  ⟨ownedEvent,fun p => if p = 1 then [⟨2,0⟩,⟨3,evgenInit⟩] else if p = 5 then [⟨4,0⟩,⟨6,evgenInit⟩] else []⟩

private theorem owned_valid (p : OdpEvt) : (owned.event p).Valid p := by
  change (ownedEvent p).Valid p
  rw [ownedEvent]
  split <;> refine ⟨?_,?_,?_⟩ <;> simp [OdpEvent.isVectorType, OdpEvent.EmInit]

private def ownedEvents : List EvHdl := [⟨1,0xEFFE⟩,⟨3,evgenInit⟩,⟨7,evgenInit⟩]

private theorem owned_inner {p : OdpEvt} (hp : p ∈ inner owned ownedEvents) : p = 2 ∨ p = 3 := by
  have hinner : inner owned ownedEvents = [2,3] := by decide
  rw [hinner] at hp
  simpa using hp

private theorem owned_outer {event : EvHdl} (hevent : event ∈ ownedEvents) :
    event = ⟨1,0xEFFE⟩ ∨ event = ⟨3,evgenInit⟩ ∨ event = ⟨7,evgenInit⟩ := by
  simpa [ownedEvents] using hevent

private theorem owned_events : UserOwned ⟨3,true,true,true,true⟩ owned ownedEvents where
  valid := owned_valid
  undef := by decide
  inner_ne := by decide
  timerInd := by decide
  inited := by
    intro event hevent
    rcases owned_outer hevent with rfl | rfl | rfl
    · exact ⟨.inl rfl,fun _ => rfl⟩
    · exact ⟨.inl rfl,fun _ => rfl⟩
    · exact ⟨.inl trivial,fun _ => rfl⟩
  accepted := by
    intro p hp
    rcases owned_inner hp with rfl | rfl <;> decide
  vectors := by decide
  held := by
    intro p hp _
    have hmem : p = 1 ∨ p = 2 ∨ p = 3 ∨ p = 7 := by
      rcases hp with hp | hp
      · obtain ⟨event,hevent,rfl⟩ := List.mem_map.1 hp
        rcases owned_outer hevent with rfl | rfl | rfl <;> decide
      · rcases owned_inner hp with rfl | rfl <;> decide
    -- the generation of the vector restarts with the mark
    rcases hmem with rfl | rfl | rfl | rfl
    · exact ⟨0xDFFE,0,1,by decide,by decide,by decide,by decide,by decide⟩
    · exact ⟨1,0,1,by decide,by decide,by decide,by decide,by decide⟩
    · exact ⟨0,0,3,by decide,by decide,by decide,by decide,by decide⟩
    · exact ⟨0,0,1,by decide,by decide,by decide,by decide,by decide⟩
  current := by decide
  unmarked := by
    intro p hp
    rcases owned_inner hp with rfl | rfl <;> decide

/-- A packet vector with a packet from outside and a reference, the reference itself and a buffer; the state of
the vector restarts its generations. -/
theorem marks_undone_iff_mixed :
    Restores ⟨3,true,true,true,true⟩ owned ownedEvents [.single ⟨1,0xEFFE⟩,.multi [⟨3,evgenInit⟩,⟨7,evgenInit⟩]]
        [.multi [⟨7,evgenInit⟩,⟨1,0xEFFE⟩],.single ⟨3,evgenInit⟩] ∧
      RestoresSend ⟨3,true,true,true,true⟩ owned ownedEvents ownedEvents := by
  refine (marks_undone_iff rfl owned_events rfl (by decide) (List.Perm.refl _)).2 fun p hp => ?_
  rcases owned_inner hp with rfl | rfl
  · exact ⟨by decide,by decide⟩
  · exact ⟨by decide,by decide⟩

private theorem foreign_inner {p : OdpEvt} (hp : p ∈ inner owned [⟨5,evgenInit⟩]) : p = 4 ∨ p = 6 := by
  have hinner : inner owned [⟨5,evgenInit⟩] = [4,6] := by decide
  rw [hinner] at hp
  simpa using hp

private theorem foreign_outer {event : EvHdl} (hevent : event ∈ [(⟨5,evgenInit⟩ : EvHdl)]) : event = ⟨5,evgenInit⟩ :=
  List.mem_singleton.1 hevent

private theorem foreign_events : UserOwned ⟨3,true,true,false,true⟩ owned [⟨5,evgenInit⟩] where
  valid := owned_valid
  undef := by decide
  inner_ne := by decide
  timerInd := by decide
  inited := by
    intro event hevent
    rw [foreign_outer hevent]
    exact ⟨.inl rfl,fun _ => rfl⟩
  accepted := by
    intro p hp
    rcases foreign_inner hp with rfl | rfl <;> decide
  vectors := by decide
  held := by
    intro p hp hodp
    have hmem : p = 4 ∨ p = 5 ∨ p = 6 := by
      rcases hp with hp | hp
      · obtain ⟨event,hevent,rfl⟩ := List.mem_map.1 hp
        rw [foreign_outer hevent]
        decide
      · rcases foreign_inner hp with rfl | rfl <;> decide
    rcases hmem with rfl | rfl | rfl
    · exact absurd hodp (by decide)
    · exact ⟨0,0,1,by decide,by decide,by decide,by decide,by decide⟩
    · exact ⟨0,0,1,by decide,by decide,by decide,by decide,by decide⟩
  current := by decide
  unmarked := by
    intro p hp
    rcases foreign_inner hp with rfl | rfl <;> decide

/-- A vector with an event of another type of ODP's: the unmark puts the handle of the header all such events
share into its table. -/
theorem foreign_event_lost : UserOwned ⟨3,true,true,false,true⟩ owned [⟨5,evgenInit⟩] ∧
    ¬Restores ⟨3,true,true,false,true⟩ owned [⟨5,evgenInit⟩] [.single ⟨5,evgenInit⟩] [.single ⟨5,evgenInit⟩] := by
  refine ⟨foreign_events,?_⟩
  rintro ⟨m',hrun,hbefore⟩
  have hafter : ((markCalls ⟨3,true,true,false,true⟩ [.single ⟨5,evgenInit⟩] owned).bind
      (unmarkCalls ⟨3,true,true,false,true⟩ [.single ⟨5,evgenInit⟩])).map (fun m => m.table 5) =
        some [emEventUndef,⟨6,evgenInit⟩] := by decide
  have hshown : (owned.eventVectorTbl ⟨3,true,true,false,true⟩ 5).map (fun m => m.table 5) =
      some [⟨4,0⟩,⟨6,evgenInit⟩] := by decide
  have htable := hbefore.table ⟨5,evgenInit⟩ List.mem_cons_self (by decide)
  rw [hrun, Option.map_some, Option.some.injEq] at hafter
  dsimp only at htable
  rw [hshown, hafter, Option.some.injEq] at htable
  exact absurd htable (by decide)

end EmOdp.EventFree
