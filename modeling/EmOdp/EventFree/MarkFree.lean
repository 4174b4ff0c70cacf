import EmOdp.EventFree.Accesses

/-! The calls that mark events as free or sent without a free or a send, and those that take it back. -/
namespace EmOdp.EventFree
open EventState Lib.Pointwise

namespace OdpEvent
variable (cfg : Config) (op : ApiOp) (event : EvHdl) (e : OdpEvent)

/-- `check_valid_unmark`; the last call is not known of events with references. -/
def checkValidUnmark : Option OdpEvent :=
  if cfg.storeState ∧ e.hdr.refsUsed = false ∧ e.apiOp ≠ op then none else some e

/-- `evstate_unmark_free` -/
def evstateUnmarkFree : Option OdpEvent :=
  (e.checkValidUnmark cfg .markFree).bind fun e => e.esvUsr2em cfg .other .single event cntFree true

/-- `evstate_free_revert_multi` for one event -/
def evstateFreeRevertMulti : Option OdpEvent :=
  if e.hdr.odpType then some e else e.esvUsr2em cfg .other .multi event cntFree true

/-- `evstate_usr2em` of `em_event_mark_send` -/
def evstateUsr2em : Option OdpEvent :=
  if e.hdr.odpType then some e else e.esvUsr2em cfg .markSend .single event cntSend false

/-- `evstate_unmark_send` -/
def evstateUnmarkSend : Option OdpEvent :=
  (e.checkValidUnmark cfg .markSend).bind fun e =>
    if e.hdr.odpType then some e else e.esvUsr2em cfg .other .single event cntSend true

end OdpEvent

/-- `evstate_unmark_free_multi`: all events are checked first. -/
def evstateUnmarkFreeMulti (cfg : Config) (events : List EvHdl) (evHdrs : List OdpEvt)
    (m : OdpEvt → OdpEvent) : Option (OdpEvt → OdpEvent) :=
  (run (evHdrs.map fun evHdr => (evHdr,fun e => e.checkValidUnmark cfg .markFree)) m).bind
    (run (events.zipWith (fun event evHdr => (evHdr,fun e => e.evstateFreeRevertMulti cfg event)) evHdrs))

/-- `event_vector_prepare_free_full__revert` -/
def Memory.eventVectorPrepareFreeFullRevert (cfg : Config) (odpEvent : OdpEvt) (m : Memory) :
    Option Memory := do
  let m ← m.eventVectorTbl cfg odpEvent
  let tbl := m.table odpEvent
  let event ← evstateUnmarkFreeMulti cfg tbl (tbl.map EvHdl.evptr) m.event
  return ⟨event,Function.update m.table odpEvent (tbl.map fun hdl => (event hdl.evptr).hdr.event)⟩

section Calls
variable (cfg : Config) (event : EvHdl) (events : List EvHdl) (m : Memory)

/-- What `em_event_mark_free`, and `em_event_mark_free_multi` in its loop, do for an event -/
def markFreeOne : Option Memory :=
  let e := m.event event.evptr
  if e.hdr.odpType then some m
  else if 0 < cfg.checkLevel ∧ e.timerInd then some m
  else do
    let m ← m.access event.evptr fun e => e.evstateFree cfg .markFree event
    if e.isVectorType then m.eventVectorPrepareFreeFull cfg .markFree event.evptr else some m

def emEventMarkFree : Option Memory :=
  if !cfg.esvEnabled then some m
  else if 0 < cfg.checkLevel ∧ event = emEventUndef then some m
  else markFreeOne cfg event m

def emEventMarkFreeMulti : Option Memory :=
  if !cfg.esvEnabled then some m
  else if 3 ≤ cfg.checkLevel ∧ emEventUndef ∈ events then some m
  else events.foldlM (fun m event => markFreeOne cfg event m) m

/-- What `em_event_unmark_free`, and `em_event_unmark_free_multi` in its loop, do for an event -/
def unmarkFreeOne : Option Memory :=
  let e := m.event event.evptr
  if e.hdr.odpType then some m
  else if 0 < cfg.checkLevel ∧ e.timerInd then some m
  else do
    let m ← m.access event.evptr fun e => e.evstateUnmarkFree cfg event
    if e.isVectorType then m.eventVectorPrepareFreeFullRevert cfg event.evptr else some m

def emEventUnmarkFree : Option Memory :=
  if !cfg.esvEnabled then some m
  else if 0 < cfg.checkLevel ∧ event = emEventUndef then some m
  else unmarkFreeOne cfg event m

def emEventUnmarkFreeMulti : Option Memory :=
  if !cfg.esvEnabled then some m
  else if 3 ≤ cfg.checkLevel ∧ emEventUndef ∈ events then some m
  else events.foldlM (fun m event => unmarkFreeOne cfg event m) m

/-- `em_event_mark_send`, where `schedQueue` says that the queue is allocated and scheduled -/
def emEventMarkSend (schedQueue : Bool) : Option Memory :=
  if !cfg.esvEnabled then some m
  else if 0 < cfg.checkLevel ∧ event = emEventUndef then some m
  else
    let e := m.event event.evptr
    if e.hdr.odpType then some m
    else if 3 ≤ cfg.checkLevel ∧ !schedQueue then some m
    else if 0 < cfg.checkLevel ∧ e.timerInd then some m
    else m.access event.evptr fun e => e.evstateUsr2em cfg event

def emEventUnmarkSend : Option Memory :=
  if !cfg.esvEnabled then some m
  else if 0 < cfg.checkLevel ∧ event = emEventUndef then some m
  else
    let e := m.event event.evptr
    if e.hdr.odpType then some m
    else if 0 < cfg.checkLevel ∧ e.timerInd then some m
    else m.access event.evptr fun e => e.evstateUnmarkSend cfg event

end Calls

/-- A call for one event, or for an array -/
inductive Call where
  | single (event : EvHdl)
  | multi (events : List EvHdl)

def Call.events : Call → List EvHdl
  | .single event => [event]
  | .multi events => events

def Call.mark (cfg : Config) : Call → Memory → Option Memory
  | .single event => emEventMarkFree cfg event
  | .multi events => emEventMarkFreeMulti cfg events

def Call.unmark (cfg : Config) : Call → Memory → Option Memory
  | .single event => emEventUnmarkFree cfg event
  | .multi events => emEventUnmarkFreeMulti cfg events

def markCalls (cfg : Config) (calls : List Call) (m : Memory) : Option Memory :=
  calls.foldlM (fun m call => call.mark cfg m) m

def unmarkCalls (cfg : Config) (calls : List Call) (m : Memory) : Option Memory :=
  calls.foldlM (fun m call => call.unmark cfg m) m

variable {cfg : Config} {op : ApiOp} {m m' : Memory} {events : List EvHdl} {event : EvHdl} {calls : List Call}
  {ev : OdpEvt → OdpEvent} {e e' : OdpEvent} {p : OdpEvt} {tbl : List OdpEvt}

/-- Calls that each go through their events -/
private theorem foldlM_calls {act : Call → Memory → Option Memory} {one : EvHdl → Memory → Option Memory}
    (hact : ∀ call ∈ calls, ∀ m, act call m = call.events.foldlM (fun m event => one event m) m) :
    calls.foldlM (fun m call => act call m) m =
      (calls.flatMap Call.events).foldlM (fun m event => one event m) m := by
  induction calls generalizing m with
  | nil => rfl
  | cons call calls ih =>
    obtain ⟨hcall,hcalls⟩ := List.forall_mem_cons.1 hact
    rw [List.flatMap_cons, List.foldlM_append, ← hcall, List.foldlM_cons]
    exact congrArg _ (funext fun m => ih hcalls)

private theorem Call.mark_eq {call : Call} (hesv : cfg.esvEnabled = true) (hdefined : emEventUndef ∉ call.events)
    (m : Memory) : call.mark cfg m = call.events.foldlM (fun m event => markFreeOne cfg event m) m := by
  cases call with
  | single event =>
    have hne : event ≠ emEventUndef := fun hc => hdefined (List.mem_singleton.2 hc.symm)
    rw [Call.mark, emEventMarkFree, if_neg (by rw [hesv]; decide), if_neg fun hc => hne hc.2, Call.events,
      List.foldlM_cons]
    exact (bind_pure _).symm
  | multi events =>
    rw [Call.mark, emEventMarkFreeMulti, if_neg (by rw [hesv]; decide), if_neg fun hc => hdefined hc.2]
    rfl

private theorem Call.unmark_eq {call : Call} (hesv : cfg.esvEnabled = true)
    (hdefined : emEventUndef ∉ call.events) (m : Memory) :
    call.unmark cfg m = call.events.foldlM (fun m event => unmarkFreeOne cfg event m) m := by
  cases call with
  | single event =>
    have hne : event ≠ emEventUndef := fun hc => hdefined (List.mem_singleton.2 hc.symm)
    rw [Call.unmark, emEventUnmarkFree, if_neg (by rw [hesv]; decide), if_neg fun hc => hne hc.2, Call.events,
      List.foldlM_cons]
    exact (bind_pure _).symm
  | multi events =>
    rw [Call.unmark, emEventUnmarkFreeMulti, if_neg (by rw [hesv]; decide), if_neg fun hc => hdefined hc.2]
    rfl

theorem markCalls_eq (hesv : cfg.esvEnabled = true) (hdefined : emEventUndef ∉ calls.flatMap Call.events) :
    markCalls cfg calls m = (calls.flatMap Call.events).foldlM (fun m event => markFreeOne cfg event m) m :=
  foldlM_calls fun call hmem => call.mark_eq hesv fun hin => hdefined (List.mem_flatMap.2 ⟨call,hmem,hin⟩)

theorem unmarkCalls_eq (hesv : cfg.esvEnabled = true) (hdefined : emEventUndef ∉ calls.flatMap Call.events) :
    unmarkCalls cfg calls m =
      (calls.flatMap Call.events).foldlM (fun m event => unmarkFreeOne cfg event m) m :=
  foldlM_calls fun call hmem => call.unmark_eq hesv fun hin => hdefined (List.mem_flatMap.2 ⟨call,hmem,hin⟩)

/-- Marking an event does what its free does to the states. -/
theorem markFree_eq (hesv : cfg.esvEnabled = true) (hvalid : ∀ p, (m.event p).Valid p)
    (hind : ∀ event ∈ events, (m.event event.evptr).timerInd = false) :
    events.foldlM (fun m event => markFreeOne cfg event m) m =
      (run (events.flatMap (freeAccesses cfg .markFree m)) m.event).map fun ev =>
        ⟨ev,freedTables m.event events m.table⟩ := by
  induction events generalizing m with
  | nil => rfl
  | cons event events ih =>
    have hone : markFreeOne cfg event m = freeOne cfg .markFree event m := by
      have hno : ¬(0 < cfg.checkLevel ∧ (m.event event.evptr).timerInd = true) := by
        intro hc
        rw [hind event List.mem_cons_self] at hc
        cases hc.2
      rw [markFreeOne, freeOne, if_neg hno]
    rw [List.foldlM_cons, hone, freeOne_eq hesv hvalid, List.flatMap_cons, run_append, Option.bind_eq_bind,
      Option.bind_map, Option.map_bind]
    refine Option.bind_congr fun ev hrun => ?_
    have hfrom : From m ⟨ev,freedTable m event⟩ :=
      From.run hesv hvalid (fun acc hacc => .of_mem hacc) odpTbl_freedTable hrun
    have hind' : ∀ event ∈ events, (ev event.evptr).timerInd = false := fun event hevent =>
      (hfrom.kept event.evptr).timerInd (hind event (List.mem_cons_of_mem _ hevent))
    rw [Function.comp_apply, ih hfrom.valid hind', hfrom.freeAccesses, hfrom.freedTables]
    rfl

section Unmark

def checkAct (cfg : Config) (_ : OdpEvt) (e : OdpEvent) : Option OdpEvent := e.checkValidUnmark cfg .markFree

def revertAct (cfg : Config) (p : OdpEvt) (e : OdpEvent) : Option OdpEvent :=
  e.evstateFreeRevertMulti cfg (e.handle p)

/-- What is undone for the events of a table -/
def revertAccesses (cfg : Config) (tbl : List OdpEvt) : List Access :=
  (tbl.map fun p => (p,initAct cfg p)) ++
    ((tbl.map fun p => (p,checkAct cfg p)) ++ tbl.map fun p => (p,revertAct cfg p))

def unmarkAct (cfg : Config) (event : EvHdl) (e : OdpEvent) : Option OdpEvent :=
  if e.hdr.odpType then some e else e.evstateUnmarkFree cfg event

def unmarkAccesses (cfg : Config) (m : Memory) (event : EvHdl) : List Access :=
  (event.evptr,unmarkAct cfg event) ::
    if (m.event event.evptr).isVectorType then revertAccesses cfg (m.odpTbl event.evptr) else []

theorem checkValidUnmark_some (h : e.checkValidUnmark cfg op = some e') : e' = e := by
  rw [OdpEvent.checkValidUnmark] at h
  split at h <;> cases h
  rfl

/-- Only the counters change, and what is known of the last call. -/
structure Counted (e e' : OdpEvent) : Prop where
  eq : e' = { e with hdr := { e.hdr with stateCnt := e'.hdr.stateCnt }, apiOp := e'.apiOp }
  odpType : e.hdr.odpType = true → e' = e

theorem Counted.refl (e : OdpEvent) : Counted e e := ⟨rfl,fun _ => rfl⟩

theorem Counted.kept (h : Counted e e') (hvalid : e.Valid p) : e'.Valid p ∧ OdpEvent.Kept e e' ∧
    e'.handle p = e.handle p := by
  by_cases hother : e.type = .other
  · rw [h.odpType (by rw [(hvalid.nonem hother).1]; rfl)]
    exact ⟨hvalid,.refl e,rfl⟩
  · rw [h.eq]
    exact ⟨hvalid.counted hother,⟨rfl,fun _ => rfl,id⟩,rfl⟩

theorem Counted.inited (h : Counted e e') (hinit : e.Inited p) :
    e'.Inited p ∧ e'.hdr.event = e.hdr.event := by
  rw [h.eq]
  exact ⟨⟨hinit.init,hinit.evptr⟩,rfl⟩

theorem revert_counted {hdl : EvHdl} (h : e.evstateFreeRevertMulti cfg hdl = some e') : Counted e e' := by
  rw [OdpEvent.evstateFreeRevertMulti] at h
  split at h
  · cases h
    exact .refl e
  · rename_i hodp
    exact ⟨OdpEvent.esvUsr2em_eq h,fun hc => absurd hc hodp⟩

theorem unmarkAct_counted (h : unmarkAct cfg event e = some e') : Counted e e' := by
  rw [unmarkAct] at h
  split at h
  · cases h
    exact .refl e
  · rename_i hodp
    rw [OdpEvent.evstateUnmarkFree, Option.bind_eq_some_iff] at h
    obtain ⟨e'',hcheck,h⟩ := h
    rw [checkValidUnmark_some hcheck] at h
    exact ⟨OdpEvent.esvUsr2em_eq h,fun hc => absurd hc hodp⟩

theorem run_check (h : run (tbl.map fun p => (p,checkAct cfg p)) ev = some ev') : ev' = ev := by
  refine funext fun p => ?_
  refine run_preserves (I := fun p e => e = ev p) (fun acc hacc x y hx hy => ?_) (fun _ => rfl) h p
  obtain ⟨q,-,rfl⟩ := List.mem_map.1 hacc
  rw [← hx]
  exact checkValidUnmark_some hy

theorem prepareFreeFullRevert_eq {odpEvent : OdpEvt} (hesv : cfg.esvEnabled = true)
    (hvalid : ∀ p, (m.event p).Valid p) : m.eventVectorPrepareFreeFullRevert cfg odpEvent =
      (run (revertAccesses cfg (m.odpTbl odpEvent)) m.event).map fun ev =>
        ⟨ev,Function.update m.table odpEvent ((m.odpTbl odpEvent).map fun p => (ev p).hdr.event)⟩ := by
  rw [Memory.eventVectorPrepareFreeFullRevert, Memory.eventVectorTbl, revertAccesses, run_append]
  rw [if_pos hesv, map_em2odp, ← Memory.odpTbl, initTbl_eq hesv hvalid]
  cases hrun : run ((m.odpTbl odpEvent).map fun p => (p,initAct cfg p)) m.event with
  | none => rfl
  | some event' =>
    have hinit := run_init_valid hesv hvalid hrun
    have hptr : ∀ p ∈ m.odpTbl odpEvent, ((event' p).handle p).evptr = p :=
      fun p hp => ((hinit p).2.2 hp).handle_evptr
    have hsame : ((m.odpTbl odpEvent).map fun p => (event' p).handle p).map EvHdl.evptr =
        m.odpTbl odpEvent := by
      rw [List.map_map]
      exact (List.map_congr_left hptr).trans (List.map_id _)
    rw [Option.map_some, Option.map_some, Option.bind_eq_bind, Option.bind_some, Option.bind_some]
    dsimp only
    rw [Function.update_self, evstateUnmarkFreeMulti, run_append, Option.bind_eq_bind, Option.bind_assoc,
      Option.map_bind, hsame]
    refine Option.bind_congr fun event'' hcheck => ?_
    have heq : event'' = event' := run_check hcheck
    rw [heq, Function.comp_apply]
    have hrevert : run (((m.odpTbl odpEvent).map fun p => (event' p).handle p).zipWith
        (fun event evHdr => (evHdr,fun e => e.evstateFreeRevertMulti cfg event))
        (((m.odpTbl odpEvent).map fun p => (event' p).handle p).map EvHdl.evptr)) event' =
          run ((m.odpTbl odpEvent).map fun p => (p,revertAct cfg p)) event' := by
      refine run_handles (fun p hdl e e' hvalid hrevert => ?_) hptr (fun p => (hinit p).1) fun _ _ => rfl
      obtain ⟨hvalid',-,hhandle⟩ := (revert_counted hrevert).kept hvalid
      exact ⟨hvalid',hhandle⟩
    rw [hsame] at hrevert
    rw [hrevert, Option.map_eq_bind]
    refine Option.bind_congr fun ev _ => congrArg some ?_
    rw [Function.update_idem]
    dsimp only
    refine congrArg (fun tbl => Memory.mk ev (Function.update m.table odpEvent tbl)) ?_
    rw [List.map_map]
    refine List.map_congr_left fun p hp => ?_
    rw [Function.comp_apply, hptr p hp]

/-- The accesses of unmarks -/
def UnmarkAccess (cfg : Config) (acc : Access) : Prop :=
  (∃ event : EvHdl, acc = (event.evptr,unmarkAct cfg event)) ∨
    acc.2 = initAct cfg acc.1 ∨ acc.2 = checkAct cfg acc.1 ∨ acc.2 = revertAct cfg acc.1

theorem UnmarkAccess.of_mem {acc : Access} (h : acc ∈ unmarkAccesses cfg m event) : UnmarkAccess cfg acc := by
  rcases List.mem_cons.1 h with rfl | h
  · exact .inl ⟨event,rfl⟩
  split at h
  · rcases List.mem_append.1 h with h | h
    · obtain ⟨p,-,rfl⟩ := List.mem_map.1 h
      exact .inr (.inl rfl)
    rcases List.mem_append.1 h with h | h
    · obtain ⟨p,-,rfl⟩ := List.mem_map.1 h
      exact .inr (.inr (.inl rfl))
    · obtain ⟨p,-,rfl⟩ := List.mem_map.1 h
      exact .inr (.inr (.inr rfl))
  · cases h

/-- An access either initializes an event or leaves all but its counters. -/
theorem UnmarkAccess.counted {acc : Access} (h : UnmarkAccess cfg acc) (hstep : acc.2 e = some e') :
    acc.2 = initAct cfg acc.1 ∨ Counted e e' := by
  rcases h with ⟨event,rfl⟩ | h | h | h
  · exact .inr (unmarkAct_counted hstep)
  · exact .inl h
  · rw [h] at hstep
    rw [checkValidUnmark_some hstep]
    exact .inr (.refl e)
  · rw [h] at hstep
    exact .inr (revert_counted hstep)

theorem UnmarkAccess.kept {acc : Access} (h : UnmarkAccess cfg acc) (hesv : cfg.esvEnabled = true)
    (hvalid : e.Valid acc.1) (hstep : acc.2 e = some e') : e'.Valid acc.1 ∧ OdpEvent.Kept e e' := by
  rcases h.counted hstep with hinit | hcounted
  · rw [hinit] at hstep
    obtain ⟨-,-,hrest⟩ := initAct_inited hesv hvalid hstep
    exact hrest
  · obtain ⟨hvalid',hkept,-⟩ := hcounted.kept hvalid
    exact ⟨hvalid',hkept⟩

theorem UnmarkAccess.inited {acc : Access} (h : UnmarkAccess cfg acc) (hesv : cfg.esvEnabled = true)
    (hinit : e.Inited acc.1) (hstep : acc.2 e = some e') :
    e'.Inited acc.1 ∧ e'.hdr.event = e.hdr.event := by
  rcases h.counted hstep with hact | hcounted
  · rw [hact, initAct_again hesv hinit] at hstep
    cases hstep
    exact ⟨hinit,rfl⟩
  · exact hcounted.inited hinit

theorem unmarkOne_eq (hesv : cfg.esvEnabled = true) (hvalid : ∀ p, (m.event p).Valid p)
    (hind : (m.event event.evptr).timerInd = false) : unmarkFreeOne cfg event m =
      (run (unmarkAccesses cfg m event) m.event).map fun ev => ⟨ev,
        if (m.event event.evptr).isVectorType then
          Function.update m.table event.evptr ((m.odpTbl event.evptr).map fun p => (ev p).hdr.event)
        else m.table⟩ := by
  have hno : ¬(0 < cfg.checkLevel ∧ (m.event event.evptr).timerInd = true) := by
    intro hc
    rw [hind] at hc
    cases hc.2
  rw [unmarkFreeOne, if_neg hno, unmarkAccesses, run_cons]
  by_cases hodp : (m.event event.evptr).hdr.odpType = true
  · have hvector : ¬(m.event event.evptr).isVectorType = true := by
      intro hc
      rw [(hvalid event.evptr).typed (.inr hc)] at hodp
      cases hodp
    rw [if_pos hodp, if_neg hvector, unmarkAct, if_pos hodp, Option.bind_some, Function.update_eq_self]
    simp only [if_neg hvector]
    rfl
  · rw [if_neg hodp, Memory.access, unmarkAct, if_neg hodp, Option.bind_eq_bind, Option.bind_map, Option.map_bind]
    refine Option.bind_congr fun e hact => ?_
    rw [Function.comp_apply, Function.comp_apply]
    by_cases hvector : (m.event event.evptr).isVectorType = true
    · have hvalid' (p : OdpEvt) : (Function.update m.event event.evptr e p).Valid p := by
        by_cases hp : p = event.evptr
        · have hunmark : unmarkAct cfg event (m.event event.evptr) = some e := by
            rw [unmarkAct, if_neg hodp]
            exact hact
          rw [hp, Function.update_self]
          exact ((unmarkAct_counted hunmark).kept (hvalid event.evptr)).1
        · rw [Function.update_of_ne hp]
          exact hvalid p
      simp only [if_pos hvector]
      exact prepareFreeFullRevert_eq hesv hvalid'
    · simp only [if_neg hvector]
      rfl

/-- The tables once vectors have been unmarked -/
def restoredTable (m : Memory) (hdl : OdpEvt → EvHdl) (events : List EvHdl) (v : OdpEvt) : List EvHdl :=
  if (m.event v).isVectorType = true ∧ v ∈ events.map EvHdl.evptr then (m.odpTbl v).map hdl else m.table v

/-- Unmarking events that have been initialized gives each vector the handles in the headers. -/
theorem unmarkFree_eq {hdl : OdpEvt → EvHdl} (hesv : cfg.esvEnabled = true)
    (hvalid : ∀ p, (m.event p).Valid p) (hind : ∀ event ∈ events, (m.event event.evptr).timerInd = false)
    (hhdl : ∀ event ∈ events, (m.event event.evptr).isVectorType = true →
      ∀ p ∈ m.odpTbl event.evptr, (m.event p).Inited p ∧ (m.event p).hdr.event = hdl p)
    (honce : events.Pairwise fun a b => (m.event a.evptr).isVectorType = true → a.evptr ≠ b.evptr) :
    events.foldlM (fun m event => unmarkFreeOne cfg event m) m =
      (run (events.flatMap (unmarkAccesses cfg m)) m.event).map fun ev =>
        ⟨ev,restoredTable m hdl events⟩ := by
  induction events generalizing m with
  | nil =>
    refine congrArg some (congrArg (Memory.mk m.event) (funext fun v => ?_))
    rw [restoredTable, if_neg fun hc => List.not_mem_nil hc.2]
  | cons event events ih =>
    obtain ⟨hhead,honce⟩ := List.pairwise_cons.1 honce
    rw [List.foldlM_cons, unmarkOne_eq hesv hvalid (hind event List.mem_cons_self), List.flatMap_cons, run_append,
      Option.bind_eq_bind, Option.bind_map, Option.map_bind]
    refine Option.bind_congr fun ev hrun => ?_
    rw [Function.comp_apply, Function.comp_apply]
    generalize hm' : (⟨ev,if (m.event event.evptr).isVectorType then
        Function.update m.table event.evptr ((m.odpTbl event.evptr).map fun p => (ev p).hdr.event)
      else m.table⟩ : Memory) = m'
    have hev : m'.event = ev := by rw [← hm']
    have hkept (p : OdpEvt) : (m'.event p).Valid p ∧ OdpEvent.Kept (m.event p) (m'.event p) := by
      rw [hev]
      refine run_preserves (I := fun p e => e.Valid p ∧ OdpEvent.Kept (m.event p) e)
        (fun acc hacc x y hx hy => ?_) (fun p => ⟨hvalid p,.refl _⟩) hrun p
      obtain ⟨hvalid',hkept⟩ := (UnmarkAccess.of_mem hacc).kept hesv hx.1 hy
      exact ⟨hvalid',hx.2.trans hkept⟩
    have hinited (p : OdpEvt) (hp : (m.event p).Inited p) :
        (m'.event p).Inited p ∧ (m'.event p).hdr.event = (m.event p).hdr.event := by
      rw [hev]
      refine run_preserves (I := fun q e => q = p → e.Inited q ∧ e.hdr.event = (m.event p).hdr.event)
        (fun acc hacc x y hx hy heq => ?_) (fun q hq => by rw [hq]; exact ⟨hp,rfl⟩) hrun p rfl
      obtain ⟨hinit,hsame⟩ := hx heq
      obtain ⟨hinit',hsame'⟩ := (UnmarkAccess.of_mem hacc).inited hesv hinit hy
      exact ⟨hinit',hsame'.trans hsame⟩
    have hvector (v : OdpEvt) : (m'.event v).isVectorType = (m.event v).isVectorType := by
      rw [OdpEvent.isVectorType, OdpEvent.isVectorType, (hkept v).2.type]
    have htable (v : OdpEvt) : m'.table v = if (m.event v).isVectorType = true ∧ v = event.evptr then
        (m.odpTbl v).map hdl else m.table v := by
      rw [← hm']
      dsimp only
      by_cases hv : v = event.evptr
      · rw [hv]
        by_cases hc : (m.event event.evptr).isVectorType = true
        · rw [if_pos hc, if_pos ⟨hc,rfl⟩, Function.update_self]
          refine List.map_congr_left fun p hp => ?_
          obtain ⟨hinit,hsame⟩ := hhdl event List.mem_cons_self hc p hp
          rw [← hev, (hinited p hinit).2, hsame]
        · rw [if_neg hc, if_neg fun h => hc h.1]
      · by_cases hc : (m.event event.evptr).isVectorType = true
        · rw [if_pos hc, Function.update_of_ne hv, if_neg fun h => hv h.2]
        · rw [if_neg hc, if_neg fun h => hv h.2]
    have hother (v : OdpEvt) (hv : v ∈ events.map EvHdl.evptr) : m'.table v = m.table v := by
      rw [htable, if_neg]
      rintro ⟨hc,rfl⟩
      obtain ⟨event',hmem,heq⟩ := List.mem_map.1 hv
      exact hhead event' hmem hc heq.symm
    have hodp (v : OdpEvt) (hv : v ∈ events.map EvHdl.evptr) : m'.odpTbl v = m.odpTbl v := by
      rw [Memory.odpTbl, Memory.odpTbl, hother v hv]
    have haccs : events.flatMap (unmarkAccesses cfg m') = events.flatMap (unmarkAccesses cfg m) := by
      refine List.flatMap_congr fun event' hmem => ?_
      rw [unmarkAccesses, unmarkAccesses, hvector, hodp _ (List.mem_map_of_mem hmem)]
    rw [ih (m := m') (fun p => (hkept p).1) (fun event' hmem => (hkept _).2.timerInd
      (hind event' (List.mem_cons_of_mem _ hmem))) ?_ ?_, haccs, hev]
    · refine congrArg (fun table => Option.map (fun ev => Memory.mk ev table) _) (funext fun v => ?_)
      rw [restoredTable, restoredTable, hvector]
      by_cases hv : v ∈ events.map EvHdl.evptr
      · by_cases hc : (m.event v).isVectorType = true
        · rw [if_pos ⟨hc,hv⟩, if_pos ⟨hc,List.mem_cons_of_mem _ hv⟩, hodp v hv]
        · rw [if_neg fun h => hc h.1, if_neg fun h => hc h.1, hother v hv]
      · rw [if_neg fun h => hv h.2, htable]
        refine if_congr (and_congr_right fun _ => ?_) rfl rfl
        rw [List.map_cons, List.mem_cons]
        exact (or_iff_left hv).symm
    · intro event' hmem hc p hp
      rw [hvector] at hc
      rw [hodp _ (List.mem_map_of_mem hmem)] at hp
      obtain ⟨hinit,hsame⟩ := hhdl event' (List.mem_cons_of_mem _ hmem) hc p hp
      obtain ⟨hinit',hsame'⟩ := hinited p hinit
      exact ⟨hinit',hsame'.trans hsame⟩
    · refine honce.imp fun {a b} hab hc => hab ?_
      rw [← hvector]
      exact hc

end Unmark
end EmOdp.EventFree
