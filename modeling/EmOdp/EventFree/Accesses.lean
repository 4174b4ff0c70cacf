import EmOdp.EventFree.Memory

/-! What the free of an event, or its mark as free, accesses: its own header and those of the events in its
table. -/
namespace EmOdp.EventFree
open EventState Lib.Pointwise

def Memory.access (odpEvent : OdpEvt) (act : OdpEvent → Option OdpEvent) (m : Memory) : Option Memory :=
  (act (m.event odpEvent)).map fun e => { m with event := Function.update m.event odpEvent e }

/-- An access to the event at an address -/
abbrev Access := OdpEvt × (OdpEvent → Option OdpEvent)

variable {cfg : Config} {op : ApiOp} {m m' : Memory} {events : List EvHdl} {event : EvHdl}
  {ev : OdpEvt → OdpEvent} {e e' : OdpEvent}

/-- The free of an event itself, nothing is done for the type `EM_EVENT_TYPE_ODP` -/
def outerAct (cfg : Config) (op : ApiOp) (event : EvHdl) (e : OdpEvent) : Option OdpEvent :=
  e.evstateFreeMulti cfg op event

theorem evstateFree_eq (hodp : e.hdr.odpType = false) :
    e.evstateFree cfg op event = outerAct cfg op event e := by
  rw [outerAct, OdpEvent.evstateFreeMulti, if_neg (by rw [hodp]; decide)]
  exact OdpEvent.esvUsr2em_variant ..

/-- The free of the events in the table of a vector -/
def vectorAccesses (cfg : Config) (op : ApiOp) (m : Memory) (event : EvHdl) : List Access :=
  if (m.event event.evptr).isVectorType then tableAccesses cfg op (m.odpTbl event.evptr) else []

def freeAccesses (cfg : Config) (op : ApiOp) (m : Memory) (event : EvHdl) : List Access :=
  (event.evptr,outerAct cfg op event) :: vectorAccesses cfg op m event

/-- The accesses of frees -/
def FreeAccess (cfg : Config) (op : ApiOp) (acc : Access) : Prop :=
  (∃ event : EvHdl, acc = (event.evptr,outerAct cfg op event)) ∨ ∃ tbl, acc ∈ tableAccesses cfg op tbl

theorem FreeAccess.vector {acc : Access} (h : acc ∈ vectorAccesses cfg op m event) :
    FreeAccess cfg op acc := by
  rw [vectorAccesses] at h
  split at h
  · exact .inr ⟨_,h⟩
  · cases h

theorem FreeAccess.of_mem {acc : Access} (h : acc ∈ freeAccesses cfg op m event) : FreeAccess cfg op acc := by
  rcases List.mem_cons.1 h with rfl | h
  · exact .inl ⟨event,rfl⟩
  · exact .vector h

theorem FreeAccess.kept {acc : Access} (hesv : cfg.esvEnabled = true) (hacc : FreeAccess cfg op acc)
    (h : e.Valid acc.1) (hstep : acc.2 e = some e') : e'.Valid acc.1 ∧ OdpEvent.Kept e e' := by
  rcases hacc with ⟨event,rfl⟩ | ⟨tbl,hacc⟩
  · obtain ⟨hvalid,hkept,-⟩ := h.evstateFreeMulti hstep
    exact ⟨hvalid,hkept⟩
  rcases List.mem_append.1 hacc with hacc | hacc
  · obtain ⟨p,-,rfl⟩ := List.mem_map.1 hacc
    obtain ⟨-,-,hrest⟩ := initAct_inited hesv h hstep
    exact hrest
  · obtain ⟨p,-,rfl⟩ := List.mem_map.1 hacc
    obtain ⟨hvalid,hkept,-⟩ := h.evstateFreeMulti hstep
    exact ⟨hvalid,hkept⟩

/-- Each event is one that EM has made, and `m'` comes from `m` by initializations and transitions. -/
structure From (m m' : Memory) : Prop where
  valid : ∀ p, (m'.event p).Valid p
  kept : ∀ p, OdpEvent.Kept (m.event p) (m'.event p)
  odpTbl : ∀ p, m'.odpTbl p = m.odpTbl p

theorem From.refl (h : ∀ p, (m.event p).Valid p) : From m m := ⟨h,fun _ => .refl _,fun _ => rfl⟩

theorem From.isVectorType (h : From m m') (p : OdpEvt) :
    (m'.event p).isVectorType = (m.event p).isVectorType := by
  rw [OdpEvent.isVectorType, OdpEvent.isVectorType, (h.kept p).type]

theorem From.vectorAccesses (h : From m m') :
    EventFree.vectorAccesses cfg op m' = EventFree.vectorAccesses cfg op m :=
  funext fun event => by rw [EventFree.vectorAccesses, EventFree.vectorAccesses, h.isVectorType, h.odpTbl]

theorem From.freeAccesses (h : From m m') :
    EventFree.freeAccesses cfg op m' = EventFree.freeAccesses cfg op m :=
  funext fun event => by rw [EventFree.freeAccesses, EventFree.freeAccesses, h.vectorAccesses]

theorem From.run {accs : List Access} {table : OdpEvt → List EvHdl} (hesv : cfg.esvEnabled = true)
    (hvalid : ∀ p, (m.event p).Valid p) (haccs : ∀ acc ∈ accs, FreeAccess cfg op acc)
    (htable : ∀ p, (⟨ev,table⟩ : Memory).odpTbl p = m.odpTbl p) (h : run accs m.event = some ev) :
    From m ⟨ev,table⟩ := by
  have hall := run_preserves (I := fun p e => e.Valid p ∧ OdpEvent.Kept (m.event p) e)
    (fun acc hacc x y hx hy => ?_) (fun p => ⟨hvalid p,.refl _⟩) h
  · exact ⟨fun p => (hall p).1,fun p => (hall p).2,htable⟩
  · obtain ⟨hvalid',hkept⟩ := (haccs acc hacc).kept hesv hx.1 hy
    exact ⟨hvalid',hx.2.trans hkept⟩

/-- The tables once a vector has been freed -/
def freedTable (m : Memory) (event : EvHdl) : OdpEvt → List EvHdl :=
  if (m.event event.evptr).isVectorType then
    Function.update m.table event.evptr ((m.table event.evptr).map em2odp)
  else m.table

theorem odpTbl_freedTable (p : OdpEvt) : (⟨ev,freedTable m event⟩ : Memory).odpTbl p = m.odpTbl p := by
  rw [Memory.odpTbl, freedTable]
  dsimp only
  split
  · by_cases hp : p = event.evptr
    · rw [hp, Function.update_self, List.map_map]
      rfl
    · rw [Function.update_of_ne hp]
      rfl
  · rfl

/-- The tables once vectors have been freed; `ev` tells which events are vectors. -/
def freedTables (ev : OdpEvt → OdpEvent) (events : List EvHdl) (table : OdpEvt → List EvHdl) :
    OdpEvt → List EvHdl :=
  events.foldl (fun table event => freedTable ⟨ev,table⟩ event) table

theorem From.freedTables (h : From m m') (events : List EvHdl) (table : OdpEvt → List EvHdl) :
    EventFree.freedTables m'.event events table = EventFree.freedTables m.event events table := by
  refine congrArg (fun f => events.foldl f table) (funext fun table => funext fun event => ?_)
  rw [freedTable, freedTable, h.isVectorType]

theorem prepareFree_eq (hesv : cfg.esvEnabled = true) (hvalid : ∀ p, (m.event p).Valid p) :
    (if (m.event event.evptr).isVectorType then m.eventVectorPrepareFreeFull cfg op event.evptr
      else some m) =
      (run (vectorAccesses cfg op m event) m.event).map fun ev => ⟨ev,freedTable m event⟩ := by
  rw [vectorAccesses, freedTable]
  split
  · rw [prepareFreeFull_eq hesv hvalid]
  · rfl

/-- The steps of `em_free` and `em_event_mark_free` for an event of any type -/
def freeOne (cfg : Config) (op : ApiOp) (event : EvHdl) (m : Memory) : Option Memory :=
  let e := m.event event.evptr
  if e.hdr.odpType then some m
  else do
    let m ← m.access event.evptr fun e => e.evstateFree cfg op event
    if e.isVectorType then m.eventVectorPrepareFreeFull cfg op event.evptr else some m

theorem freeOne_eq (hesv : cfg.esvEnabled = true) (hvalid : ∀ p, (m.event p).Valid p) :
    freeOne cfg op event m = (run (freeAccesses cfg op m event) m.event).map fun ev =>
      ⟨ev,freedTable m event⟩ := by
  rw [freeOne, freeAccesses, run_cons]
  by_cases hodp : (m.event event.evptr).hdr.odpType = true
  · have hvector : ¬(m.event event.evptr).isVectorType = true := by
      intro hc
      rw [(hvalid event.evptr).typed (.inr hc)] at hodp
      cases hodp
    rw [if_pos hodp, vectorAccesses, freedTable, if_neg hvector, if_neg hvector, outerAct,
      OdpEvent.evstateFreeMulti, if_pos hodp, Option.bind_some, Function.update_eq_self]
    rfl
  · rw [Bool.not_eq_true] at hodp
    rw [if_neg (by rw [hodp]; decide), Memory.access, evstateFree_eq hodp, Option.bind_eq_bind, Option.bind_map,
      Option.map_bind]
    refine Option.bind_congr fun e hact => ?_
    have hrun : run [(event.evptr,outerAct cfg op event)] m.event =
        some (Function.update m.event event.evptr e) := by
      rw [run_cons, hact]
      rfl
    generalize hm' : (⟨Function.update m.event event.evptr e,m.table⟩ : Memory) = m'
    have hfrom : From m m' := by
      rw [← hm']
      exact From.run hesv hvalid (fun acc hacc => .inl ⟨event,List.mem_singleton.1 hacc⟩) (fun _ => rfl) hrun
    have hprepare : (if (m'.event event.evptr).isVectorType then
        m'.eventVectorPrepareFreeFull cfg op event.evptr else some m') =
          (run (vectorAccesses cfg op m' event) m'.event).map fun ev => ⟨ev,freedTable m' event⟩ :=
      prepareFree_eq hesv hfrom.valid
    have htable : freedTable m' event = freedTable m event := by
      rw [freedTable, freedTable, hfrom.isVectorType, ← hm']
    rw [hfrom.isVectorType, hfrom.vectorAccesses] at hprepare
    rw [Function.comp_apply, ← htable]
    subst hm'
    exact hprepare

end EmOdp.EventFree
