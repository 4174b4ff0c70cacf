import EmOdp.EventFree.Free

/-! `em_free_multi` and `em_free` on each event leave the same memory and free the same events. -/
namespace EmOdp.EventFree
open EventState Lib.Pointwise

variable {cfg : Config} {m m' : Memory} {events : List EvHdl} {event : EvHdl}

/-- Only the events that are left out are not freed. -/
def kept (cfg : Config) (m : Memory) (events : List EvHdl) : List EvHdl :=
  events.filter fun event => !(cfg.checkTmos && activeTmo m event)

theorem From.activeTmo (h : From m m') (event : EvHdl) :
    EventFree.activeTmo m' event = EventFree.activeTmo m event := by
  rw [EventFree.activeTmo, EventFree.activeTmo, (h.kept event.evptr).type]
  by_cases ht : (m.event event.evptr).type = .timeout
  · rw [(h.kept event.evptr).tmoActive ht]
  · rw [decide_eq_false ht, Bool.false_and, Bool.false_and]

theorem From.keptEvents (h : From m m') (events : List EvHdl) :
    EventFree.kept cfg m' events = EventFree.kept cfg m events :=
  List.filter_congr fun event _ => by rw [h.activeTmo event]

theorem kept_cons_skipped (hskip : (cfg.checkTmos && activeTmo m event) = true) :
    kept cfg m (event :: events) = kept cfg m events := by
  rw [kept, List.filter_cons, hskip]
  rfl

theorem kept_cons (hskip : (cfg.checkTmos && activeTmo m event) = false) :
    kept cfg m (event :: events) = event :: kept cfg m events := by
  rw [kept, List.filter_cons, hskip]
  rfl

private theorem map_bind_pure {α β γ : Type} (x : Option α) (f : α → β) (g : β → γ) :
    (x.map f).bind (fun b => pure (g b)) = x.map fun a => g (f a) := by cases x <;> rfl

section Each

theorem emFree_skipped (hdefined : event ≠ emEventUndef)
    (hskip : (cfg.checkTmos && activeTmo m event) = true) : emFree cfg event m = some (m,[]) := by
  rw [activeTmo, Bool.and_eq_true, Bool.and_eq_true, decide_eq_true_eq] at hskip
  rw [emFree, if_neg fun hc => hdefined hc.2]
  dsimp only
  rw [if_pos ⟨hskip.1,hskip.2.1⟩, if_pos hskip.2.2]

/-- A timeout that is freed is not active where this is checked. -/
private theorem not_active (hskip : (cfg.checkTmos && activeTmo m event) = false)
    (htmo : cfg.checkTmos = true ∧ (m.event event.evptr).type = .timeout) :
    ¬(m.event event.evptr).tmoActive = true := by
  intro hactive
  rw [activeTmo, hactive, htmo.1, decide_eq_true htmo.2] at hskip
  cases hskip

theorem emFree_noEsv (hesv : cfg.esvEnabled = false) (hdefined : event ≠ emEventUndef)
    (hskip : (cfg.checkTmos && activeTmo m event) = false) :
    emFree cfg event m = some (m,[event.evptr]) := by
  rw [emFree, if_neg fun hc => hdefined hc.2]
  dsimp only
  rw [hesv]
  split
  · rename_i htmo
    rw [if_neg (not_active hskip htmo)]
    rfl
  · rfl

theorem emFree_eq (hesv : cfg.esvEnabled = true) (hvalid : ∀ p, (m.event p).Valid p)
    (hdefined : event ≠ emEventUndef) (hskip : (cfg.checkTmos && activeTmo m event) = false) :
    emFree cfg event m = (freeOne cfg .other event m).map fun m => (m,[event.evptr]) := by
  rw [emFree, if_neg fun hc => hdefined hc.2, freeOne]
  dsimp only
  rw [hesv]
  split
  · rename_i htmo
    have hvector : ¬(m.event event.evptr).isVectorType = true := by
      rw [OdpEvent.isVectorType, htmo.2]
      decide
    have hodp := (hvalid event.evptr).typed (.inl htmo.2)
    rw [if_neg (not_active hskip htmo), if_pos rfl, if_neg (by rw [hodp]; decide)]
    cases m.access event.evptr (fun e => e.evstateFree cfg .other event) with
    | none => rfl
    | some m' =>
      rw [Option.bind_eq_bind, Option.bind_some, if_neg hvector]
  · rw [if_pos rfl]
    split
    · rfl
    · cases m.access event.evptr (fun e => e.evstateFree cfg .other event) with
      | none => rfl
      | some m => exact (Option.map_eq_bind ..).symm

theorem emFreeEach_eq (hesv : cfg.esvEnabled = true) (hvalid : ∀ p, (m.event p).Valid p)
    (hdefined : emEventUndef ∉ events) : emFreeEach cfg events m =
      (run ((kept cfg m events).flatMap (freeAccesses cfg .other m)) m.event).map fun ev =>
        (⟨ev,freedTables m.event (kept cfg m events) m.table⟩,(kept cfg m events).map EvHdl.evptr) := by
  induction events generalizing m with
  | nil => rfl
  | cons event events ih =>
    obtain ⟨hne,hdefined⟩ := not_or.1 (mt List.mem_cons.2 hdefined)
    cases hskip : cfg.checkTmos && activeTmo m event with
    | true =>
      rw [kept_cons_skipped hskip, emFreeEach, emFree_skipped (Ne.symm hne) hskip, Option.bind_eq_bind,
        Option.bind_some]
      dsimp only
      rw [ih hvalid hdefined]
      exact map_bind_pure ..
    | false =>
      rw [kept_cons hskip, List.flatMap_cons, run_append, emFreeEach, emFree_eq hesv hvalid (Ne.symm hne) hskip,
        freeOne_eq hesv hvalid, Option.map_map, Option.bind_eq_bind, Option.bind_map, Option.map_bind]
      refine Option.bind_congr fun ev hrun => ?_
      have hfrom : From m ⟨ev,freedTable m event⟩ :=
        From.run hesv hvalid (fun acc hacc => .of_mem hacc) odpTbl_freedTable hrun
      rw [Function.comp_apply, Function.comp_apply]
      dsimp only
      rw [ih hfrom.valid hdefined, hfrom.keptEvents, hfrom.freeAccesses, hfrom.freedTables]
      exact map_bind_pure ..

theorem emFreeEach_noEsv (hesv : cfg.esvEnabled = false) (hdefined : emEventUndef ∉ events) :
    emFreeEach cfg events m = some (m,(kept cfg m events).map EvHdl.evptr) := by
  induction events with
  | nil => rfl
  | cons event events ih =>
    obtain ⟨hne,hdefined⟩ := not_or.1 (mt List.mem_cons.2 hdefined)
    cases hskip : cfg.checkTmos && activeTmo m event with
    | true =>
      rw [kept_cons_skipped hskip, emFreeEach, emFree_skipped (Ne.symm hne) hskip, Option.bind_eq_bind,
        Option.bind_some]
      dsimp only
      rw [ih hdefined]
      rfl
    | false =>
      rw [kept_cons hskip, emFreeEach, emFree_noEsv hesv (Ne.symm hne) hskip, Option.bind_eq_bind,
        Option.bind_some]
      dsimp only
      rw [ih hdefined]
      rfl

end Each

section Multi

theorem prepareFreeVectors_eq (hesv : cfg.esvEnabled = true) (hvalid : ∀ p, (m.event p).Valid p) :
    prepareFreeVectors cfg .other events m =
      (run (events.flatMap (vectorAccesses cfg .other m)) m.event).map fun ev =>
        ⟨ev,freedTables m.event events m.table⟩ := by
  induction events generalizing m with
  | nil => rfl
  | cons event events ih =>
    rw [prepareFreeVectors, prepareFree_eq hesv hvalid, List.flatMap_cons, run_append, Option.bind_eq_bind,
      Option.bind_map, Option.map_bind]
    refine Option.bind_congr fun ev hrun => ?_
    have hfrom : From m ⟨ev,freedTable m event⟩ :=
      From.run hesv hvalid (fun acc hacc => .vector hacc) odpTbl_freedTable hrun
    rw [Function.comp_apply, ih hfrom.valid, hfrom.freedTables, hfrom.vectorAccesses]
    rfl

/-- What the three arrays hold of the events to free -/
theorem freeTbls_take {numFree : Nat} {t : FreeTbls} (h : freeTbls cfg events m = (numFree,t)) :
    t.evTbl.take numFree = kept cfg m events ∧
      t.odpEvtbl.take numFree = (kept cfg m events).map EvHdl.evptr ∧
      t.evHdrTbl.take numFree = (kept cfg m events).map EvHdl.evptr := by
  rw [freeTbls] at h
  rw [kept]
  cases hcheck : cfg.checkTmos with
  | true =>
    rw [hcheck, if_pos rfl] at h
    exact remActiveRingTimerTmos_take h
  | false =>
    rw [hcheck] at h
    cases h
    have hall : events.filter (fun event => !(false && activeTmo m event)) = events :=
      List.filter_eq_self.2 fun _ _ => rfl
    rw [hall]
    exact ⟨List.take_length,List.take_of_length_le (List.length_map ..).le,
      List.take_of_length_le (List.length_map ..).le⟩

theorem emFreeMulti_eq (hesv : cfg.esvEnabled = true) (hvalid : ∀ p, (m.event p).Valid p)
    (hdefined : emEventUndef ∉ events) : emFreeMulti cfg events m =
      (run (((kept cfg m events).map fun event => (event.evptr,outerAct cfg .other event)) ++
        (kept cfg m events).flatMap (vectorAccesses cfg .other m)) m.event).map fun ev =>
        (⟨ev,freedTables m.event (kept cfg m events) m.table⟩,(kept cfg m events).map EvHdl.evptr) := by
  rw [emFreeMulti]
  split
  · rename_i hnil
    rw [hnil]
    rfl
  rw [if_neg fun hc => hdefined hc.2]
  obtain ⟨⟨numFree,t⟩,ht⟩ : ∃ r, freeTbls cfg events m = r := ⟨_,rfl⟩
  obtain ⟨hev,hodp,hhdr⟩ := freeTbls_take ht
  rw [ht]
  dsimp only
  rw [hev, hodp, hhdr, evstateFreeMulti, List.zipWith_map_right, List.zipWith_self, run_append,
    Option.bind_eq_bind, Option.map_bind]
  refine Option.bind_congr fun ev hrun => ?_
  have hfrom : From m ⟨ev,m.table⟩ := by
    refine From.run hesv hvalid (fun acc hacc => (?_ : FreeAccess cfg .other acc)) (fun _ => rfl) hrun
    obtain ⟨event,-,rfl⟩ := List.mem_map.1 hacc
    exact .inl ⟨event,rfl⟩
  rw [prepareFreeVectors_eq hesv hfrom.valid, hfrom.freedTables, hfrom.vectorAccesses]
  exact map_bind_pure ..

theorem emFreeMulti_noEsv (hesv : cfg.esvEnabled = false) (hdefined : emEventUndef ∉ events) :
    emFreeMulti cfg events m = some (m,(kept cfg m events).map EvHdl.evptr) := by
  rw [emFreeMulti]
  split
  · rename_i hnil
    rw [hnil]
    rfl
  rw [if_neg fun hc => hdefined hc.2]
  obtain ⟨⟨numFree,t⟩,ht⟩ : ∃ r, freeTbls cfg events m = r := ⟨_,rfl⟩
  rw [ht, hesv]
  dsimp only
  rw [(freeTbls_take ht).2.1]
  rfl

end Multi

/-- A packet with references to it, whose handle is not looked at -/
def OdpEvent.Reference (e : OdpEvent) : Prop :=
  e.type = .packet ∧ e.userFlag = true ∧ e.hdr.refsUsed = true

/-- An event of the array that is in a vector of the array too is a packet with references to it. -/
def Distinct (m : Memory) (events : List EvHdl) : Prop :=
  ∀ event ∈ events, ∀ vector ∈ events, (m.event vector.evptr).isVectorType = true →
    event.evptr ∈ m.odpTbl vector.evptr → (m.event event.evptr).Reference

theorem OdpEvent.Reference.init {e : OdpEvent} (hesv : cfg.esvEnabled = true) (h : e.Reference) (p : OdpEvt) :
    initAct cfg p e = some e := by
  have hinit : e.EmInit := by
    rw [OdpEvent.EmInit, h.1]
    exact h.2.1
  rw [initAct, hinit.eventInitOdp hesv (p := p)]
  rfl

theorem OdpEvent.Reference.free {e : OdpEvent} (h : e.Reference) (event event' : EvHdl) :
    e.evstateFreeMulti cfg .other event = e.evstateFreeMulti cfg .other event' := by
  rw [evstateFreeMulti, evstateFreeMulti, esvUsr2em_refsUsed h.2.2 event event']

/-- For a reference the order of the accesses does not matter. -/
theorem Reference.fold_perm {p : OdpEvt} {accs accs' : List Access}
    (hesv : cfg.esvEnabled = true) (hperm : accs.Perm accs')
    (haccs : ∀ acc ∈ accs, FreeAccess cfg .other acc) {e : OdpEvent} (h : e.Reference) :
    fold (accesses p accs) e = fold (accesses p accs') e := by
  have hact : ∀ act ∈ accesses p accs, (∀ x : OdpEvent, x.Reference → act x = some x) ∨
      ∀ x : OdpEvent, x.Reference → act x = x.evstateFreeMulti cfg .other ⟨p,0⟩ := by
    intro act hact
    rcases haccs _ (mem_accesses.1 hact) with ⟨event,heq⟩ | ⟨tbl,hacc⟩
    · obtain ⟨-,rfl⟩ := Prod.mk.inj heq
      exact .inr fun x hx => hx.free ..
    · rcases List.mem_append.1 hacc with hacc | hacc
      · obtain ⟨q,-,heq⟩ := List.mem_map.1 hacc
        obtain ⟨-,rfl⟩ := Prod.mk.inj heq
        exact .inl fun x hx => hx.init hesv q
      · obtain ⟨q,-,heq⟩ := List.mem_map.1 hacc
        obtain ⟨-,rfl⟩ := Prod.mk.inj heq
        exact .inr fun x hx => hx.free ..
  have hkeep : ∀ act ∈ accesses p accs, ∀ x y : OdpEvent, x.Reference → act x = some y → y.Reference := by
    intro act hmem x y hx hy
    rcases hact act hmem with hid | hfree
    · rw [hid x hx] at hy
      cases hy
      exact hx
    · rw [hfree x hx] at hy
      rw [OdpEvent.evstateFreeMulti_eq hy]
      exact hx
  refine Lib.Pointwise.fold_perm (hperm.filterMap _) hkeep (fun f hf g hg x hx => ?_) h
  rcases hact f hf with hidf | hfreef <;> rcases hact g hg with hidg | hfreeg
  · rw [hidf x hx, hidg x hx, Option.bind_some, Option.bind_some, hidf x hx, hidg x hx]
  · rw [hidf x hx, Option.bind_some]
    cases hy : g x with
    | none => rfl
    | some y => exact (hidf y (hkeep g hg x y hx hy)).symm
  · rw [hidg x hx, Option.bind_some]
    cases hy : f x with
    | none => rfl
    | some y => exact hidg y (hkeep f hf x y hx hy)
  · rw [hfreef x hx, hfreeg x hx]
    refine Option.bind_congr fun y hy => ?_
    have hyref : y.Reference := by
      rw [OdpEvent.evstateFreeMulti_eq hy]
      exact hx
    rw [hfreef y hyref, hfreeg y hyref]

/-- The states of all events first, then those in the tables: each event sees the same as with one event
after the other. -/
theorem run_freeAccesses (hesv : cfg.esvEnabled = true) (hdistinct : Distinct m events) :
    run ((events.map fun event => (event.evptr,outerAct cfg .other event)) ++
      events.flatMap (vectorAccesses cfg .other m)) m.event = run (events.flatMap (freeAccesses cfg .other m)) m.event := by
  refine run_congr fun p => ?_
  have hperm : ((events.map fun event => (event.evptr,outerAct cfg .other event)) ++
      events.flatMap (vectorAccesses cfg .other m)).Perm (events.flatMap (freeAccesses cfg .other m)) :=
    List.map_append_flatMap_perm events (fun event => (event.evptr,outerAct cfg .other event)) (vectorAccesses cfg .other m)
  by_cases houter : ∃ event ∈ events, event.evptr = p
  swap
  · -- no event of the array, so only what is in a table
    have hnil : ∀ event ∈ events, accesses p [(event.evptr,outerAct cfg .other event)] = [] := by
      intro event hevent
      refine accesses_eq_nil fun acc hacc hp => ?_
      rw [List.mem_singleton.1 hacc] at hp
      exact houter ⟨event,hevent,hp⟩
    have hmap : accesses p (events.map fun event => (event.evptr,outerAct cfg .other event)) = [] := by
      refine accesses_eq_nil fun acc hacc hp => ?_
      obtain ⟨event,hevent,rfl⟩ := List.mem_map.1 hacc
      exact houter ⟨event,hevent,hp⟩
    rw [accesses_append, hmap, List.nil_append, accesses_flatMap, accesses_flatMap]
    refine congrArg (fold · _) (List.flatMap_congr fun event hevent => ?_)
    rw [freeAccesses, ← List.singleton_append, accesses_append, hnil event hevent, List.nil_append]
  by_cases hinner : ∃ vector ∈ events, (m.event vector.evptr).isVectorType = true ∧ p ∈ m.odpTbl vector.evptr
  · obtain ⟨event,hevent,rfl⟩ := houter
    obtain ⟨vector,hvector,htype,hmem⟩ := hinner
    refine Reference.fold_perm hesv hperm (fun acc hacc => ?_) (hdistinct event hevent vector hvector htype hmem)
    rcases List.mem_append.1 hacc with hacc | hacc
    · obtain ⟨event,-,rfl⟩ := List.mem_map.1 hacc
      exact .inl ⟨event,rfl⟩
    · obtain ⟨event,-,hacc⟩ := List.mem_flatMap.1 hacc
      exact .vector hacc
  · -- in no table
    have hnil : ∀ event ∈ events, accesses p (vectorAccesses cfg .other m event) = [] := by
      intro event hevent
      refine accesses_eq_nil fun acc hacc hp => ?_
      rw [vectorAccesses] at hacc
      split at hacc
      · rename_i htype
        refine hinner ⟨event,hevent,htype,?_⟩
        rcases List.mem_append.1 hacc with hacc | hacc
        · obtain ⟨q,hq,rfl⟩ := List.mem_map.1 hacc
          exact hp ▸ hq
        · obtain ⟨q,hq,rfl⟩ := List.mem_map.1 hacc
          exact hp ▸ hq
      · cases hacc
    have hsame : ∀ event ∈ events, accesses p (freeAccesses cfg .other m event) =
        accesses p [(event.evptr,outerAct cfg .other event)] := by
      intro event hevent
      rw [freeAccesses, ← List.singleton_append, accesses_append, hnil event hevent, List.append_nil]
    have hflat : events.flatMap (fun event => accesses p (vectorAccesses cfg .other m event)) = [] :=
      List.flatMap_eq_nil_iff.2 hnil
    rw [accesses_append, accesses_flatMap, hflat, List.append_nil, accesses_flatMap,
      List.flatMap_congr hsame, ← accesses_flatMap, List.map_eq_flatMap]

/-- `em_free_multi` is `em_free` on each event: it frees the same events, changes the states of the same
events in the same way and leaves the same events alone. -/
theorem emFreeMulti_eq_each (cfg : Config) (hvalid : ∀ p, (m.event p).Valid p)
    (hdefined : emEventUndef ∉ events) (hdistinct : Distinct m events) :
    emFreeMulti cfg events m = emFreeEach cfg events m := by
  cases hesv : cfg.esvEnabled with
  | false => rw [emFreeMulti_noEsv hesv hdefined, emFreeEach_noEsv hesv hdefined]
  | true =>
    have hdistinct' : Distinct m (kept cfg m events) := fun event hevent vector hvector =>
      hdistinct event (List.mem_of_mem_filter hevent) vector (List.mem_of_mem_filter hvector)
    rw [emFreeMulti_eq hesv hvalid hdefined, emFreeEach_eq hesv hvalid hdefined,
      run_freeAccesses hesv hdistinct']


private def mixedEvent (p : OdpEvt) : OdpEvent :=
  let hdr : EvHdr := ⟨⟨p,evgenInit⟩,initCntAlloc,false,false⟩
  let e : OdpEvent := ⟨.buffer,hdr,false,false,.other,true,true⟩
  match p.toNat with
  | 1 => { e with type := .packetVector }
  | 2 => { e with type := .packet, userFlag := false }
  | 3 => { e with type := .packet, hdr := ⟨⟨p,evgenInit⟩,.ofParts evgenInit 0 (refCntInit - 2) sendCntInit,true,false⟩ }
  | 4 => { e with type := .timeout, timerInd := true, tmoActive := true }
  | 5 => { e with type := .timeout, timerInd := true }
  | 6 => { e with type := .other, hdr := evhdrNonem }
  | _ => e

private def mixed : Memory := ⟨mixedEvent,fun p => if p = 1 then [⟨2,0⟩,⟨3,evgenInit⟩] else []⟩

private theorem mixed_valid (p : OdpEvt) : (mixed.event p).Valid p := by
  change (mixedEvent p).Valid p
  rw [mixedEvent]
  split <;> refine ⟨?_,?_,?_⟩ <;> simp [OdpEvent.isVectorType, OdpEvent.EmInit]

private def mixedEvents : List EvHdl :=
  [⟨1,evgenInit⟩,⟨4,evgenInit⟩,⟨3,evgenInit⟩,⟨6,0⟩,⟨5,evgenInit⟩,⟨7,evgenInit⟩]

/-- A packet vector with a packet from outside and a reference, an active timeout, the reference itself, an
event without a header, a timeout that is not active and a buffer -/
theorem emFreeMulti_eq_each_mixed : emFreeMulti ⟨3,true,true,true,true⟩ mixedEvents mixed =
      emFreeEach ⟨3,true,true,true,true⟩ mixedEvents mixed ∧
    (emFreeMulti ⟨3,true,true,true,true⟩ mixedEvents mixed).map Prod.snd = some [1,3,6,5,7] := by
  refine ⟨emFreeMulti_eq_each _ mixed_valid (by decide) ?_,by decide⟩
  have hvector : ∀ vector ∈ mixedEvents, (mixed.event vector.evptr).isVectorType = true →
      vector = ⟨1,evgenInit⟩ := by decide
  have hinner : ∀ event ∈ mixedEvents, event.evptr ∈ mixed.odpTbl 1 → event = ⟨3,evgenInit⟩ := by
    decide
  intro event hevent vector hmem htype hin
  rw [hvector vector hmem htype] at hin
  rw [hinner event hevent hin]
  exact ⟨rfl,rfl,rfl⟩

end EmOdp.EventFree
