import EmOdp.EventInit.Multi

/-! Headers that are the same but for the label of the last call: no function that initialises an event
tells them apart, whatever label it stores itself. -/
namespace EmOdp.EventInit
open EventState Lib
open EventFree (OdpEvt OdpType)

def EventHdr.withOp (op : ApiOp) (h : EventHdr) : EventHdr := { h with state := { h.state with apiOp := op } }

/-- The header is the same, but for the label. -/
def EventHdr.Same (h h' : EventHdr) : Prop := ∃ op, h' = h.withOp op

def UserArea.Same (a a' : UserArea) : Prop := a.hdr.Same a'.hdr ∧ a'.userFlag = a.userFlag

def SameHeaders (m m' : Memory) : Prop := ∀ p, (m p).Same (m' p)

/-- The results are the same, with related headers or memories. -/
def SamePair {α β : Type} (R : β → β → Prop) (r r' : α × β) : Prop := r.1 = r'.1 ∧ R r.2 r'.2

variable {env : Env} {op op' : ApiOp} {event : EvHdl} {isExtev : Bool} {dispQElem : Option Bool} {odpEvent : OdpEvt}
  {h h' : EventHdr} {a a' : UserArea} {m m' : Memory}

namespace EventHdr.Same

theorem refl (h : EventHdr) : h.Same h := ⟨h.state.apiOp,rfl⟩

theorem handle (hs : h.Same h') : h'.event = h.event := by
  obtain ⟨_,rfl⟩ := hs
  rfl

theorem flags (hs : h.Same h') : h'.flags = h.flags := by
  obtain ⟨_,rfl⟩ := hs
  rfl

theorem eventType (hs : h.Same h') : h'.eventType = h.eventType := by
  obtain ⟨_,rfl⟩ := hs
  rfl

theorem esv (hs : h.Same h') : h'.esv = h.esv := by
  obtain ⟨_,rfl⟩ := hs
  rfl

theorem setFields (hs : h.Same h') (t : BitVec 32) : (h.setFields t).Same (h'.setFields t) := by
  obtain ⟨op,rfl⟩ := hs
  exact ⟨op,rfl⟩

theorem clearFlags (hs : h.Same h') : h.clearFlags.Same h'.clearFlags := by
  obtain ⟨op,rfl⟩ := hs
  exact ⟨op,rfl⟩

theorem setEvent (hs : h.Same h') (event : EvHdl) : ({ h with event } : EventHdr).Same { h' with event } := by
  obtain ⟨op,rfl⟩ := hs
  exact ⟨op,rfl⟩

theorem setEsv (hs : h.Same h') (r : EvHdr) : (h.setEsv r).Same (h'.setEsv r) := by
  obtain ⟨op,rfl⟩ := hs
  exact ⟨op,rfl⟩

theorem updateState (hs : h.Same h') : (h.updateState env op).Same (h'.updateState env op') := by
  obtain ⟨op'',rfl⟩ := hs
  rw [EventHdr.updateState, EventHdr.updateState]
  by_cases hstore : env.storeState = true
  · rw [if_pos hstore, if_pos hstore]
    exact ⟨op',rfl⟩
  · rw [if_neg hstore, if_neg hstore]
    exact ⟨op'',rfl⟩

theorem transition (hs : h.Same h') (r : Except EvstateError (EvHdl × EvHdr)) :
    Alike (SamePair Same) (h.transition env op r) (h'.transition env op' r) := by
  rw [EventHdr.transition, EventHdr.transition, hs.flags]
  cases r with
  | error e => trivial
  | ok r =>
    refine ⟨rfl,?_⟩
    by_cases hrefs : h.flags.refsUsed = true
    · simp only [if_pos hrefs]
      exact hs.setEsv _
    · simp only [if_neg hrefs]
      exact (hs.setEsv _).updateState

theorem evstateEm2usr (hs : h.Same h') :
    Alike (SamePair Same) (h.evstateEm2usr env op event) (h'.evstateEm2usr env op' event) := by
  rw [EventHdr.evstateEm2usr, EventHdr.evstateEm2usr, hs.eventType, hs.esv]
  split
  · exact ⟨rfl,hs⟩
  · exact hs.transition _

theorem evstateInit (hs : h.Same h') :
    SamePair Same (h.evstateInit env event isExtev) (h'.evstateInit env event isExtev) := by
  rw [EventHdr.evstateInit, EventHdr.evstateInit, hs.esv]
  exact ⟨rfl,(hs.setEsv _).updateState⟩

theorem evstateUpdate (hs : h.Same h') :
    Alike (SamePair Same) (h.evstateUpdate env event isExtev) (h'.evstateUpdate env event isExtev) := by
  rw [EventHdr.evstateUpdate, EventHdr.evstateUpdate, hs.esv]
  exact hs.transition _

end EventHdr.Same

namespace UserArea.Same

theorem refl (a : UserArea) : a.Same a := ⟨.refl _,rfl⟩

theorem evhdrInitialized (hs : a.Same a') : Alike (SamePair UserArea.Same)
    (EventInit.evhdrInitialized env op isExtev event a) (EventInit.evhdrInitialized env op' isExtev event a') := by
  rw [EventInit.evhdrInitialized, EventInit.evhdrInitialized, hs.1.handle]
  cases env.esvEnabled with
  | false => exact ⟨rfl,hs⟩
  | true =>
    cases isExtev with
    | false => exact ⟨rfl,hs⟩
    | true => exact hs.1.evstateEm2usr.map fun _ _ hr => ⟨hr.1,hr.2,hs.2⟩

theorem evhdrInitPkt (hs : a.Same a') : Alike (SamePair UserArea.Same)
    (EventInit.evhdrInitPkt env isExtev event a odpEvent) (EventInit.evhdrInitPkt env isExtev event a' odpEvent) := by
  have hset := hs.1.setFields emEventTypePacket
  rw [EventInit.evhdrInitPkt, EventInit.evhdrInitPkt, hs.2]
  dsimp only
  rw [hset.flags]
  split
  · exact hs.evhdrInitialized
  split
  · exact ⟨rfl,hset.clearFlags.setEvent _,rfl⟩
  refine Alike.map (R := SamePair EventHdr.Same) ?_ fun _ _ hr => ⟨hr.1,hr.2.clearFlags,rfl⟩
  split
  · exact hset.evstateInit
  split
  · exact hset.evstateInit
  · exact hset.evstateUpdate

theorem evhdrInitVec (hs : a.Same a') : Alike (SamePair UserArea.Same)
    (EventInit.evhdrInitVec env isExtev event a odpEvent) (EventInit.evhdrInitVec env isExtev event a' odpEvent) := by
  have hset := hs.1.clearFlags.setFields emEventTypeVector
  rw [EventInit.evhdrInitVec, EventInit.evhdrInitVec, hs.2]
  dsimp only
  split
  · exact hs.evhdrInitialized
  split
  · exact ⟨rfl,hset.setEvent _,rfl⟩
  refine Alike.map (R := SamePair EventHdr.Same) ?_ fun _ _ hr => ⟨hr.1,hr.2,rfl⟩
  split
  · exact hset.evstateInit
  split
  · exact hset.evstateInit
  · exact hset.evstateUpdate

theorem initBuf (hs : a.Same a') : Alike (SamePair UserArea.Same)
    (EventInit.initBuf env op isExtev event a) (EventInit.initBuf env op' isExtev event a') := by
  rw [EventInit.initBuf, EventInit.initBuf, hs.1.handle]
  cases env.esvEnabled with
  | false => exact ⟨rfl,hs⟩
  | true =>
    cases isExtev with
    | false => exact ⟨rfl,hs⟩
    | true => exact hs.1.evstateEm2usr.map fun _ _ hr => ⟨hr.1,hr.2,hs.2⟩

theorem initTmo (hs : a.Same a') :
    Alike (SamePair UserArea.Same) (EventInit.initTmo env event a) (EventInit.initTmo env event a') := by
  rw [EventInit.initTmo, EventInit.initTmo, hs.1.handle]
  cases env.esvEnabled with
  | false => exact ⟨rfl,hs⟩
  | true => exact ⟨rfl,hs.1.setEvent _,hs.2⟩

theorem esvAggrInnerEm2usrOne (hs : a.Same a') : Alike (SamePair UserArea.Same)
    (EventInit.esvAggrInnerEm2usrOne env a) (EventInit.esvAggrInnerEm2usrOne env a') := by
  rw [EventInit.esvAggrInnerEm2usrOne, EventInit.esvAggrInnerEm2usrOne, hs.1.flags, hs.1.handle]
  split
  · exact ⟨rfl,hs⟩
  refine hs.1.evstateEm2usr.map fun r r' hr => ⟨rfl,?_,hs.2⟩
  rw [hr.2.flags]
  obtain ⟨op,hop⟩ := hr.2
  split
  · exact hr.2
  · rw [hop]
    exact ⟨op,rfl⟩

end UserArea.Same

namespace SameHeaders

theorem update {p : HdrPtr} (hs : SameHeaders m m') (ha : a.Same a') :
    SameHeaders (Function.update m p a) (Function.update m' p a') := by
  intro q
  by_cases hq : q = p
  · subst hq
    rw [Function.update_self, Function.update_self]
    exact ha
  · rw [Function.update_of_ne hq, Function.update_of_ne hq]
    exact hs q

theorem access {α : Type} {p : HdrPtr} {f g : UserArea → Except EvstateError (α × UserArea)} (hs : SameHeaders m m')
    (hfg : ∀ a a', a.Same a' → Alike (SamePair UserArea.Same) (f a) (g a')) :
    Alike (SamePair SameHeaders) (EventInit.access m p f) (EventInit.access m' p g) :=
  (hfg _ _ (hs p)).map fun _ _ hr => ⟨hr.1,hs.update hr.2⟩

theorem skipInner (hs : SameHeaders m m') (vectorType : Option OdpType) :
    EventInit.skipInner env vectorType odpEvent m' = EventInit.skipInner env vectorType odpEvent m := by
  unfold EventInit.skipInner
  rw [(hs (.userArea odpEvent)).2]

theorem aggrInnerLoop (hs : SameHeaders m m') (vectorType : Option OdpType) (es : List OdpEvt) :
    Alike SameHeaders (EventInit.aggrInnerLoop env vectorType es m) (EventInit.aggrInnerLoop env vectorType es m') := by
  induction es generalizing m m' with
  | nil => exact hs
  | cons e es ih =>
    rw [EventInit.aggrInnerLoop, EventInit.aggrInnerLoop, hs.skipInner]
    split
    · exact ih hs
    · exact (hs.access fun _ _ ha => ha.esvAggrInnerEm2usrOne).bind fun _ _ hr => ih hr.2

theorem evhdrInitEvvec (hs : SameHeaders m m') : Alike (SamePair SameHeaders)
    (EventInit.evhdrInitEvvec env isExtev dispQElem event odpEvent m)
    (EventInit.evhdrInitEvvec env isExtev dispQElem event odpEvent m') := by
  refine (hs.access fun _ _ ha => ha.evhdrInitVec).bind fun r r' hr => ?_
  split
  · refine Alike.map (R := SameHeaders) ?_ fun _ _ hm => ⟨hr.1,hm⟩
    rw [esvAggrInnerEm2usr, esvAggrInnerEm2usr]
    split
    · exact hr.2
    · exact hr.2.aggrInnerLoop ..
  · exact hr

theorem eventInitOdp (hs : SameHeaders m m') : Alike (SamePair SameHeaders)
    (EventInit.eventInitOdp env isExtev dispQElem odpEvent m)
    (EventInit.eventInitOdp env isExtev dispQElem odpEvent m') := by
  refine Alike.map (R := SamePair SameHeaders) ?_ fun _ _ hr => ⟨Prod.ext hr.1 rfl,hr.2⟩
  split
  · exact hs.access fun _ _ ha => ha.evhdrInitPkt
  · exact hs.access fun _ _ ha => ha.initBuf
  · exact hs.evhdrInitEvvec
  · exact hs.access fun _ _ ha => ha.evhdrInitVec
  · exact hs.access fun _ _ ha => ha.initTmo
  · exact ⟨rfl,hs⟩

end SameHeaders
end EmOdp.EventInit
