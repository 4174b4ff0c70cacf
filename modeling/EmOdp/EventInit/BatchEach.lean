import EmOdp.EventInit.SameHeaders

/-! The batched initialisation against the one of each event in order. The passes over packets are one
pass, which does at each header what `evhdr_init_pkt` does; the labels of the calls differ. -/
namespace EmOdp.EventInit
open EventState Lib
open EventFree (OdpEvt OdpType)

variable {env : Env} {inPlace : Option (EvHdl → OdpEvt)} {isExtev : Bool} {dispQElem : Option Bool}
  {xs : List Slot} {x : Slot} {a a' : UserArea} {m m' : Memory}

section Passes

/-- The pass leaves the header of the index as it is. -/
def Keeps (f : Slot → UserArea → Except EvstateError (Slot × UserArea)) : Prop :=
  ∀ x a r, f x a = .ok r → r.1.evHdr = x.evHdr

theorem eachSlot_fuse {f : Slot → UserArea → Except EvstateError (Slot × UserArea)} (hf : Keeps f)
    (g : Slot → UserArea → Except EvstateError (Slot × UserArea)) {r : List Slot × Memory}
    (hnodup : (xs.map Slot.evHdr).Nodup) : (eachSlot f xs m).bind (fun r => eachSlot g r.1 r.2) = .ok r ↔
      eachSlot (fun x a => (f x a).bind fun r => g r.1 r.2) xs m = .ok r :=
  eachCell_fuse_iff hf hnodup

private theorem map_ok {α β : Type} {r : Except EvstateError α} {f : α → β} {b : β} (h : r.map f = .ok b) :
    ∃ a, b = f a := by
  cases r with
  | error e => cases h
  | ok a =>
    cases h
    exact ⟨a,rfl⟩

private theorem initializedPass_keeps : Keeps (initializedPass env inPlace isExtev) := by
  intro x a r h
  unfold initializedPass at h
  dsimp only at h
  split at h
  · cases h
    rfl
  split at h
  · split at h
    · obtain ⟨_,rfl⟩ := map_ok h
      rfl
    · cases h
      rfl
  · cases h
    rfl

private theorem needsInitPass_keeps {f : Slot → UserArea → Except EvstateError (Slot × UserArea)} (hf : Keeps f) :
    Keeps fun x a => needsInitPass x a f := by
  intro x a r h
  dsimp only [needsInitPass] at h
  split at h
  · exact hf x a r h
  · cases h
    rfl

/-- The pass that initialises the state -/
def evstatePass (env : Env) (inPlace : Option (EvHdl → OdpEvt)) (isExtev : Bool) :
    Slot → UserArea → Except EvstateError (Slot × UserArea) :=
  if !env.preallocPools then evstateInitPass env inPlace isExtev else evstatePreallocPass env inPlace isExtev

private theorem evstateInitPass_keeps : Keeps (evstateInitPass env inPlace isExtev) := by
  intro x a r h
  cases h
  rfl

private theorem evstatePass_keeps : Keeps (evstatePass env inPlace isExtev) := by
  unfold evstatePass
  split
  · exact evstateInitPass_keeps
  intro x a r h
  unfold evstatePreallocPass at h
  split at h
  · exact evstateInitPass_keeps x a r h
  · obtain ⟨_,rfl⟩ := map_ok h
    rfl

/-- The passes at one index -/
def pktSlot (env : Env) (inPlace : Option (EvHdl → OdpEvt)) (isExtev : Bool) (x : Slot) (a : UserArea) :
    Except EvstateError (Slot × UserArea) :=
  if !env.esvEnabled then
    (initializedPass env inPlace isExtev x a).bind fun r => needsInitPass r.1 r.2 noEsvPass
  else
    ((initializedPass env inPlace isExtev x a).bind fun r =>
      needsInitPass r.1 r.2 (evstatePass env inPlace isExtev)).bind fun r => needsInitPass r.1 r.2 fieldsPass

private theorem needsInitPass_none {f : Slot → UserArea → Except EvstateError (Slot × UserArea)}
    (hnone : (!xs.any Slot.needsInit) = true) : eachSlot (fun x a => needsInitPass x a f) xs m = .ok (xs,m) := by
  rw [Bool.not_eq_true', List.any_eq_false] at hnone
  exact eachCell_id fun x hx a => if_neg (hnone x hx)

/-- Without events to initialise the later passes do nothing. -/
private theorem evhdrInitPktMulti_eq : evhdrInitPktMulti env inPlace isExtev xs m =
    (eachSlot (initializedPass env inPlace isExtev) xs m).bind fun r =>
      if !env.esvEnabled then eachSlot (fun x a => needsInitPass x a noEsvPass) r.1 r.2
      else (eachSlot (fun x a => needsInitPass x a (evstatePass env inPlace isExtev)) r.1 r.2).bind fun r =>
        eachSlot (fun x a => needsInitPass x a fieldsPass) r.1 r.2 := by
  rw [evhdrInitPktMulti]
  congr 1
  funext r
  split
  · rename_i hnone
    rw [needsInitPass_none hnone, needsInitPass_none hnone]
    split
    · rfl
    · exact (needsInitPass_none hnone).symm
  · rfl

theorem evhdrInitPktMulti_ok_iff {r : List Slot × Memory} (hnodup : (xs.map Slot.evHdr).Nodup) :
    evhdrInitPktMulti env inPlace isExtev xs m = .ok r ↔ eachSlot (pktSlot env inPlace isExtev) xs m = .ok r := by
  rw [evhdrInitPktMulti_eq]
  unfold pktSlot
  have hinit : Keeps (initializedPass env inPlace isExtev) := initializedPass_keeps
  have hevstate : Keeps fun x a => (initializedPass env inPlace isExtev x a).bind fun r =>
      needsInitPass r.1 r.2 (evstatePass env inPlace isExtev) := by
    intro x a r h
    obtain ⟨b,hb,h⟩ := bind_ok_iff.1 h
    exact (needsInitPass_keeps evstatePass_keeps _ _ _ h).trans (hinit _ _ _ hb)
  cases hesv : env.esvEnabled with
  | false => exact eachSlot_fuse hinit _ hnodup
  | true =>
    refine Iff.trans ?_ (eachSlot_fuse hevstate (fun x a => needsInitPass x a fieldsPass) hnodup)
    have hfirst (c : List Slot × Memory) := eachSlot_fuse (m := m) (r := c) hinit
      (fun x a => needsInitPass x a (evstatePass env inPlace isExtev)) hnodup
    simp only [Bool.not_true, Bool.false_eq_true, if_false]
    rw [bind_ok_iff, bind_ok_iff]
    constructor
    · rintro ⟨b,hb,h⟩
      obtain ⟨c,hc,h⟩ := bind_ok_iff.1 h
      exact ⟨c,(hfirst c).1 (bind_ok_iff.2 ⟨b,hb,hc⟩),h⟩
    · rintro ⟨c,hc,h⟩
      obtain ⟨b,hb,hc⟩ := bind_ok_iff.1 ((hfirst c).2 hc)
      exact ⟨b,hb,bind_ok_iff.2 ⟨c,hc,h⟩⟩

end Passes

/-- The handle, the pointer and the header are those of the event; the label may be another one. -/
def SlotOf (p : HdrPtr) (r : Slot × UserArea) (r' : EvHdl × UserArea) : Prop :=
  r.1.result = (r'.1,p) ∧ r.2.Same r'.2

section Packet
variable {h : EventHdr} {event : EvHdl} {t : BitVec 32}

private theorem setEsv_setFields {r r' : EvHdr} (hevent : r.event = r'.event) (hcnt : r.stateCnt = r'.stateCnt) :
    (h.setFields t).setEsv r = (h.setEsv r').setFields t := by
  rw [EventHdr.setEsv, hevent, hcnt]
  rfl

private theorem updateState_setFields {op : ApiOp} :
    (h.setFields t).updateState env op = (h.updateState env op).setFields t := by
  unfold EventHdr.updateState
  split <;> rfl

theorem evstateInit_setFields : (h.setFields t).evstateInit env event isExtev =
    ((h.evstateInit env event isExtev).1,(h.evstateInit env event isExtev).2.setFields t) := by
  have hesv : (h.setFields t).setEsv (EventState.evstateInit .single event (h.setFields t).esv isExtev).2 =
      (h.setEsv (EventState.evstateInit .single event h.esv isExtev).2).setFields t := by
    cases isExtev with
    | false => exact setEsv_setFields rfl rfl
    | true => exact setEsv_setFields rfl rfl
  rw [EventHdr.evstateInit, EventHdr.evstateInit]
  refine Prod.ext ?_ ?_
  · cases isExtev <;> rfl
  · dsimp only
    rw [hesv, updateState_setFields]

/-- An update does not look at the event type. -/
private theorem evstateUpdate_odpType (evHdr : EvHdr) (odpType : Bool) :
    EventState.evstateUpdate event { evHdr with odpType } isExtev =
      (EventState.evstateUpdate event evHdr isExtev).map fun r => (r.1,{ r.2 with odpType }) := by
  cases isExtev with
  | false =>
    simp only [EventState.evstateUpdate, esvEm2usr, Bool.false_eq_true, if_false]
    split <;> rfl
  | true =>
    simp only [EventState.evstateUpdate, esvUpdateExt, if_true]
    split <;> split <;> rfl

theorem evstateUpdate_setFields : (h.setFields t).evstateUpdate env event isExtev =
    (h.evstateUpdate env event isExtev).map fun r => (r.1,r.2.setFields t) := by
  rw [EventHdr.evstateUpdate, EventHdr.evstateUpdate,
    show (h.setFields t).esv = { h.esv with odpType := t = emEventTypeOdp } from rfl, evstateUpdate_odpType]
  cases EventState.evstateUpdate event h.esv isExtev with
  | error e => rfl
  | ok r =>
    refine congrArg Except.ok (Prod.ext rfl ?_)
    have hesv : (h.setFields t).setEsv { r.2 with odpType := t = emEventTypeOdp } = (h.setEsv r.2).setFields t := rfl
    dsimp only
    rw [hesv, updateState_setFields, show (h.setFields t).flags = h.flags from rfl]
    split <;> rfl

/-- Both paths begin with the same state. -/
def evstateStart (env : Env) (isExtev : Bool) (event : EvHdl) (odpPkt : OdpEvt) (h : EventHdr) :
    Except EvstateError (EvHdl × EventHdr) :=
  if !env.preallocPools || (!env.emPool odpPkt || h.flags.refsUsed) then .ok (h.evstateInit env event isExtev)
  else h.evstateUpdate env event isExtev

private theorem evstatePass_eq : evstatePass env inPlace isExtev x a =
    (evstateStart env isExtev x.event x.odp a.hdr).map fun r => (x.setEvent inPlace r.1,{ a with hdr := r.2 }) := by
  rw [evstatePass, evstateStart]
  cases env.preallocPools with
  | false => rfl
  | true =>
    rw [if_neg (by decide)]
    unfold evstatePreallocPass
    rw [Bool.not_true, Bool.false_or]
    split <;> rfl

private theorem evstateStart_setFields {odpPkt : OdpEvt} :
    (if !env.preallocPools || (h.setFields t).flags.refsUsed then
        .ok ((h.setFields t).evstateInit env event isExtev)
      else if !env.emPool odpPkt then .ok ((h.setFields t).evstateInit env event isExtev)
      else (h.setFields t).evstateUpdate env event isExtev : Except EvstateError (EvHdl × EventHdr)) =
      (evstateStart env isExtev event odpPkt h).map fun r => (r.1,r.2.setFields t) := by
  rw [evstateInit_setFields, evstateUpdate_setFields, evstateStart, show (h.setFields t).flags = h.flags from rfl]
  cases env.preallocPools <;> cases h.flags.refsUsed <;> cases env.emPool odpPkt <;> rfl

private theorem evstateStart_alike {h' : EventHdr} (env : Env) (isExtev : Bool) (event : EvHdl) (odpPkt : OdpEvt)
    (hs : h.Same h') : Alike (SamePair EventHdr.Same) (evstateStart env isExtev event odpPkt h)
      (evstateStart env isExtev event odpPkt h') := by
  rw [evstateStart, evstateStart, hs.flags]
  split
  · exact hs.evstateInit
  · exact hs.evstateUpdate

private theorem evhdrInitialized_slot (hs : a.Same a') (hflag : a.userFlag = true) :
    Alike (SlotOf x.evHdr) (initializedPass env inPlace isExtev x a)
      (evhdrInitialized env .dispatch isExtev x.event a') := by
  rw [initializedPass, evhdrInitialized, if_neg (by rw [hflag]; decide), hs.1.handle]
  dsimp only
  split
  · split
    · exact hs.1.evstateEm2usr.map fun _ _ hr => ⟨Prod.ext hr.1 rfl,hr.2,hs.2⟩
    · exact ⟨rfl,hs⟩
  · exact ⟨rfl,hs⟩

/-- The later passes leave an event alone that EM has seen before. -/
private theorem initializedPass_done {f : Slot → UserArea → Except EvstateError (Slot × UserArea)}
    (hx : x.needsInit = false) (hflag : a.userFlag = true) :
    (initializedPass env inPlace isExtev x a).bind (fun r => needsInitPass r.1 r.2 f) =
      initializedPass env inPlace isExtev x a := by
  have hkept : ∀ r, initializedPass env inPlace isExtev x a = .ok r → r.1.needsInit = false := by
    intro r h
    rw [initializedPass, if_neg (by rw [hflag]; decide)] at h
    split at h
    · dsimp only at h
      split at h
      · obtain ⟨_,rfl⟩ := map_ok h
        exact hx
      · cases h
        exact hx
    · cases h
      exact hx
  cases hpass : initializedPass env inPlace isExtev x a with
  | error e => rfl
  | ok r => exact if_neg (by rw [hkept r hpass]; exact Bool.false_ne_true)

theorem pktSlot_alike (hs : a.Same a') (hx : x.needsInit = false) : Alike (SlotOf x.evHdr)
    (pktSlot env inPlace isExtev x a) (evhdrInitPkt env isExtev x.event a' x.odp) := by
  rw [pktSlot, evhdrInitPkt, hs.2]
  cases hflag : a.userFlag with
  | true =>
    rw [initializedPass_done hx hflag, initializedPass_done hx hflag, initializedPass_done hx hflag, ite_self,
      if_pos rfl]
    exact evhdrInitialized_slot hs hflag
  | false =>
    have hset := hs.1.setFields emEventTypePacket
    have hfirst : initializedPass env inPlace isExtev x a =
        .ok ({ x with needsInit := true },{ a with userFlag := true }) := if_pos (by rw [hflag]; rfl)
    rw [hfirst, if_neg Bool.false_ne_true]
    split
    · exact ⟨rfl,hset.clearFlags.setEvent _,rfl⟩
    have hstart := evstateStart_alike env isExtev x.event x.odp hs.1
    dsimp only [Except.bind, needsInitPass]
    rw [if_pos rfl, evstatePass_eq, evstateStart_setFields]
    dsimp only
    exact hstart.elim (fun _ _ => trivial) fun r r' hr =>
      ⟨Prod.ext hr.1 rfl,(hr.2.setFields emEventTypePacket).clearFlags,rfl⟩

end Packet

section Loops

/-- One pass over the headers, and the events one after the other -/
theorem eachSlot_alike {f : Slot → UserArea → Except EvstateError (Slot × UserArea)}
    (single : Slot → UserArea → Except EvstateError (EvHdl × UserArea)) (hs : SameHeaders m m')
    (hf : ∀ x ∈ xs, ∀ a a', a.Same a' → Alike (SlotOf x.evHdr) (f x a) (single x a'))
    (hsingle : ∀ x ∈ xs, ∀ m, eventInitOdp env isExtev dispQElem x.odp m =
      (access m x.evHdr (single x)).map fun r => ((r.1,x.evHdr),r.2)) :
    Alike (fun r r' => r.1.map Slot.result = r'.1 ∧ SameHeaders r.2 r'.2) (eachSlot f xs m)
      (eventInitOdpEach env isExtev dispQElem (xs.map Slot.odp) m') := by
  induction xs generalizing m m' with
  | nil => exact ⟨rfl,hs⟩
  | cons x xs ih =>
    have hone : Alike (fun r r' => r.1.result = (r'.1,x.evHdr) ∧ SameHeaders (Function.update m x.evHdr r.2) r'.2)
        (f x (m x.evHdr)) (access m' x.evHdr (single x)) :=
      (hf x List.mem_cons_self _ _ (hs x.evHdr)).map_right fun r r' hr => ⟨hr.1,hs.update hr.2⟩
    rw [List.map_cons, eachSlot, eachCell, eventInitOdpEach, hsingle x List.mem_cons_self]
    refine Alike.bind (R := fun r r' => r.1.result = r'.1 ∧ SameHeaders (Function.update m x.evHdr r.2) r'.2)
      (hone.map_right fun _ _ hr => hr) fun r r' hr => ?_
    have hrest := ih hr.2 (fun y hy => hf y (List.mem_cons_of_mem _ hy))
      fun y hy => hsingle y (List.mem_cons_of_mem _ hy)
    refine hrest.map fun rest rest' hrest => ⟨?_,hrest.2⟩
    rw [List.map_cons, hr.1, hrest.1]

/-- The loop for the other events -/
theorem eventInitRest_alike (hs : SameHeaders m m') :
    Alike (fun r r' => r.1.map Slot.result = r'.1 ∧ SameHeaders r.2 r'.2)
      (eventInitRest env inPlace isExtev dispQElem xs m)
      (eventInitOdpEach env isExtev dispQElem (xs.map Slot.odp) m') := by
  induction xs generalizing m m' with
  | nil => exact ⟨rfl,hs⟩
  | cons x xs ih =>
    rw [List.map_cons, eventInitRest, eventInitOdpEach]
    refine hs.eventInitOdp.bind fun r r' hr => (ih hr.2).map fun rest rest' hrest => ⟨?_,hrest.2⟩
    rw [List.map_cons, hrest.1, Slot.result, hr.1]
    rfl

theorem eventInitOdpEach_append (es es' : List OdpEvt) (m : Memory) :
    eventInitOdpEach env isExtev dispQElem (es ++ es') m =
      (eventInitOdpEach env isExtev dispQElem es m).bind fun r =>
        (eventInitOdpEach env isExtev dispQElem es' r.2).map fun rest => (r.1 ++ rest.1,rest.2) := by
  induction es generalizing m with
  | nil =>
    rw [List.nil_append, eventInitOdpEach]
    dsimp only [Except.bind]
    cases eventInitOdpEach env isExtev dispQElem es' m <;> rfl
  | cons e es ih =>
    rw [List.cons_append, eventInitOdpEach, eventInitOdpEach]
    cases eventInitOdp env isExtev dispQElem e m with
    | error err => rfl
    | ok r =>
      dsimp only [Except.bind]
      rw [ih]
      cases eventInitOdpEach env isExtev dispQElem es r.2 with
      | error err => rfl
      | ok rest =>
        dsimp only [Except.bind, Except.map]
        cases eventInitOdpEach env isExtev dispQElem es' rest.2 <;> rfl

end Loops

section Fast

/-- The entries that the helpers begin with -/
private theorem mem_fast (hx : x ∈ userAreas (eventsOdp2em xs)) :
    x.odp ∈ xs.map Slot.odp ∧ x.event = ⟨x.odp,0⟩ ∧ x.evHdr = .userArea x.odp ∧ x.needsInit = false := by
  obtain ⟨y,hy,rfl⟩ := List.mem_map.1 hx
  obtain ⟨z,hz,rfl⟩ := List.mem_map.1 hy
  exact ⟨List.mem_map.2 ⟨z,hz,rfl⟩,rfl,rfl,rfl⟩

private theorem fast_odp (xs : List Slot) : (userAreas (eventsOdp2em xs)).map Slot.odp = xs.map Slot.odp := by
  rw [userAreas, eventsOdp2em, List.map_map, List.map_map]
  rfl

private theorem fast_nodup (hdistinct : (xs.map Slot.odp).Nodup) :
    ((userAreas (eventsOdp2em xs)).map Slot.evHdr).Nodup := by
  have hmap : (userAreas (eventsOdp2em xs)).map Slot.evHdr = (xs.map Slot.odp).map HdrPtr.userArea := by
    rw [userAreas, eventsOdp2em, List.map_map, List.map_map, List.map_map]
    rfl
  rw [hmap]
  exact hdistinct.map fun _ _ h => HdrPtr.userArea.inj h

theorem eventInitPktMulti_alike (hs : SameHeaders m m') (hdistinct : (xs.map Slot.odp).Nodup)
    (htype : ∀ e ∈ xs.map Slot.odp, env.type e = .packet) :
    Alike (fun r r' => r.1.map Slot.result = r'.1 ∧ SameHeaders r.2 r'.2)
      (eventInitPktMulti env inPlace isExtev (eventsOdp2em xs) m)
      (eventInitOdpEach env isExtev dispQElem (xs.map Slot.odp) m') := by
  rw [← fast_odp]
  refine Alike.of_ok_iff (fun r => evhdrInitPktMulti_ok_iff (fast_nodup hdistinct)) (eachSlot_alike
    (fun x a => evhdrInitPkt env isExtev x.event a x.odp) hs (fun x hx a a' ha => ?_) fun x hx m => ?_)
  · exact pktSlot_alike ha (mem_fast hx).2.2.2
  · obtain ⟨hmem,hevent,hhdr,-⟩ := mem_fast hx
    unfold eventInitOdp
    rw [htype _ hmem, hevent, hhdr, eventToHdr, htype _ hmem, if_neg (by decide)]

/-- The passes over buffers, at one index -/
private theorem bufSlot_alike (hs : a.Same a') : Alike (SlotOf x.evHdr)
    (if !env.esvEnabled then .ok (x,a)
      else if isExtev then (a.hdr.evstateEm2usr env .dispatchMulti x.event).map fun r =>
        (x.setEvent inPlace r.1,{ a with hdr := r.2 })
      else .ok (x.setEvent inPlace a.hdr.event,a))
    (initBuf env .dispatch isExtev x.event a') := by
  rw [initBuf, hs.1.handle]
  cases env.esvEnabled with
  | false => exact ⟨rfl,hs⟩
  | true =>
    cases isExtev with
    | false => exact ⟨rfl,hs⟩
    | true => exact hs.1.evstateEm2usr.map fun _ _ hr => ⟨Prod.ext hr.1 rfl,hr.2,hs.2⟩

private theorem eventInitBufMulti_eq : eventInitBufMulti env inPlace isExtev xs m =
    eachSlot (fun x a => if !env.esvEnabled then .ok (x,a)
      else if isExtev then (a.hdr.evstateEm2usr env .dispatchMulti x.event).map fun r =>
        (x.setEvent inPlace r.1,{ a with hdr := r.2 })
      else .ok (x.setEvent inPlace a.hdr.event,a)) (userAreas xs) m := by
  rw [eventInitBufMulti]
  cases env.esvEnabled with
  | false => exact (eachCell_id fun _ _ _ => rfl).symm
  | true => cases isExtev <;> rfl

theorem eventInitBufMulti_alike (hs : SameHeaders m m') (htype : ∀ e ∈ xs.map Slot.odp, env.type e = .buffer) :
    Alike (fun r r' => r.1.map Slot.result = r'.1 ∧ SameHeaders r.2 r'.2)
      (eventInitBufMulti env inPlace isExtev (eventsOdp2em xs) m)
      (eventInitOdpEach env isExtev dispQElem (xs.map Slot.odp) m') := by
  rw [← fast_odp, eventInitBufMulti_eq]
  refine eachSlot_alike (fun x => initBuf env .dispatch isExtev x.event) hs
    (fun x hx a a' ha => bufSlot_alike ha) fun x hx m => ?_
  obtain ⟨hmem,hevent,hhdr,-⟩ := mem_fast hx
  unfold eventInitOdp
  rw [htype _ hmem, hevent, hhdr, eventToHdr, htype _ hmem, if_neg (by decide)]

/-- The rest follows what the helper has done. -/
private theorem fast_alike {f : List Slot → Memory → Except EvstateError (List Slot × Memory)} {n : Nat}
    (h : Alike (fun r r' => r.1.map Slot.result = r'.1 ∧ SameHeaders r.2 r'.2) (f (eventsOdp2em (xs.take n)) m)
      (eventInitOdpEach env isExtev dispQElem ((xs.take n).map Slot.odp) m')) :
    Alike (fun r r' => r.1.map Slot.result = r'.1 ∧ SameHeaders r.2 r'.2)
      ((f (eventsOdp2em (xs.take n)) m).bind fun r =>
        (eventInitRest env inPlace isExtev dispQElem (xs.drop n) r.2).map fun rest => (r.1 ++ rest.1,rest.2))
      (eventInitOdpEach env isExtev dispQElem (xs.map Slot.odp) m') := by
  rw [← List.take_append_drop n (xs.map Slot.odp), eventInitOdpEach_append, ← List.map_take, ← List.map_drop]
  refine h.bind fun r r' hr => (eventInitRest_alike hr.2).map fun rest rest' hrest => ⟨?_,hrest.2⟩
  rw [List.map_append, hr.1, hrest.1]

private theorem type_of_take {t : OdpType} (ht : env.type x.odp = t) :
    ∀ e ∈ ((x :: xs).take (env.typeMulti ((x :: xs).map Slot.odp))).map Slot.odp, env.type e = t := by
  intro e he
  rw [List.map_take] at he
  exact (env.typeMulti_type _ _ e he).trans ht

end Fast

/-- How many events from the first one on are of its type -/
def leadingRun (type : OdpEvt → OdpType) (es : List OdpEvt) : Nat :=
  (es.takeWhile fun e => es.head?.map type = some (type e)).length

theorem leadingRun_type {type : OdpEvt → OdpType} (e : OdpEvt) (es : List OdpEvt) :
    ∀ e' ∈ (e :: es).take (leadingRun type (e :: es)), type e' = type e := by
  intro e' he'
  rw [leadingRun, ← List.prefix_iff_eq_take.1 (List.takeWhile_prefix _)] at he'
  have h := of_decide_eq_true (List.all_eq_true.1 List.all_takeWhile e' he')
  exact (Option.some.inj h).symm

/-- The fast path and the loop for the rest give the handles and the header pointers that the events get
one after the other, and leave their headers, counters and user flags, but for the labels of the calls;
the ESV ends the one with an error if it does the other. -/
theorem event_init_odp_multi_eq_each (env : Env) (inPlace : Option (EvHdl → OdpEvt)) (isExtev : Bool)
    (dispQElem : Option Bool) (xs : List Slot) (m : Memory) (hdistinct : (xs.map Slot.odp).Nodup) :
    Alike (fun r r' => r.1.map Slot.result = r'.1 ∧ SameHeaders r.2 r'.2)
      (eventInitOdpMulti env inPlace isExtev dispQElem xs m)
      (eventInitOdpEach env isExtev dispQElem (xs.map Slot.odp) m) := by
  have hsame : SameHeaders m m := fun p => .refl (m p)
  cases xs with
  | nil => exact ⟨rfl,hsame⟩
  | cons x xs =>
    rw [eventInitOdpMulti]
    split
    · rename_i ht
      refine fast_alike (eventInitPktMulti_alike hsame ?_ (type_of_take ht))
      rw [List.map_take]
      exact hdistinct.sublist (List.take_sublist ..)
    · rename_i ht
      exact fast_alike (eventInitBufMulti_alike hsame (type_of_take ht))
    · exact eventInitRest_alike hsame

private def batchEnv : Env where
  esvEnabled := true
  preallocPools := true
  storeState := true
  storeFirstU32 := false
  eoIdx := 0
  queueIdx := 0
  core := 0
  type e := if e = 4 then .vector else .packet
  emPool _ := false
  payloadFirst _ := none
  table _ := [5]
  vectorType _ := some .packet
  typeMulti := leadingRun fun e => if e = 4 then .vector else .packet
  typeMulti_type := leadingRun_type

private def batchMemory : Memory := fun p =>
  ⟨⟨initCntExtev,⟨0,0,0,.other 0,0⟩,⟨false,0,false,true,0⟩,emEventTypePacket,⟨7,0⟩,0,0⟩,p ≠ .userArea 2⟩

private def batchSlots : List Slot := [1,2,3,4].map fun e => ⟨e,⟨0,0⟩,.evhdrNonem,false⟩

/-- A packet from outside between two that EM has seen, and a vector with an inner event -/
theorem event_init_odp_multi_eq_each_vector :
    (eventInitOdpMulti batchEnv none true none batchSlots batchMemory).toOption.isSome = true ∧
      Alike (fun r r' => r.1.map Slot.result = r'.1 ∧ SameHeaders r.2 r'.2)
        (eventInitOdpMulti batchEnv none true none batchSlots batchMemory)
        (eventInitOdpEach batchEnv true none (batchSlots.map Slot.odp) batchMemory) :=
  ⟨by decide,event_init_odp_multi_eq_each batchEnv none true none batchSlots batchMemory (by decide)⟩

end EmOdp.EventInit
