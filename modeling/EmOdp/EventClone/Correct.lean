import EmOdp.EventClone.Machine
import EmOdp.EventState.Generation

/-! What a clone has to be, and the clone of a packet that ODP makes. -/
namespace EmOdp.EventClone
open EventState Pool Alloc
open EventFree (emEventUndef)

namespace Request

def offset : Request → Nat
  | .clone => 0
  | .part offset _ _ => offset

/-- The size of the clone of an event of `size` bytes -/
def size (size : Nat) : Request → Nat
  | .clone => size
  | .part _ len _ => len

def cloneUarea : Request → Bool
  | .clone => true
  | .part _ _ cloneUarea => cloneUarea

def isPart : Request → Bool
  | .clone => false
  | .part .. => true

def Within (size : Nat) : Request → Prop
  | .clone => True
  | .part offset len _ => 0 < len ∧ offset + len ≤ size

theorem Within.le {req : Request} {size : Nat} (h : req.Within size) : req.offset + req.size size ≤ size := by
  cases req with
  | clone => exact Nat.le_of_eq (Nat.zero_add size)
  | part offset len cloneUarea => exact h.2

end Request

variable {cfg : Config} {odp : Odp} {s t : State} {event : EvHdl} {parent : OdpElem} {req : Request}
  {pool : Option Nat}

/-- The types of the events that a pool supports -/
def Supports (eventType : EventType) (type : EmEventType) : Prop :=
  match eventType with
  | .packet => emEventTypeMajor type ≠ emEventTypeVector
  | .sw => emEventTypeMajor type ≠ emEventTypePacket ∧ emEventTypeMajor type ≠ emEventTypeVector
  | .vector => emEventTypeMajor type = emEventTypeVector

/-- `size` bytes from `event_pointer` on are in what has been allocated. -/
def Fits (odp : Odp) (odpEvent : BitVec 48) (elem : OdpElem) (size : Nat) : Prop :=
  match odp.odpEventType odpEvent with
  | .packet => size ≤ elem.pkt.len
  | .buffer =>
    eventPointer ⟨0,odp.bufSize odpEvent⟩ elem.hdr.alignOffset.toNat + size ≤ odp.bufSize odpEvent
  | .vector => False

/-- The user holds the event, in a state as after an allocation. -/
structure UserOwned (cfg : Config) (event : EvHdl) (hdr : EventHdr) : Prop where
  hdl : hdr.event = event
  flags : hdr.flags = {}
  state : cfg.esvEnabled = true → event.evgen = hdr.stateCnt.evgen ∧ hdr.stateCnt.sends = 0 ∧
    hdr.stateCnt.refs = 1

/-- The header of the clone has the user area of the parent, and so has its memory. -/
structure UserAreaCloned (parent hdr : EventHdr) (src dst : Nat → BitVec 8) : Prop where
  size : parent.userArea.size.toNat ≤ hdr.userArea.size.toNat
  issetId : hdr.userArea.issetId = parent.userArea.issetId
  id : hdr.userArea.id = parent.userArea.id
  content : ∀ i < parent.userArea.size.toNat, dst i = src i

/-- The clone of the parent, and that nothing else is changed; the parent is one of the others. -/
structure Cloned (cfg : Config) (odp : Odp) (s : State) (event : EvHdl) (parent : OdpElem) (req : Request)
    (pool : Option Nat) (clone : EvHdl) (elem : OdpElem) (t : State) : Prop where
  defined : clone ≠ emEventUndef
  live : t.live clone.evptr = some elem
  new : s.live clone.evptr = none
  kind : odp.odpEventType clone.evptr ≠ .vector
  type : elem.hdr.eventType = parent.hdr.eventType
  supports : ∀ emPool ∈ targetPool odp event.evptr pool, ∀ poolElem, s.mpoolTbl emPool = some poolElem →
    Supports poolElem.eventType elem.hdr.eventType
  size : emEventSize odp clone.evptr elem = req.size (emEventSize odp event.evptr parent)
  fits : Fits odp clone.evptr elem (req.size (emEventSize odp event.evptr parent))
  payload : ∀ i < req.size (emEventSize odp event.evptr parent),
    t.payload clone.evptr i = s.payload event.evptr (req.offset + i)
  userArea : req.cloneUarea = true → parent.hdr.userArea.isinit = true →
    UserAreaCloned parent.hdr elem.hdr (s.userArea event.evptr) (t.userArea clone.evptr)
  egrp : elem.hdr.egrp = none
  owned : UserOwned cfg clone elem.hdr
  others : ∀ other, other ≠ clone.evptr → t.live other = s.live other ∧
    t.payload other = s.payload other ∧ t.userArea other = s.userArea other

/-- Nothing is left allocated, or the clone is as it has to be. -/
def Correct (cfg : Config) (odp : Odp) (s : State) (event : EvHdl) (parent : OdpElem) (req : Request)
    (pool : Option Nat) : Option (Except Status EvHdl × State) → Prop
  | none => False
  | some (.error _,t) => t = s
  | some (.ok clone,t) => ∃ elem, Cloned cfg odp s event parent req pool clone elem t

/-- An element that is not allocated -/
structure Free (cfg : Config) (odp : Odp) (s : State) (kind : OdpEventType) (elem : OdpElem) : Prop where
  defined : elem.odpEvent ≠ 0
  live : s.live elem.odpEvent = none
  kind : odp.odpEventType elem.odpEvent = kind
  /-- what a free leaves -/
  freed : cfg.preallocPools = true → elem.hdr.flags.refsUsed = false →
    ∃ g : Int, 0 ≤ g ∧ g < 2 ^ 16 ∧ elem.hdr.stateCnt = EvstateCnt.encode g 0 0

/-- The kind of the events of a pool -/
def kindOf : EventType → OdpEventType
  | .sw => .buffer
  | .packet => .packet
  | .vector => .vector

/-- The pools as they have been created and used -/
structure Valid (cfg : Config) (odp : Odp) (s : State) : Prop where
  created : ∀ p poolElem, s.mpoolTbl p = some poolElem → Created poolElem
  userArea : ∀ p poolElem, s.mpoolTbl p = some poolElem → poolElem.userAreaSize ≤ emEventUserAreaMaxSize
  free : ∀ p poolElem, s.mpoolTbl p = some poolElem → ∀ subpool ∈ poolElem.subpools, ∀ elem ∈ subpool.free,
    Free cfg odp s (kindOf poolElem.eventType) elem
  ext : ∀ p, odp.poolOdp2em p = none → ∀ elem ∈ s.extFree p,
    Free cfg odp s .packet elem ∧ odp.odpPool elem.odpEvent = p
  odp2em : ∀ p emPool, odp.poolOdp2em p = some emPool → (s.mpoolTbl emPool).isSome

/-- A buffer, or a packet with a single segment, that the user holds -/
structure Held (odp : Odp) (s : State) (event : EvHdl) (parent : OdpElem) : Prop where
  defined : event ≠ emEventUndef
  live : s.live event.evptr = some parent
  kind : odp.odpEventType event.evptr ≠ .vector
  type : emEventTypeMajor parent.hdr.eventType ≠ emEventTypeVector
  size : emEventSize odp event.evptr parent < 2 ^ 32
  userArea : odp.odpEventType event.evptr = .packet → parent.hdr.userArea.isinit = true →
    parent.hdr.userArea.size.toNat ≤ odp.userAreaSize (odp.odpPool event.evptr)

section Contents

theorem memcpy_lt {dst src : Nat → BitVec 8} {n i : Nat} (h : i < n) : memcpy dst src n i = src i := if_pos h

variable {elem : OdpElem} {data userArea : Nat → BitVec 8}

theorem create_live : (s.create elem data userArea).live elem.odpEvent = some elem := Function.update_self ..

theorem create_payload : (s.create elem data userArea).payload elem.odpEvent = data := Function.update_self ..

theorem create_userArea : (s.create elem data userArea).userArea elem.odpEvent = userArea :=
  Function.update_self ..

theorem create_others {other : BitVec 48} (h : other ≠ elem.odpEvent) :
    (s.create elem data userArea).live other = s.live other ∧
      (s.create elem data userArea).payload other = s.payload other ∧
      (s.create elem data userArea).userArea other = s.userArea other :=
  ⟨Function.update_of_ne h ..,Function.update_of_ne h ..,Function.update_of_ne h ..⟩

end Contents

section States

/-- The state after `evstate_init` -/
theorem initCntAlloc_owned : evgenInit = initCntAlloc.evgen ∧ initCntAlloc.sends = 0 ∧ initCntAlloc.refs = 1 := by
  decide

theorem allocCnt_owned {stateCnt : EvstateCnt} {refsUsed : Bool} (h : cfg.preallocPools = true → refsUsed = false →
    ∃ g : Int, 0 ≤ g ∧ g < 2 ^ 16 ∧ stateCnt = EvstateCnt.encode g 0 0) :
    ∃ r, allocCnt cfg stateCnt refsUsed = some r ∧ r.1 = r.2.evgen ∧ r.2.sends = 0 ∧ r.2.refs = 1 := by
  rw [allocCnt]
  by_cases hnew : (!cfg.preallocPools || refsUsed) = true
  · rw [if_pos hnew]
    exact ⟨_,rfl,initCntAlloc_owned⟩
  · rw [if_neg hnew]
    rw [Bool.or_eq_true, not_or, Bool.not_eq_true', Bool.not_eq_false, Bool.not_eq_true refsUsed] at hnew
    obtain ⟨g,h0,h1,rfl⟩ := h hnew.1 hnew.2
    have hsub : (EvstateCnt.encode g 0 0).subFetch cntAlloc = EvstateCnt.encode g 0 1 := by
      rw [cntAlloc, encode_subFetch]
      congr 1
      simp
    have hrange : InRange 0 1 := ⟨by decide,by decide,by decide,by decide⟩
    obtain ⟨hsends,hrefs⟩ := hrange.sends_refs h0 (by omega)
    have hok : ¬(EvstateCnt.encode g 0 1).em2usrError := by
      rw [em2usrError_encode hrange h0 (by omega)]
      decide
    simp only [hsub, if_neg hok]
    exact ⟨_,rfl,rfl,hsends,hrefs⟩

/-- The header of a new event: the handle and the counters are set, all else is as it was. -/
structure Stamped (cfg : Config) (odpEvent : BitVec 48) (hdr hdr' : EventHdr) : Prop where
  evptr : hdr'.event.evptr = odpEvent
  state : cfg.esvEnabled = true → hdr'.event.evgen = hdr'.stateCnt.evgen ∧ hdr'.stateCnt.sends = 0 ∧
    hdr'.stateCnt.refs = 1
  rest : hdr' = { hdr with event := hdr'.event, stateCnt := hdr'.stateCnt }

theorem Stamped.kept {odpEvent : BitVec 48} {hdr hdr' : EventHdr} (h : Stamped cfg odpEvent hdr hdr') :
    hdr'.eventType = hdr.eventType ∧ hdr'.userArea = hdr.userArea ∧ hdr'.alignOffset = hdr.alignOffset := by
  rw [h.rest]
  exact ⟨rfl,rfl,rfl⟩

theorem stamped_init (cfg : Config) (odpEvent : BitVec 48) (hdr : EventHdr) : Stamped cfg odpEvent hdr
    (if cfg.esvEnabled then evstateInit (eventOdp2em odpEvent) hdr false
      else { hdr with event := eventOdp2em odpEvent }) := by
  by_cases hesv : cfg.esvEnabled = true
  · rw [if_pos hesv]
    exact ⟨rfl,fun _ => initCntAlloc_owned,rfl⟩
  · rw [if_neg hesv]
    exact ⟨rfl,fun h => absurd h hesv,rfl⟩

theorem stamped_alloc {odpEvent : BitVec 48} {hdr : EventHdr} (hevent : hdr.event = eventOdp2em odpEvent)
    (hfreed : cfg.preallocPools = true → hdr.flags.refsUsed = false →
      ∃ g : Int, 0 ≤ g ∧ g < 2 ^ 16 ∧ hdr.stateCnt = EvstateCnt.encode g 0 0) :
    ∃ hdr', (if cfg.esvEnabled then (hdr.evstateAlloc cfg hdr.event).map Prod.snd else some hdr) = some hdr' ∧
      Stamped cfg odpEvent hdr hdr' := by
  by_cases hesv : cfg.esvEnabled = true
  · obtain ⟨r,hr,hgen,hstate⟩ := allocCnt_owned hfreed
    rw [if_pos hesv, evstateAlloc_eq, hr, hevent]
    exact ⟨_,rfl,rfl,fun _ => ⟨hgen,hstate⟩,rfl⟩
  · rw [if_neg hesv]
    exact ⟨hdr,rfl,by rw [hevent]; rfl,fun h => absurd h hesv,rfl⟩

end States

/-- A free element becomes the clone. -/
theorem Cloned.create {kind : OdpEventType} {elem clone : OdpElem} {data userArea : Nat → BitVec 8}
    (hfree : Free cfg odp s kind elem) (hodp : clone.odpEvent = elem.odpEvent) (hkind : kind ≠ .vector)
    (hlive : t.live = s.live) (hpayload : t.payload = s.payload) (huarea : t.userArea = s.userArea)
    (hevptr : clone.hdr.event.evptr = elem.odpEvent)
    (htype : clone.hdr.eventType = parent.hdr.eventType)
    (hsupports : ∀ emPool ∈ targetPool odp event.evptr pool, ∀ poolElem, s.mpoolTbl emPool = some poolElem →
      Supports poolElem.eventType parent.hdr.eventType)
    (hsize : emEventSize odp elem.odpEvent clone = req.size (emEventSize odp event.evptr parent))
    (hfits : Fits odp elem.odpEvent clone (req.size (emEventSize odp event.evptr parent)))
    (hdata : ∀ i < req.size (emEventSize odp event.evptr parent),
      data i = s.payload event.evptr (req.offset + i))
    (hcontent : req.cloneUarea = true → parent.hdr.userArea.isinit = true →
      UserAreaCloned parent.hdr clone.hdr (s.userArea event.evptr) userArea)
    (hegrp : clone.hdr.egrp = none) (howned : UserOwned cfg clone.hdr.event clone.hdr) :
    Cloned cfg odp s event parent req pool clone.hdr.event clone (t.create clone data userArea) := by
  have hat : clone.hdr.event.evptr = clone.odpEvent := hevptr.trans hodp.symm
  refine ⟨fun hundef => hfree.defined ?_,?_,?_,?_,htype,?_,?_,?_,?_,?_,hegrp,howned,?_⟩
  · rw [← hevptr, hundef]
    rfl
  · rw [hat, create_live]
  · rw [hevptr]
    exact hfree.live
  · rw [hevptr, hfree.kind]
    exact hkind
  · rw [htype]
    exact hsupports
  · rw [hevptr]
    exact hsize
  · rw [hevptr]
    exact hfits
  · rw [hat, create_payload]
    exact hdata
  · rw [hat, create_userArea]
    exact hcontent
  · intro other hne
    rw [hat] at hne
    obtain ⟨h1,h2,h3⟩ := @create_others t clone data userArea other hne
    rw [h1, h2, h3, hlive, hpayload, huarea]
    exact ⟨rfl,rfl,rfl⟩

section PktCloneOdp

theorem pktCloneOdp_eq (hkind : odp.odpEventType event.evptr = .packet) (pktPool : Nat) :
    pktCloneOdp cfg odp event.evptr parent pktPool req.offset (req.size (emEventSize odp event.evptr parent))
      req.cloneUarea req.isPart s =
    match s.extFree pktPool with
    | [] => none
    | elem :: free =>
      if req.isPart && req.cloneUarea && odp.userAreaSize (odp.odpPool elem.odpEvent) <
          odp.userAreaSize (odp.odpPool event.evptr) then none
      else
        let size := req.size (emEventSize odp event.evptr parent)
        let hdr := if cfg.esvEnabled then evstateInit (eventOdp2em elem.odpEvent) parent.hdr false
          else { parent.hdr with event := eventOdp2em elem.odpEvent }
        let hdr := { hdr with flags := {}, egrp := none }
        some (hdr.event,{ s with extFree := Function.update s.extFree pktPool free }.create
          { elem.setLen size with userFlag := true, hdr }
          (memcpy (s.payload elem.odpEvent) (fun i => s.payload event.evptr (req.offset + i)) size)
          (memcpy (s.userArea elem.odpEvent) (s.userArea event.evptr)
            (if !req.isPart || req.cloneUarea then odp.userAreaSize (odp.odpPool event.evptr) else 0))) := by
  have hsize : emEventSize odp event.evptr parent = parent.pkt.len := by rw [emEventSize, hkind]
  rw [hsize]
  cases req <;> simp only [pktCloneOdp, odpPacketCopyPart] <;> cases s.extFree pktPool <;> rfl

/-- ODP gives no packet, or the clone. -/
theorem pktCloneOdp_correct (hv : Valid cfg odp s) (hp : Held odp s event parent)
    (hkind : odp.odpEventType event.evptr = .packet) (htarget : targetPool odp event.evptr pool = none)
    {r : Option (EvHdl × State)}
    (hr : pktCloneOdp cfg odp event.evptr parent (odp.odpPool event.evptr) req.offset
      (req.size (emEventSize odp event.evptr parent)) req.cloneUarea req.isPart s = r) :
    r = none ∨ ∃ clone elem t, r = some (clone,t) ∧ Cloned cfg odp s event parent req pool clone elem t := by
  have hext : odp.poolOdp2em (odp.odpPool event.evptr) = none := by
    cases pool with
    | none => exact htarget
    | some p => cases htarget
  rw [pktCloneOdp_eq hkind] at hr
  cases hfree : s.extFree (odp.odpPool event.evptr) with
  | nil =>
    rw [hfree] at hr
    exact .inl hr.symm
  | cons elem free =>
    obtain ⟨helem,hpool⟩ := hv.ext _ hext elem (by rw [hfree]; exact List.mem_cons_self)
    rw [hfree] at hr
    have hroom : ¬(req.isPart && req.cloneUarea && odp.userAreaSize (odp.odpPool elem.odpEvent) <
        odp.userAreaSize (odp.odpPool event.evptr)) = true := by
      rw [hpool]
      simp
    simp only [if_neg hroom] at hr
    have hst := stamped_init cfg elem.odpEvent parent.hdr
    generalize (if cfg.esvEnabled then evstateInit (eventOdp2em elem.odpEvent) parent.hdr false
      else { parent.hdr with event := eventOdp2em elem.odpEvent }) = hdr at hr hst
    let made : OdpElem := { elem.setLen (req.size (emEventSize odp event.evptr parent)) with
      userFlag := true, hdr := { hdr with flags := {}, egrp := none } }
    have hodp : made.odpEvent = elem.odpEvent := rfl
    obtain ⟨htype,huareaHdr,-⟩ := hst.kept
    refine .inr ⟨_,made,_,hr.symm,?_⟩
    refine Cloned.create helem hodp (by decide) rfl rfl rfl hst.evptr htype ?_ ?_ ?_ ?_ ?_ rfl
      ⟨rfl,rfl,hst.state⟩
    · intro emPool hem
      rw [htarget] at hem
      cases hem
    · rw [emEventSize, helem.kind]
      rfl
    · rw [Fits, helem.kind]
      exact Nat.le_refl _
    · exact fun i hi => memcpy_lt hi
    · intro huarea hinit
      have hcpy : (!req.isPart || req.cloneUarea) = true := by rw [huarea, Bool.or_true]
      rw [if_pos hcpy]
      refine ⟨?_,congrArg UserArea.issetId huareaHdr,congrArg UserArea.id huareaHdr,
        fun i hi => memcpy_lt (Nat.lt_of_lt_of_le hi (hp.userArea hkind hinit))⟩
      exact Nat.le_of_eq (congrArg (fun userArea => userArea.size.toNat) huareaHdr.symm)

end PktCloneOdp
end EmOdp.EventClone
