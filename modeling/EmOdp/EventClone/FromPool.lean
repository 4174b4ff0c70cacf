import EmOdp.EventClone.Correct

/-! When a clone is as it has to be. -/
namespace EmOdp.EventClone
open EventState Pool Alloc
open EventFree (emEventUndef)

variable {cfg : Config} {odp : Odp} {s : State} {event : EvHdl} {parent : OdpElem} {req : Request}
  {pool : Option Nat} {poolElem : MpoolElem} {size : Nat}

section AllocClone

/-- An element as `event_alloc_pkt` or `event_alloc_buf` returns it -/
structure Taken (poolElem : MpoolElem) (size : Nat) (elem clone : OdpElem) : Prop where
  odpEvent : clone.odpEvent = elem.odpEvent
  event : clone.hdr.event = eventOdp2em elem.odpEvent
  stateCnt : clone.hdr.stateCnt = elem.hdr.stateCnt
  flags : clone.hdr.flags = elem.hdr.flags
  len : poolElem.eventType = .packet → clone.pkt.len = size
  alignOffset : poolElem.eventType ≠ .packet → clone.hdr.alignOffset = .ofNat 8 poolElem.alignOffset

theorem prepared_taken (h : Created poolElem) (htype : poolElem.eventType = .packet) (hsize : size < 2 ^ 32)
    (elem : OdpElem) : Taken poolElem size elem (prepared cfg poolElem size elem) := by
  have hlen : (pktLens poolElem.alignOffset size).1 + poolElem.alignOffset - (pktLens poolElem.alignOffset size).2 =
      size := by
    rw [pktLens_eq h.alignOffset hsize]
    split <;> dsimp only <;> omega
  refine ⟨?_,?_,?_,?_,fun _ => ?_,fun hne => absurd htype hne⟩ <;> rw [prepared, htype]
  exact hlen

theorem allocClone_eq (cfg : Config) (h : Created poolElem) (hsize : size < 2 ^ 32) :
    (allocClone cfg poolElem size = none ∧ takeEvents 1 poolElem size = ([],poolElem)) ∨
      ∃ elem clone poolElem', allocClone cfg poolElem size = some (clone,poolElem') ∧
        takeEvents 1 poolElem size = ([elem],poolElem') ∧ Taken poolElem size elem clone := by
  rw [allocClone]
  by_cases htype : poolElem.eventType = .packet
  · have halloc : eventAllocHdr cfg poolElem size = eventAllocPkt cfg poolElem size := by rw [eventAllocHdr, htype]
    rw [if_pos htype, ← halloc]
    rcases @eventAllocHdr_eq cfg poolElem size h hsize with hnone | ⟨elem,poolElem',hsome,htake⟩
    · exact .inl hnone
    · exact .inr ⟨elem,_,poolElem',hsome,htake,prepared_taken h htype hsize elem⟩
  · rw [if_neg htype]
    rcases @allocElem_eq cfg poolElem size _ _ h fun _ _ _ _ => rfl with hnone | ⟨elem,poolElem',hsome,htake⟩
    · exact .inl hnone
    · exact .inr ⟨elem,_,poolElem',hsome,htake,rfl,rfl,rfl,rfl,fun hpkt => absurd hpkt htype,fun _ => rfl⟩

end AllocClone

/-- A check above level 0 refuses the pool. -/
def Refused (cfg : Config) (poolElem : MpoolElem) (hdr : EventHdr) (cloneUarea : Bool) : Prop :=
  0 < cfg.checkLevel ∧ (wrongType poolElem hdr = true ∨ uareaTooSmall poolElem hdr cloneUarea = true)

/-- A free element of the pool can become a clone of `size` bytes of the event with the header. -/
structure Suits (odp : Odp) (poolElem : MpoolElem) (hdr : EventHdr) (cloneUarea : Bool) (size : Nat)
    (elem : OdpElem) : Prop where
  notVector : poolElem.eventType ≠ .vector
  type : wrongType poolElem hdr = false
  userArea : uareaTooSmall poolElem hdr cloneUarea = false
  room : poolElem.eventType = .sw →
    eventPointer ⟨0,odp.bufSize elem.odpEvent⟩ poolElem.alignOffset + size ≤ odp.bufSize elem.odpEvent

/-- The pool of the clone, if it is an EM pool, is refused, has no fitting element left or gives one that suits. -/
def SuitsOrRefused (cfg : Config) (odp : Odp) (s : State) (event : EvHdl) (parent : OdpElem) (req : Request)
    (pool : Option Nat) : Prop :=
  ∀ emPool ∈ targetPool odp event.evptr pool, ∀ poolElem, s.mpoolTbl emPool = some poolElem →
    Refused cfg poolElem parent.hdr req.cloneUarea ∨
      ∀ elem ∈ (takeEvents 1 poolElem (req.size (emEventSize odp event.evptr parent))).1,
        Suits odp poolElem parent.hdr req.cloneUarea (req.size (emEventSize odp event.evptr parent)) elem

section FromPool

theorem supports_iff {hdr : EventHdr} (hvector : emEventTypeMajor hdr.eventType ≠ emEventTypeVector) :
    Supports poolElem.eventType hdr.eventType ↔
      poolElem.eventType ≠ .vector ∧ wrongType poolElem hdr = false := by
  rw [wrongType]
  cases poolElem.eventType with
  | packet => simp [Supports, hvector]
  | sw => simp [Supports, hvector]
  | vector => simp [Supports, hvector]

theorem userAreaSize_ofNat (h : poolElem.userAreaSize ≤ emEventUserAreaMaxSize) :
    (BitVec.ofNat 14 poolElem.userAreaSize).toNat = poolElem.userAreaSize := by
  rw [emEventUserAreaMaxSize] at h
  rw [BitVec.toNat_ofNat]
  omega

theorem eventPointer_ofNat (buf : OdpBuffer) (alignOffset : Nat) :
    eventPointer buf (BitVec.ofNat 8 alignOffset).toNat = eventPointer buf alignOffset := by
  simp [eventPointer]

/-- The clone that an element of the pool is made -/
structure Made (cfg : Config) (poolElem : MpoolElem) (parent : OdpElem) (size : Nat) (elem made : OdpElem) :
    Prop where
  odpEvent : made.odpEvent = elem.odpEvent
  evptr : made.hdr.event.evptr = elem.odpEvent
  owned : UserOwned cfg made.hdr.event made.hdr
  type : made.hdr.eventType = parent.hdr.eventType
  eventSize : made.hdr.eventSize = size
  egrp : made.hdr.egrp = none
  userArea : made.hdr.userArea =
    { parent.hdr.userArea with size := .ofNat 14 poolElem.userAreaSize, isinit := true }
  len : poolElem.eventType = .packet → made.pkt.len = size
  alignOffset : poolElem.eventType ≠ .packet → made.hdr.alignOffset = .ofNat 8 poolElem.alignOffset

/-- What is copied of the user area -/
def copied (poolElem : MpoolElem) (hdr : EventHdr) (cloneUarea : Bool) : Nat :=
  if cloneUarea && hdr.userArea.isinit && 0 < hdr.userArea.size.toNat then
    min poolElem.userAreaSize hdr.userArea.size.toNat else 0

theorem cloneFromPool_eq (hv : Valid cfg odp s) {emPool : Nat} (hpool : s.mpoolTbl emPool = some poolElem)
    (hsize : size < 2 ^ 32) (parent : OdpElem) (offset : Nat) (cloneUarea : Bool) :
    (takeEvents 1 poolElem size).1 = [] ∧ cloneFromPool cfg event.evptr parent emPool poolElem offset size
        cloneUarea s = some (.error .allocFailed,s) ∨
      ∃ elem made poolElem', (takeEvents 1 poolElem size).1 = [elem] ∧
        Free cfg odp s (kindOf poolElem.eventType) elem ∧ Made cfg poolElem parent size elem made ∧
        cloneFromPool cfg event.evptr parent emPool poolElem offset size cloneUarea s =
          some (.ok made.hdr.event,
            { s with mpoolTbl := Function.update s.mpoolTbl emPool (some poolElem') }.create made
              (memcpy (s.payload elem.odpEvent) (fun i => s.payload event.evptr (offset + i)) size)
              (memcpy (s.userArea elem.odpEvent) (s.userArea event.evptr)
                (copied poolElem parent.hdr cloneUarea))) := by
  have hcreated := hv.created emPool poolElem hpool
  rw [cloneFromPool]
  rcases allocClone_eq cfg hcreated hsize with ⟨halloc,htake⟩ | ⟨elem,clone,poolElem',halloc,htake,htaken⟩
  · exact .inl ⟨by rw [htake],by rw [halloc]⟩
  · have helem : elem ∈ (takeEvents 1 poolElem size).1 := by
      rw [htake]
      exact List.mem_singleton_self elem
    obtain ⟨subpool,hsub,hmem⟩ := (takeFree_mem 1 _).1 elem helem
    have hfree := hv.free emPool poolElem hpool subpool (List.mem_of_mem_drop hsub) elem hmem
    have hfreed : cfg.preallocPools = true → clone.hdr.flags.refsUsed = false →
        ∃ g : Int, 0 ≤ g ∧ g < 2 ^ 16 ∧ clone.hdr.stateCnt = EvstateCnt.encode g 0 0 := by
      rw [htaken.flags, htaken.stateCnt]
      exact hfree.freed
    obtain ⟨hdr,hhdr,hst⟩ := stamped_alloc htaken.event hfreed
    obtain ⟨-,-,halign⟩ := hst.kept
    refine .inr ⟨elem,{ clone with hdr := { hdr with
      flags := {}
      eventType := parent.hdr.eventType
      eventSize := size
      egrp := none
      userArea := { parent.hdr.userArea with size := .ofNat 14 poolElem.userAreaSize, isinit := true } } },
      poolElem',by rw [htake],hfree,⟨htaken.odpEvent,hst.evptr,⟨rfl,rfl,hst.state⟩,rfl,rfl,rfl,rfl,htaken.len,
        fun hne => halign.trans (htaken.alignOffset hne)⟩,?_⟩
    rw [halloc]
    dsimp only
    rw [hhdr, htaken.odpEvent]
    rfl

theorem not_uareaTooSmall {hdr : EventHdr} {cloneUarea : Bool} (huarea : cloneUarea = true)
    (hinit : hdr.userArea.isinit = true) : uareaTooSmall poolElem hdr cloneUarea = false ↔
      hdr.userArea.size.toNat ≤ poolElem.userAreaSize := by
  simp [uareaTooSmall, huarea, hinit]

theorem Made.fits_iff {elem made : OdpElem} (h : Made cfg poolElem parent size elem made)
    (hkind : odp.odpEventType elem.odpEvent = kindOf poolElem.eventType) (hvector : poolElem.eventType ≠ .vector) :
    Fits odp elem.odpEvent made size ↔ (poolElem.eventType = .sw →
      eventPointer ⟨0,odp.bufSize elem.odpEvent⟩ poolElem.alignOffset + size ≤ odp.bufSize elem.odpEvent) := by
  rw [Fits, hkind]
  cases htype : poolElem.eventType with
  | packet =>
    rw [kindOf, h.len htype]
    exact iff_of_true (Nat.le_refl size) fun hsw => absurd hsw (by decide)
  | sw =>
    have halign := h.alignOffset (by rw [htype]; decide)
    rw [kindOf, halign]
    dsimp only
    rw [eventPointer_ofNat]
    exact ⟨fun h _ => h,fun h => h rfl⟩
  | vector => exact absurd htype hvector

theorem Made.size_eq {elem made : OdpElem} (h : Made cfg poolElem parent size elem made)
    (hkind : odp.odpEventType elem.odpEvent = kindOf poolElem.eventType) (hvector : poolElem.eventType ≠ .vector) :
    emEventSize odp elem.odpEvent made = size := by
  rw [emEventSize, hkind]
  cases htype : poolElem.eventType with
  | packet => exact h.len htype
  | sw => exact h.eventSize
  | vector => exact absurd htype hvector

/-- The clone from an EM pool is right if and only if the element that is taken suits. -/
theorem cloneFromPool_correct_iff (hv : Valid cfg odp s) (hp : Held odp s event parent)
    (hreq : req.Within (emEventSize odp event.evptr parent)) {emPool : Nat}
    (htarget : targetPool odp event.evptr pool = some emPool) (hpool : s.mpoolTbl emPool = some poolElem) :
    Correct cfg odp s event parent req pool (cloneFromPool cfg event.evptr parent emPool poolElem req.offset
        (req.size (emEventSize odp event.evptr parent)) req.cloneUarea s) ↔
      ∀ elem ∈ (takeEvents 1 poolElem (req.size (emEventSize odp event.evptr parent))).1,
        Suits odp poolElem parent.hdr req.cloneUarea (req.size (emEventSize odp event.evptr parent)) elem := by
  have hsize : req.size (emEventSize odp event.evptr parent) < 2 ^ 32 := by
    have hle := hreq.le
    have hlt := hp.size
    omega
  have huareaSize := userAreaSize_ofNat (hv.userArea emPool poolElem hpool)
  rcases cloneFromPool_eq hv hpool hsize parent req.offset req.cloneUarea with
    ⟨hnone,hrun⟩ | ⟨elem,made,poolElem',htake,hfree,hmade,hrun⟩
  · rw [hnone, hrun]
    exact iff_of_true rfl fun _ h => absurd h List.not_mem_nil
  rw [htake, hrun, List.forall_mem_singleton]
  have hat : made.hdr.event.evptr = made.odpEvent := hmade.evptr.trans hmade.odpEvent.symm
  constructor
  · rintro ⟨elem',hcl⟩
    have hlive := hcl.live
    rw [hat, create_live] at hlive
    obtain rfl := Option.some.inj hlive
    have hsupports := hcl.supports emPool htarget poolElem hpool
    rw [hmade.type] at hsupports
    obtain ⟨hvector,htype⟩ := (supports_iff hp.type).1 hsupports
    refine ⟨hvector,htype,?_,?_⟩
    · rw [Bool.eq_false_iff]
      intro hsmall
      have hreqs := hsmall
      simp only [uareaTooSmall, Bool.and_eq_true, decide_eq_true_eq] at hreqs
      have hle := (hcl.userArea hreqs.1.1 hreqs.1.2).size
      rw [hmade.userArea] at hle
      dsimp only at hle
      omega
    · have hfits := hcl.fits
      rw [hmade.evptr] at hfits
      exact (hmade.fits_iff hfree.kind hvector).1 hfits
  · intro hsuits
    have hkind : kindOf poolElem.eventType ≠ .vector := by
      intro hk
      cases htype : poolElem.eventType with
      | vector => exact hsuits.notVector htype
      | sw => rw [htype] at hk; cases hk
      | packet => rw [htype] at hk; cases hk
    refine ⟨made,Cloned.create hfree hmade.odpEvent hkind rfl rfl rfl hmade.evptr hmade.type ?_
      (hmade.size_eq hfree.kind hsuits.notVector) ((hmade.fits_iff hfree.kind hsuits.notVector).2 hsuits.room)
      (fun i hi => memcpy_lt hi) ?_ hmade.egrp hmade.owned⟩
    · intro emPool' hem poolElem'' hpool'
      obtain rfl := Option.some.inj (htarget.symm.trans hem)
      obtain rfl := Option.some.inj (hpool.symm.trans hpool')
      exact (supports_iff hp.type).2 ⟨hsuits.notVector,hsuits.type⟩
    · intro huarea hinit
      have hle := (not_uareaTooSmall huarea hinit).1 hsuits.userArea
      refine ⟨?_,?_,?_,fun i hi => memcpy_lt ?_⟩
      · rw [hmade.userArea]
        dsimp only
        omega
      · rw [hmade.userArea]
      · rw [hmade.userArea]
      · have hpos : 0 < parent.hdr.userArea.size.toNat := Nat.zero_lt_of_lt hi
        rw [copied, huarea, hinit, if_pos (by simpa using hpos), Nat.min_eq_right hle]
        exact hi

end FromPool

section Requests

/-- The checks that a valid request passes -/
theorem run_eq (hp : Held odp s event parent)
    (hpool : ∀ p ∈ pool, (s.mpoolTbl p).isSome ∧ s.poolAllocated p = true)
    (hreq : req.Within (emEventSize odp event.evptr parent)) :
    req.run cfg odp event parent pool s =
      let size := req.size (emEventSize odp event.evptr parent)
      match targetPool odp event.evptr pool with
      | none =>
        if odp.odpEventType event.evptr = .buffer then some (.error .notFound,s)
        else
          match pktCloneOdp cfg odp event.evptr parent (odp.odpPool event.evptr) req.offset size req.cloneUarea
              req.isPart s with
          | none => some (.error .operationFailed,s)
          | some (cloneEvent,s) => some (.ok cloneEvent,s)
      | some emPool =>
        match s.mpoolTbl emPool with
        | none => none
        | some poolElem =>
          if 0 < cfg.checkLevel ∧ wrongType poolElem parent.hdr then some (.error .notImplemented,s)
          else if 0 < cfg.checkLevel ∧ uareaTooSmall poolElem parent.hdr req.cloneUarea then
            some (.error .tooSmall,s)
          else cloneFromPool cfg event.evptr parent emPool poolElem req.offset size req.cloneUarea s := by
  have hargs : ¬(0 < cfg.checkLevel ∧ (event = emEventUndef ∨ ∃ p ∈ pool, s.mpoolTbl p = none)) := by
    rintro ⟨-,hundef | ⟨p,hp',hnone⟩⟩
    · exact hp.defined hundef
    · have hsome := (hpool p hp').1
      rw [hnone] at hsome
      cases hsome
  have hcreated : ¬(2 ≤ cfg.checkLevel ∧ ∃ p ∈ pool, s.poolAllocated p = false) := by
    rintro ⟨-,p,hp',hno⟩
    have hyes := (hpool p hp').2
    rw [hno] at hyes
    cases hyes
  cases req with
  | clone =>
    rw [Request.run, eventClonePart, if_neg hargs, if_neg hcreated, if_neg hp.kind]
    rfl
  | part offset len cloneUarea =>
    obtain ⟨hpos,hle⟩ := hreq
    have hin : ¬(true = true ∧ 1 ≤ cfg.checkLevel ∧
        (len = 0 ∨ emEventSize odp event.evptr parent < offset + len)) := by omega
    have hmin : (if true = true ∧ len < emEventSize odp event.evptr parent then len
        else emEventSize odp event.evptr parent) = len := by
      by_cases hlt : len < emEventSize odp event.evptr parent
      · rw [if_pos ⟨rfl,hlt⟩]
      · rw [if_neg fun h => hlt h.2]
        omega
    rw [Request.run, eventClonePart, if_neg hargs, if_neg hcreated, if_neg hp.kind]
    dsimp only
    rw [if_neg hin, hmin]
    rfl

private theorem mpoolTbl_targetPool (hv : Valid cfg odp s)
    (hpool : ∀ p ∈ pool, (s.mpoolTbl p).isSome ∧ s.poolAllocated p = true) {emPool : Nat}
    (htarget : targetPool odp event.evptr pool = some emPool) : ∃ poolElem, s.mpoolTbl emPool = some poolElem := by
  cases pool with
  | some p =>
    cases htarget
    exact Option.isSome_iff_exists.1 (hpool emPool rfl).1
  | none => exact Option.isSome_iff_exists.1 (hv.odp2em _ emPool htarget)

/-- A clone with no EM pool to take it from is a packet from an ODP pool. -/
private theorem run_correct (hv : Valid cfg odp s) (hp : Held odp s event parent)
    (hpool : ∀ p ∈ pool, (s.mpoolTbl p).isSome ∧ s.poolAllocated p = true)
    (hreq : req.Within (emEventSize odp event.evptr parent)) (htarget : targetPool odp event.evptr pool = none) :
    Correct cfg odp s event parent req pool (req.run cfg odp event parent pool s) := by
  rw [run_eq hp hpool hreq, htarget]
  dsimp only
  by_cases hbuf : odp.odpEventType event.evptr = .buffer
  · rw [if_pos hbuf]
    exact rfl
  · have hkind : odp.odpEventType event.evptr = .packet := by
      have hnot := hp.kind
      revert hbuf hnot
      cases odp.odpEventType event.evptr <;> simp
    rw [if_neg hbuf]
    generalize hr : pktCloneOdp cfg odp event.evptr parent (odp.odpPool event.evptr) req.offset
      (req.size (emEventSize odp event.evptr parent)) req.cloneUarea req.isPart s = r
    rcases pktCloneOdp_correct hv hp hkind htarget hr with rfl | ⟨clone,elem,t,rfl,hcl⟩
    · exact rfl
    · exact ⟨elem,hcl⟩

private theorem run_correct_iff (hv : Valid cfg odp s) (hp : Held odp s event parent)
    (hpool : ∀ p ∈ pool, (s.mpoolTbl p).isSome ∧ s.poolAllocated p = true)
    (hreq : req.Within (emEventSize odp event.evptr parent)) {emPool : Nat}
    (htarget : targetPool odp event.evptr pool = some emPool) (hem : s.mpoolTbl emPool = some poolElem) :
    Correct cfg odp s event parent req pool (req.run cfg odp event parent pool s) ↔
      Refused cfg poolElem parent.hdr req.cloneUarea ∨
        ∀ elem ∈ (takeEvents 1 poolElem (req.size (emEventSize odp event.evptr parent))).1,
          Suits odp poolElem parent.hdr req.cloneUarea (req.size (emEventSize odp event.evptr parent)) elem := by
  rw [run_eq hp hpool hreq, htarget]
  dsimp only
  rw [hem, Refused]
  dsimp only
  by_cases htype : 0 < cfg.checkLevel ∧ wrongType poolElem parent.hdr = true
  · rw [if_pos htype]
    exact iff_of_true rfl (.inl ⟨htype.1,.inl htype.2⟩)
  rw [if_neg htype]
  by_cases hsmall : 0 < cfg.checkLevel ∧ uareaTooSmall poolElem parent.hdr req.cloneUarea = true
  · rw [if_pos hsmall]
    exact iff_of_true rfl (.inl ⟨hsmall.1,.inr hsmall.2⟩)
  rw [if_neg hsmall, cloneFromPool_correct_iff hv hp hreq htarget hem]
  refine ⟨.inr,fun h => h.resolve_left ?_⟩
  rintro ⟨hlevel,hwrong | hwrong⟩
  · exact htype ⟨hlevel,hwrong⟩
  · exact hsmall ⟨hlevel,hwrong⟩

/-- The buffers of a pool hold the events of their subpools. -/
def Roomy (odp : Odp) (poolElem : MpoolElem) : Prop := poolElem.eventType = .sw →
  ∀ subpool ∈ poolElem.subpools, ∀ elem ∈ subpool.free,
    eventPointer ⟨0,odp.bufSize elem.odpEvent⟩ poolElem.alignOffset + subpool.size ≤ odp.bufSize elem.odpEvent

/-- The checks above level 0 leave nothing but vector pools and buffers without room. -/
theorem clone_correct (hv : Valid cfg odp s) (hp : Held odp s event parent)
    (hpool : ∀ p ∈ pool, (s.mpoolTbl p).isSome ∧ s.poolAllocated p = true)
    (hreq : req.Within (emEventSize odp event.evptr parent)) (hlevel : 0 < cfg.checkLevel)
    (hgood : ∀ emPool ∈ targetPool odp event.evptr pool, ∀ poolElem, s.mpoolTbl emPool = some poolElem →
      poolElem.eventType ≠ .vector ∧ Roomy odp poolElem) :
    Correct cfg odp s event parent req pool (req.run cfg odp event parent pool s) := by
  cases htarget : targetPool odp event.evptr pool with
  | none => exact run_correct hv hp hpool hreq htarget
  | some emPool =>
    obtain ⟨poolElem,hem⟩ := mpoolTbl_targetPool hv hpool htarget
    obtain ⟨hvector,hroomy⟩ := hgood emPool htarget poolElem hem
    rw [run_correct_iff hv hp hpool hreq htarget hem]
    cases htype : wrongType poolElem parent.hdr with
    | true => exact .inl ⟨hlevel,.inl htype⟩
    | false =>
      cases hsmall : uareaTooSmall poolElem parent.hdr req.cloneUarea with
      | true => exact .inl ⟨hlevel,.inr hsmall⟩
      | false =>
        refine .inr fun elem helem => ⟨hvector,htype,hsmall,fun hsw => ?_⟩
        obtain ⟨subpool,hsub,hfree⟩ := (takeFree_mem 1 _).1 elem helem
        have hle := (hv.created emPool poolElem hem).size_le subpool hsub
        exact Nat.le_trans (Nat.add_le_add_left hle _) (hroomy hsw subpool (List.mem_of_mem_drop hsub) elem hfree)

/-- A pool has such buffers if no size of a subpool wraps when the offset is added. -/
theorem roomy_of_roomForOffset {hdr : HdrSize} {env : Env} {capa : OdpAlign} {poolCfg : PoolCfg}
    (h : Accepted env capa poolCfg) (hroom : RoomForOffset env poolCfg)
    (htype : poolElem.eventType = poolCfg.eventType) (halign : poolElem.alignOffset = env.alignOffsetGet poolCfg)
    (hsub : ∀ subpool ∈ poolElem.subpools, (∃ p ∈ poolCfg.subpool, p.size = subpool.size) ∧
      ∀ elem ∈ subpool.free, (setPoolParamsBuf hdr subpool.size (env.alignOffsetGet poolCfg)
        (capa.odpAlignGet poolCfg) ((env.setUareaSize poolCfg).getD 0)).size ≤ odp.bufSize elem.odpEvent) :
    Roomy odp poolElem := by
  intro hsw subpool hmem elem helem
  obtain ⟨⟨p,hp,hsize⟩,hbuf⟩ := hsub subpool hmem
  have hlt := (h.subpool p hp).2
  have hroom' := fun hoff => hroom (htype.symm.trans hsw) hoff p hp
  rw [hsize] at hlt hroom'
  have hfits : BufFits hdr env capa poolCfg subpool.size subpool.size _ := h.bufFits (Nat.le_refl _) hlt hroom'
  have hle := (hfits.payload ⟨0,odp.bufSize elem.odpEvent⟩ ⟨Nat.zero_mod _,hbuf elem helem⟩).1
  rw [halign]
  dsimp only at hle
  omega

end Requests

section Pools

private def freedElem (p : BitVec 48) : OdpElem :=
  ⟨p,⟨1024,0,128⟩,true,⟨.ofParts 0x1001 0 refCntInit sendCntInit,{},0,0,⟨p,evgenInit⟩,0,none,{},0⟩⟩

private def packetEvent : OdpElem :=
  { freedElem 5 with
    pkt := ⟨1024,4,128⟩
    hdr := { (freedElem 5).hdr with eventType := emEventTypePacket, userArea := { isinit := true, size := 8 } } }

private def pktPool : MpoolElem := ⟨.packet,8,8,[⟨64,true,[freedElem 1]⟩]⟩

private def vectorPool : MpoolElem := ⟨.vector,0,8,[⟨64,true,[freedElem 2]⟩]⟩

private def level3 : Config := ⟨3,true,true,.event⟩

private def odp2 : Odp where
  odpEventType odpEvent := if odpEvent = 2 then .vector else .packet
  odpPool _ := 0
  bufSize _ := 0
  userAreaSize _ := 8
  poolOdp2em _ := some 1

private def state2 : State where
  mpoolTbl p := if p = 1 then some pktPool else if p = 2 then some vectorPool else none
  poolAllocated p := p = 1 ∨ p = 2
  extFree _ := []
  live odpEvent := if odpEvent = 5 then some packetEvent else none
  payload _ i := .ofNat 8 i
  userArea _ _ := 0

private theorem state2_pools {p : Nat} {poolElem : MpoolElem} (h : state2.mpoolTbl p = some poolElem) :
    poolElem = pktPool ∨ poolElem = vectorPool := by
  simp only [state2] at h
  split at h
  · exact .inl (Option.some.inj h).symm
  · split at h
    · exact .inr (Option.some.inj h).symm
    · cases h

private theorem freedElem_free {p : BitVec 48} {kind : OdpEventType} (hp : p ≠ 0) (hne : p ≠ 5)
    (hkind : odp2.odpEventType p = kind) : Free level3 odp2 state2 kind (freedElem p) := by
  refine ⟨hp,if_neg hne,hkind,fun _ _ => ⟨0x1001,by decide,by decide,?_⟩⟩
  show EvstateCnt.ofParts 0x1001 0 refCntInit sendCntInit = EvstateCnt.encode 0x1001 0 0
  decide

private theorem state2_valid : Valid level3 odp2 state2 := by
  refine ⟨?_,?_,?_,fun p h => absurd h (Option.some_ne_none 1),fun p emPool h => ?_⟩
  · intro p poolElem h
    rcases state2_pools h with rfl | rfl
    · refine ⟨⟨[⟨64,1,0⟩],by decide⟩,by decide,by decide,fun _ subpool hsub elem helem => ?_⟩
      simp only [pktPool, List.mem_cons, List.not_mem_nil, or_false] at hsub
      subst hsub
      simp only [List.mem_cons, List.not_mem_nil, or_false] at helem
      subst helem
      decide
    · exact ⟨⟨[⟨64,1,0⟩],by decide⟩,by decide,by decide,fun h => absurd h (by decide)⟩
  · intro p poolElem h
    rcases state2_pools h with rfl | rfl <;> decide
  · intro p poolElem h subpool hsub elem helem
    rcases state2_pools h with rfl | rfl
    · simp only [pktPool, List.mem_cons, List.not_mem_nil, or_false] at hsub
      subst hsub
      simp only [List.mem_cons, List.not_mem_nil, or_false] at helem
      subst helem
      exact freedElem_free (by decide) (by decide) (by decide)
    · simp only [vectorPool, List.mem_cons, List.not_mem_nil, or_false] at hsub
      subst hsub
      simp only [List.mem_cons, List.not_mem_nil, or_false] at helem
      subst helem
      exact freedElem_free (by decide) (by decide) (by decide)
  · cases h
    rfl

private theorem packetEvent_held : Held odp2 state2 ⟨5,evgenInit⟩ packetEvent :=
  ⟨by decide,rfl,by decide,by decide,by decide,fun _ _ => by decide⟩

end Pools
end EmOdp.EventClone
