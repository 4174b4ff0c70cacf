import EmOdp.Alloc.Taken

/-! Many events allocated at once are those that as many single allocations give, from the same subpools. -/
namespace EmOdp.Alloc
open EventState Pool

variable {cfg : Config} {pool : MpoolElem} {size num : Nat} {type : EmEventType} {subpools : List Subpool}

section Headers

/-- The generation and the counters after an allocation -/
def allocCnt (cfg : Config) (stateCnt : EvstateCnt) (refsUsed : Bool) : Option (BitVec 16 × EvstateCnt) :=
  if !cfg.preallocPools || refsUsed then some (evgenInit,initCntAlloc)
  else
    let newCnt := stateCnt.subFetch cntAlloc
    if newCnt.em2usrError then none else some (newCnt.evgen,newCnt)

/-- Nothing but the counters and the flag for references is read of the header. -/
theorem evstateAlloc_eq (event : EvHdl) (hdr : EventHdr) : hdr.evstateAlloc cfg event =
    (allocCnt cfg hdr.stateCnt hdr.flags.refsUsed).map fun r =>
      ({ event with evgen := r.1 },{ hdr with event := { event with evgen := r.1 }, stateCnt := r.2 }) := by
  rw [EventHdr.evstateAlloc, EventState.evstateAlloc, allocCnt]
  split
  · rfl
  · rename_i hno
    rw [Bool.or_eq_true, not_or, Bool.not_eq_true hdr.flags.refsUsed] at hno
    rw [esvEm2usr]
    simp only [hno.2, Bool.false_eq_true, if_false]
    split <;> rfl

/-- `event_alloc` once the element has been prepared -/
def finish (cfg : Config) (userAreaSize size : Nat) (type : EmEventType) (elem : OdpElem) : Option (EvHdl × OdpElem) :=
  (if cfg.esvEnabled then (elem.hdr.evstateAlloc cfg elem.hdr.event).map Prod.snd else some elem.hdr).map fun evHdr =>
    (evHdr.event,{ elem with hdr := { evHdr with
      flags := {}
      eventType := type
      eventSize := size
      egrp := none
      userArea := { isinit := true, size := .ofNat 14 userAreaSize } } })

/-- `vector_type` of a vector -/
def Config.vectorType (cfg : Config) : EmEventType :=
  match cfg.vectorBackend with
  | .packet => emEventTypePacket
  | .event => emEventTypeAny

/-- An element as the allocation of one event prepares it, with no failure -/
def prepared (cfg : Config) (pool : MpoolElem) (size : Nat) (elem : OdpElem) : OdpElem :=
  let hdr := { elem.hdr with event := eventOdp2em elem.odpEvent }
  match pool.eventType with
  | .sw => { elem with hdr := { hdr with alignOffset := .ofNat 8 pool.alignOffset } }
  | .packet =>
    let (allocSize,pullLen) := pktLens pool.alignOffset size
    { elem with
      pkt := ⟨elem.pkt.data - pool.alignOffset,allocSize + pool.alignOffset - pullLen,
        elem.pkt.headroom - pool.alignOffset⟩
      userFlag := true
      hdr }
  | .vector => { elem with userFlag := true, hdr := { hdr with vectorType := cfg.vectorType } }

/-- What an element is given out as -/
def made (cfg : Config) (pool : MpoolElem) (size : Nat) (type : EmEventType) (elem : OdpElem) :
    Option (EvHdl × OdpElem) := finish cfg pool.userAreaSize size type (prepared cfg pool size elem)

section Packets
variable {pushLen allocSize pullLen : Nat} {elem : OdpElem}

theorem pushHead_eq (h : pushLen ≤ elem.pkt.headroom) : elem.pushHead cfg pushLen = some { elem with
    pkt := ⟨elem.pkt.data - pushLen,elem.pkt.len + pushLen,elem.pkt.headroom - pushLen⟩ } := by
  rw [OdpElem.pushHead, OdpPacket.pushHead, if_pos h]
  split
  · rename_i hzero
    rw [hzero]
    rfl
  · rfl

theorem pullTail_eq (h : pullLen ≤ elem.pkt.len) : elem.pullTail cfg pullLen = some { elem with
    pkt := { elem.pkt with len := elem.pkt.len - pullLen } } := by
  rw [OdpElem.pullTail, OdpPacket.pullTail, if_pos h]
  split
  · rename_i hzero
    rw [hzero]
    rfl
  · rfl

theorem mapM_some {α β : Type*} {f : α → Option β} {g : α → β} {xs : List α} (h : ∀ x ∈ xs, f x = some (g x)) :
    xs.mapM f = some (xs.map g) := by
  induction xs with
  | nil => rfl
  | cons x xs ih =>
    rw [List.mapM_cons, h x List.mem_cons_self, ih fun y hy => h y (List.mem_cons_of_mem _ hy)]
    rfl

theorem pktallocMulti_eq {subpool : Subpool} (hpush : ∀ elem ∈ subpool.free, pushLen ≤ elem.pkt.headroom)
    (hpull : pullLen ≤ allocSize + pushLen) (num : Nat) :
    pktallocMulti cfg allocSize pushLen pullLen num subpool =
      ((subpool.free.take num).map fun elem => { elem with
        pkt := ⟨elem.pkt.data - pushLen,allocSize + pushLen - pullLen,elem.pkt.headroom - pushLen⟩
        userFlag := true },{ subpool with free := subpool.free.drop num }) := by
  rw [pktallocMulti, Subpool.allocMulti]
  have hpushed : ((subpool.free.take num).map (OdpElem.setLen allocSize)).mapM (OdpElem.pushHead cfg pushLen) =
      some ((subpool.free.take num).map fun elem => { elem with
        pkt := ⟨elem.pkt.data - pushLen,allocSize + pushLen,elem.pkt.headroom - pushLen⟩ }) := by
    rw [List.mapM_map]
    exact mapM_some fun elem helem => @pushHead_eq cfg pushLen (elem.setLen allocSize) (hpush elem (List.mem_of_mem_take helem))
  have hpulled : ((subpool.free.take num).map fun elem => { elem with
      pkt := ⟨elem.pkt.data - pushLen,allocSize + pushLen,elem.pkt.headroom - pushLen⟩ }).mapM
        (OdpElem.pullTail cfg pullLen) = some ((subpool.free.take num).map fun elem => { elem with
          pkt := ⟨elem.pkt.data - pushLen,allocSize + pushLen - pullLen,elem.pkt.headroom - pushLen⟩ }) := by
    rw [List.mapM_map]
    exact mapM_some fun elem _ => @pullTail_eq cfg pullLen { elem with
      pkt := ⟨elem.pkt.data - pushLen,allocSize + pushLen,elem.pkt.headroom - pushLen⟩ } hpull
  dsimp only
  rw [hpushed, Option.bind_some, hpulled]
  dsimp only
  rw [List.map_map]
  rfl

theorem vecAllocMulti_eq (subpool : Subpool) (num : Nat) : vecAllocMulti num subpool =
    ((subpool.free.take num).map fun elem => { elem with userFlag := true },
      { subpool with free := subpool.free.drop num }) := by
  induction num generalizing subpool with
  | zero => rfl
  | succ num ih =>
    obtain ⟨spSize,valid,free⟩ := subpool
    cases free with
    | nil => rfl
    | cons elem free =>
      rw [vecAllocMulti, Subpool.alloc]
      dsimp only
      rw [ih]
      rfl

end Packets

/-- The lengths of packets leave something to pull. -/
theorem Created.pull_le (h : Created pool) (hsize : size < 2 ^ 32) : (pktLens pool.alignOffset size).2 ≤
    (pktLens pool.alignOffset size).1 + pool.alignOffset := by
  rw [pktLens_eq h.alignOffset hsize]
  split
  · exact Nat.zero_le _
  · dsimp only
    omega

theorem eventAlloc_finish : eventAlloc cfg pool size type = match eventAllocHdr cfg pool size with
    | none => some (none,pool)
    | some (elem,pool') => (finish cfg pool'.userAreaSize size type elem).map fun event => (some event,pool') := by
  rw [eventAlloc]
  cases eventAllocHdr cfg pool size with
  | none => rfl
  | some r =>
    obtain ⟨elem,pool'⟩ := r
    dsimp only
    rw [finish]
    cases (if cfg.esvEnabled then (elem.hdr.evstateAlloc cfg elem.hdr.event).map Prod.snd else some elem.hdr) <;> rfl

theorem eventAllocVector_eq : eventAllocVector cfg pool size = allocVector cfg pool size cfg.vectorType := by
  rw [eventAllocVector, Config.vectorType]
  cases cfg.vectorBackend <;> rfl

theorem eventAllocHdr_eq (h : Created pool) (hsize : size < 2 ^ 32) :
    (eventAllocHdr cfg pool size = none ∧ takeEvents 1 pool size = ([],pool)) ∨
      ∃ elem pool', eventAllocHdr cfg pool size = some (prepared cfg pool size elem,pool') ∧
        takeEvents 1 pool size = ([elem],pool') := by
  rw [eventAllocHdr]
  cases htype : pool.eventType with
  | sw =>
    refine allocElem_eq h fun subpool _ elem _ => ?_
    rw [prepared, htype]
  | packet =>
    have hpull := h.pull_le hsize
    dsimp only
    rw [eventAllocPkt]
    generalize hlens : pktLens pool.alignOffset size = lens at hpull ⊢
    obtain ⟨allocSize,pullLen⟩ := lens
    dsimp only
    refine allocElem_eq h fun subpool hsub elem helem => ?_
    rw [@pushHead_eq cfg pool.alignOffset (elem.setLen allocSize) (h.headroom htype subpool hsub elem helem), Option.bind_eq_bind,
      Option.bind_some, pullTail_eq hpull, prepared, htype, hlens]
    rfl
  | vector =>
    dsimp only
    rw [eventAllocVector_eq]
    refine allocElem_eq h fun subpool _ elem _ => ?_
    rw [prepared, htype]

theorem eventAlloc_eq (h : Created pool) (hsize : size < 2 ^ 32) :
    (eventAlloc cfg pool size type = some (none,pool) ∧ takeEvents 1 pool size = ([],pool)) ∨
      ∃ elem, (takeEvents 1 pool size).1 = [elem] ∧ eventAlloc cfg pool size type =
        (made cfg pool size type elem).map fun event => (some event,(takeEvents 1 pool size).2) := by
  rw [eventAlloc_finish]
  rcases eventAllocHdr_eq h hsize with ⟨halloc,htake⟩ | ⟨elem,pool',halloc,htake⟩
  · exact .inl ⟨by rw [halloc],htake⟩
  · refine .inr ⟨elem,by rw [htake],?_⟩
    have huarea : pool'.userAreaSize = pool.userAreaSize := by
      rw [show pool' = (takeEvents 1 pool size).2 by rw [htake]]
      rfl
    rw [halloc, htake, made, ← huarea]

theorem eventAllocVectorMulti_eq :
    eventAllocVectorMulti cfg num pool size type = allocVectorMulti cfg num pool size type cfg.vectorType := by
  rw [eventAllocVectorMulti, Config.vectorType]
  cases cfg.vectorBackend <;> rfl

/-- A single and a multi allocation store the same in a header. -/
theorem made_eq (elem : OdpElem) : made cfg pool size type elem = (initHdr cfg pool size type elem).map fun r =>
    (r.1,match pool.eventType with
      | .sw => { elem with hdr := { r.2 with alignOffset := .ofNat 8 pool.alignOffset } }
      | .packet => { prepared cfg pool size elem with hdr := r.2 }
      | .vector => { elem with userFlag := true, hdr := { r.2 with vectorType := cfg.vectorType } }) := by
  rw [made, finish, initHdr]
  cases htype : pool.eventType with
  | _ =>
    simp only [prepared, htype, evstateAlloc_eq]
    cases cfg.esvEnabled with
    | false => rfl
    | true => cases allocCnt cfg elem.hdr.stateCnt elem.hdr.flags.refsUsed <;> rfl

theorem eventAllocMulti_eq (h : Created pool) (hsize : size < 2 ^ 32) : eventAllocMulti cfg num pool size type =
    ((takeEvents num pool size).1.mapM (made cfg pool size type)).map fun events =>
      (events,(takeEvents num pool size).2) := by
  rw [eventAllocMulti]
  cases htype : pool.eventType with
  | sw =>
    refine (@allocMultiElems_eq cfg pool size num _ _ id h fun num subpool _ => ?_).trans ?_
    · rw [List.map_id]
      rfl
    · refine congrArg (fun init => Option.map _ (List.mapM init _)) (funext fun elem => ?_)
      rw [made_eq, htype]
      rfl
  | packet =>
    have hpull := h.pull_le hsize
    dsimp only
    rw [eventAllocPktMulti]
    generalize hlens : pktLens pool.alignOffset size = lens at hpull ⊢
    obtain ⟨allocSize,pullLen⟩ := lens
    dsimp only
    refine (allocMultiElems_eq h fun num subpool hsub => pktallocMulti_eq (h.headroom htype subpool hsub) hpull num).trans ?_
    refine congrArg (fun init => Option.map _ (List.mapM init _)) (funext fun elem => ?_)
    rw [made_eq, htype, Function.comp_apply, prepared, htype, hlens]
    rfl
  | vector =>
    dsimp only
    rw [eventAllocVectorMulti_eq]
    refine (allocMultiElems_eq h fun num subpool _ => vecAllocMulti_eq subpool num).trans ?_
    refine congrArg (fun init => Option.map _ (List.mapM init _)) (funext fun elem => ?_)
    rw [made_eq, htype]
    rfl

theorem eventAllocEach_eq (h : Created pool) (hsize : size < 2 ^ 32) : eventAllocEach cfg size type num pool =
    ((takeEvents num pool size).1.mapM (made cfg pool size type)).map fun events =>
      (events,(takeEvents num pool size).2) := by
  induction num generalizing pool with
  | zero =>
    rw [takeEvents_zero]
    rfl
  | succ num ih =>
    have hmade : made cfg (takeEvents 1 pool size).2 size type = made cfg pool size type := rfl
    rw [eventAllocEach, Nat.add_comm num 1, takeEvents_add]
    rcases @eventAlloc_eq cfg pool size type h hsize with ⟨hnone,htake⟩ | ⟨elem,htake,hsome⟩
    · rw [hnone, htake, Option.bind_eq_bind, Option.bind_some]
      dsimp only
      rw [ih h, List.nil_append]
      cases (takeEvents num pool size).1.mapM (made cfg pool size type) <;> rfl
    · rw [hsome, htake, List.singleton_append, List.mapM_cons]
      cases made cfg pool size type elem with
      | none => rfl
      | some event =>
        rw [Option.map_some, Option.bind_eq_bind, Option.bind_some]
        dsimp only
        rw [ih (h.without 1 size), hmade]
        cases (takeEvents num (takeEvents 1 pool size).2 size).1.mapM (made cfg pool size type) <;> rfl

end Headers

section Accounted

/-- What became of the elements of a pool when events were allocated from it -/
structure Accounted (num : Nat) (pool : MpoolElem) (size : Nat) (events : List (EvHdl × OdpElem)) (pool' : MpoolElem) :
    Prop where
  /-- as many as requested, unless the subpools that are large enough have fewer -/
  count : events.length =
    min num ((pool.subpools.filter (size ≤ ·.size)).map fun subpool => subpool.free.length).sum
  /-- the subpools give their first elements, those that are too small none -/
  subpools : List.Forall₂ (fun subpool subpool' => subpool'.size = subpool.size ∧ subpool'.free <:+ subpool.free ∧
    (subpool.size < size → subpool'.free = subpool.free)) pool.subpools pool'.subpools
  /-- what is not in the pool any more is returned -/
  returned : ((pool.subpools.flatMap Subpool.free).map OdpElem.odpEvent).Perm
    (events.map (fun event => event.1.evptr) ++ (pool'.subpools.flatMap Subpool.free).map OdpElem.odpEvent)

theorem takeFree_suffix (num : Nat) (hle : ∀ subpool ∈ subpools, size ≤ subpool.size) :
    List.Forall₂ (fun subpool subpool' => subpool'.size = subpool.size ∧ subpool'.free <:+ subpool.free ∧
      (subpool.size < size → subpool'.free = subpool.free)) subpools (takeFree num subpools).2 := by
  induction subpools generalizing num with
  | nil => exact .nil
  | cons subpool subpools ih =>
    obtain ⟨hhead,hle⟩ := List.forall_mem_cons.1 hle
    exact .cons ⟨rfl,List.drop_suffix ..,fun hlt => absurd hhead (Nat.not_le.2 hlt)⟩ (ih _ hle)

theorem takeFree_perm (num : Nat) (subpools : List Subpool) : (subpools.flatMap Subpool.free).Perm
    ((takeFree num subpools).1 ++ (takeFree num subpools).2.flatMap Subpool.free) := by
  induction subpools generalizing num with
  | nil => exact .refl _
  | cons subpool subpools ih =>
    have htail := ih (num - subpool.free.length)
    rw [takeFree, List.flatMap_cons, List.flatMap_cons, List.append_assoc]
    nth_rewrite 1 [← List.take_append_drop num subpool.free]
    rw [List.append_assoc]
    exact ((htail.append_left _).trans (List.perm_append_comm_assoc ..)).append_left _

theorem takeFree_length (num : Nat) (subpools : List Subpool) : (takeFree num subpools).1.length =
    min num (subpools.map fun subpool => subpool.free.length).sum := by
  induction subpools generalizing num with
  | nil => exact (Nat.min_zero num).symm
  | cons subpool subpools ih =>
    rw [takeFree, List.length_append, ih, List.length_take, List.map_cons, List.sum_cons]
    omega

theorem made_evptr {elem : OdpElem} {event : EvHdl × OdpElem} (h : made cfg pool size type elem = some event) :
    event.1.evptr = elem.odpEvent := by
  rw [made_eq, initHdr, evstateAlloc_eq] at h
  cases hesv : cfg.esvEnabled with
  | false =>
    rw [hesv] at h
    cases h
    rfl
  | true =>
    rw [hesv] at h
    cases hcnt : allocCnt cfg elem.hdr.stateCnt elem.hdr.flags.refsUsed with
    | none =>
      rw [hcnt] at h
      cases h
    | some r =>
      rw [hcnt] at h
      cases h
      rfl

/-- No subpool that is tried is too small. -/
theorem Created.size_le (h : Created pool) :
    ∀ subpool ∈ pool.subpools.drop (firstTried pool size), size ≤ subpool.size := by
  intro subpool hmem
  rw [firstTried] at hmem
  cases hi : poolFindSubpool size (pool.subpools.map Subpool.size) with
  | none =>
    rw [hi, Option.getD_none, List.drop_length] at hmem
    cases hmem
  | some i =>
    rw [hi, Option.getD_some] at hmem
    obtain ⟨k,hk⟩ := List.mem_iff_getElem?.1 hmem
    rw [List.getElem?_drop] at hk
    obtain ⟨hlt,-⟩ := List.getElem?_eq_some_iff.1 hk
    have htries : Tries (pool.subpools.map Subpool.size) size (i+k) :=
      ⟨i,hi,Nat.le_add_right i k,by rw [List.length_map]; exact hlt⟩
    obtain ⟨poolCfg,hsorted⟩ := h.sorted
    obtain ⟨n,hn,hle⟩ := htries.le (by rw [hsorted]; exact sortPoolCfg_sorted poolCfg)
    rw [List.getElem?_map, hk, Option.map_some, Option.some.injEq] at hn
    rw [hn]
    exact hle

/-- Those that are tried are all that are large enough. -/
theorem Created.tried_eq (h : Created pool) :
    pool.subpools.filter (size ≤ ·.size) = pool.subpools.drop (firstTried pool size) := by
  have hsmall : ∀ subpool ∈ pool.subpools.take (firstTried pool size), subpool.size < size := by
    intro subpool hmem
    obtain ⟨k,hk⟩ := List.mem_iff_getElem?.1 hmem
    rw [List.getElem?_take] at hk
    split at hk
    · rename_i hlt
      obtain ⟨hklt,hget⟩ := List.getElem?_eq_some_iff.1 hk
      have hklt' : k < (pool.subpools.map Subpool.size).length := by rw [List.length_map]; exact hklt
      have hsize : (pool.subpools.map Subpool.size)[k] = subpool.size := by rw [List.getElem_map, hget]
      rw [← hsize]
      rw [firstTried] at hlt
      cases hi : poolFindSubpool size (pool.subpools.map Subpool.size) with
      | none =>
        have hnone := List.findIdx?_eq_none_iff.1 hi _ (List.getElem_mem hklt')
        exact Nat.not_le.1 (of_decide_eq_false hnone)
      | some i =>
        rw [hi, Option.getD_some] at hlt
        obtain ⟨_,_,hmin⟩ := List.findIdx?_eq_some_iff_getElem.1 hi
        exact Nat.not_le.1 fun hle => hmin k hlt (decide_eq_true hle)
    · cases hk
  nth_rewrite 1 [← List.take_append_drop (firstTried pool size) pool.subpools]
  rw [List.filter_append, List.filter_eq_nil_iff.2, List.filter_eq_self.2, List.nil_append]
  · exact fun subpool hmem => decide_eq_true (h.size_le subpool hmem)
  · intro subpool hmem hle
    exact absurd (of_decide_eq_true hle) (Nat.not_le.2 (hsmall subpool hmem))

theorem Created.accounted (h : Created pool) {events : List (EvHdl × OdpElem)}
    (hmade : (takeEvents num pool size).1.mapM (made cfg pool size type) = some events) :
    Accounted num pool size events (takeEvents num pool size).2 := by
  have hevents : events.map (fun event => event.1.evptr) =
      (takeEvents num pool size).1.map OdpElem.odpEvent := by
    generalize (takeEvents num pool size).1 = elems at hmade ⊢
    induction elems generalizing events with
    | nil =>
      cases hmade
      rfl
    | cons elem elems ih =>
      rw [List.mapM_cons] at hmade
      obtain ⟨event,hevent,hmade⟩ := Option.bind_eq_some_iff.1 hmade
      obtain ⟨rest,hrest,hmade⟩ := Option.bind_eq_some_iff.1 hmade
      cases hmade
      rw [List.map_cons, List.map_cons, ih hrest, made_evptr hevent]
  refine ⟨?_,?_,?_⟩
  · have hlength := congrArg List.length hevents
    rw [List.length_map, List.length_map] at hlength
    rw [hlength, h.tried_eq]
    exact takeFree_length ..
  · have hsame : List.Forall₂ (fun subpool subpool' => subpool'.size = subpool.size ∧
        subpool'.free <:+ subpool.free ∧ (subpool.size < size → subpool'.free = subpool.free))
          (pool.subpools.take (firstTried pool size)) (pool.subpools.take (firstTried pool size)) :=
      List.forall₂_same.2 fun subpool _ => ⟨rfl,List.suffix_rfl,fun _ => rfl⟩
    nth_rewrite 1 [← List.take_append_drop (firstTried pool size) pool.subpools]
    exact List.rel_append hsame (takeFree_suffix num h.size_le)
  · have hperm := takeFree_perm num (pool.subpools.drop (firstTried pool size))
    have hall : (pool.subpools.flatMap Subpool.free).Perm
        ((takeEvents num pool size).1 ++ (takeEvents num pool size).2.subpools.flatMap Subpool.free) := by
      rw [takeEvents, List.flatMap_append]
      nth_rewrite 1 [← List.take_append_drop (firstTried pool size) pool.subpools]
      rw [List.flatMap_append]
      exact (hperm.append_left _).trans (List.perm_append_comm_assoc ..)
    rw [hevents, ← List.map_append]
    exact hall.map _

/-- Where no state is wrong, no element is rejected. -/
theorem made_isSome {elem : OdpElem} (hstate : cfg.esvEnabled = true →
    (elem.hdr.evstateAlloc cfg (eventOdp2em elem.odpEvent)).isSome) :
    ∃ event, made cfg pool size type elem = some event := by
  rw [made_eq, initHdr]
  cases hesv : cfg.esvEnabled with
  | false => exact ⟨_,rfl⟩
  | true =>
    obtain ⟨r,hr⟩ := Option.isSome_iff_exists.1 (hstate hesv)
    rw [if_pos rfl, hr]
    exact ⟨_,rfl⟩

/-- For every pool that `em_pool_create` has made, a multi allocation returns the events of as many single
allocations, with the same headers, and takes them from the same subpools. It ends where no state is wrong. -/
theorem eventAllocMulti_eq_each (h : Created pool) (hsize : size < 2 ^ 32) :
    eventAllocMulti cfg num pool size type = eventAllocEach cfg size type num pool ∧
      (∀ events pool', eventAllocMulti cfg num pool size type = some (events,pool') →
        Accounted num pool size events pool') ∧
      ((cfg.esvEnabled = true → ∀ subpool ∈ pool.subpools, ∀ elem ∈ subpool.free,
        (elem.hdr.evstateAlloc cfg (eventOdp2em elem.odpEvent)).isSome) →
          (eventAllocMulti cfg num pool size type).isSome) := by
  rw [eventAllocMulti_eq h hsize, eventAllocEach_eq h hsize]
  refine ⟨rfl,fun events pool' hsome => ?_,fun hstates => ?_⟩
  · obtain ⟨events',hmade,heq⟩ := Option.map_eq_some_iff.1 hsome
    cases heq
    exact h.accounted hmade
  · have hmade : ∀ elem ∈ (takeEvents num pool size).1, ∃ event, made cfg pool size type elem = some event := by
      intro elem helem
      obtain ⟨subpool,hsub,hfree⟩ := (takeFree_mem num _).1 elem helem
      exact made_isSome fun hesv => hstates hesv subpool (List.mem_of_mem_drop hsub) elem hfree
    rw [Option.isSome_map]
    generalize (takeEvents num pool size).1 = elems at hmade ⊢
    induction elems with
    | nil => rfl
    | cons elem elems ih =>
      obtain ⟨⟨event,hevent⟩,hrest⟩ := List.forall_mem_cons.1 hmade
      obtain ⟨events,hevents⟩ := Option.isSome_iff_exists.1 (ih hrest)
      rw [List.mapM_cons, hevent, hevents]
      rfl

end Accounted

private def freedPacket (p : BitVec 48) : OdpElem :=
  ⟨p,⟨1024,0,128⟩,true,⟨.ofParts 0x1001 0 refCntInit sendCntInit,{},0,0,⟨p,evgenInit⟩,0,none,{},0⟩⟩

private def packetPool : MpoolElem :=
  ⟨.packet,8,16,[⟨64,true,[freedPacket 1,freedPacket 2]⟩,⟨128,true,[freedPacket 3,freedPacket 4]⟩]⟩

private theorem packetPool_created : Created packetPool := by
  refine ⟨⟨[⟨128,2,0⟩,⟨64,2,0⟩],by decide⟩,by decide,by decide,fun _ subpool hsub elem helem => ?_⟩
  simp only [packetPool, List.mem_cons, List.not_mem_nil, or_false] at hsub
  rcases hsub with rfl | rfl <;> simp only [List.mem_cons, List.not_mem_nil, or_false] at helem <;>
    rcases helem with rfl | rfl <;> decide

/-- Three packets, the third one from the second subpool -/
theorem eventAllocMulti_eq_each_packets :
    eventAllocMulti ⟨3,true,true,.event⟩ 3 packetPool 60 emEventTypePacket =
        eventAllocEach ⟨3,true,true,.event⟩ 60 emEventTypePacket 3 packetPool ∧
      (eventAllocMulti ⟨3,true,true,.event⟩ 3 packetPool 60 emEventTypePacket).map (fun r => r.1.map Prod.fst) =
        some [⟨1,0x1001⟩,⟨2,0x1001⟩,⟨3,0x1001⟩] :=
  ⟨(eventAllocMulti_eq_each packetPool_created (by decide)).1,by decide⟩

end EmOdp.Alloc
