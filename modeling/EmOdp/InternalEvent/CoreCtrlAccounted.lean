import EmOdp.InternalEvent.CoreCtrlEvents

/-! The copies of a control event are all sent and counted, or all accounted for. -/
namespace EmOdp.InternalEvent
open Lib
open EventGroup (EgrpCounter egrpCntMax emEventGroupMaxNotif)

namespace State
variable {α : Type} {call : Call α} {s t : State α} {checkLevel thr : Nat}

/-- One copy of the control event is in the control queue of each thread of the mask. -/
structure AllSent (call : Call α) (s : State α) : Prop where
  once : (s.sends.map Sent.thr).Nodup
  each : ∀ t, t ∈ s.sends.map Sent.thr ↔ t ∈ call.thrMask.threads
  msg : ∀ x ∈ s.sends, x.msg = call.msg

/-- The event group counts the events that are still to be handled, and the done event is sent once
there is none. -/
def Armed (call : Call α) (s : State α) : Prop := s.doneEvent.isSome ∧ s.notifTbl = s.doneEvent.toList ∧
  ∃ w, s.group = some w ∧ w.postCnt.toNat + s.handled = call.thrMask.count ∧
    (w.applied = true ↔ 0 < w.postCnt.toNat) ∧ s.notified = if w.postCnt.toNat = 0 then 1 else 0

/-- What the callers of `send_core_ctrl_events` take its return value for -/
structure Accounted (call : Call α) (s : State α) (ret : Nat) : Prop where
  zero_iff : ret = 0 ↔ s.AllSent call ∧ s.Armed call
  unsent : ret ≠ 0 → ret = (call.thrMask.threads.filter (· ∉ s.sends.map Sent.thr)).card
  copies : ∀ e ∈ s.copies, (s.sends.map Sent.event ++ s.frees).count e = 1
  owned : call.ctrlEvent ∉ s.frees ∧ (ret ≠ 0 → call.ctrlEvent ∉ s.sends.map Sent.event)
  undone : ret ≠ 0 → s.group = none ∧ ∀ e ∈ s.doneEvent, s.frees.count e = 1
  bounds : ∀ i ∈ s.writes, i < call.thrMask.count

/-- The record of the copies -/
structure Ledger (call : Call α) (s : State α) : Prop where
  nodup : (s.copies ++ [call.ctrlEvent]).Nodup
  done : ∀ e ∈ s.doneEvent, e ∉ s.copies ++ [call.ctrlEvent]
  contents : ∀ e ∈ s.copies ++ [call.ctrlEvent], s.contents e = some call.msg
  allocCount : s.allocCount = s.copies.length
  sentCount : s.sentCount = s.sends.length
  unsentCount : s.unsentCount = call.thrMask.count - s.sends.length
  sent : s.sends.map Sent.event = (s.copies ++ [call.ctrlEvent]).take s.sends.length
  threads : (s.sends.map Sent.thr).Nodup
  mask : ∀ t ∈ s.sends.map Sent.thr, t ∈ call.thrMask.threads
  msg : ∀ x ∈ s.sends, x.msg = call.msg

/-- Nothing has been copied or counted yet. -/
structure Bare (s : State α) : Prop where
  copies : s.copies = []
  sends : s.sends = []
  writes : s.writes = []
  started : s.started = 0
  handled : s.handled = 0
  notified : s.notified = 0

/-- The event group is created and not applied. -/
def Idle (s : State α) : Prop :=
  ∃ w, s.group = some w ∧ w.preCnt.toNat = 0 ∧ w.postCnt.toNat = 0 ∧ w.applied = false

/-- The event group counts the events that are handled. -/
structure Counting (call : Call α) (s : State α) (w : EgrpCounter) : Prop where
  group : s.group = some w
  done : s.doneEvent.isSome
  notifTbl : s.notifTbl = s.doneEvent.toList
  pre : w.preCnt.toNat + s.started = call.thrMask.count
  post : w.postCnt.toNat + s.handled = call.thrMask.count
  handled_le : s.handled ≤ s.started
  started_le : s.started ≤ s.sends.length
  applied : w.applied = true ↔ 0 < w.postCnt.toNat ∨ call.thrMask.count = 0
  notified : s.notified = if w.postCnt.toNat = 0 ∧ 0 < call.thrMask.count then 1 else 0

/-- The table of the copies is filled up to the length of `copies`. -/
def Filled (s : State α) : Prop := ∀ (j : Nat) (e : EmEvent), s.copies[j]? = some e → s.events j = some e

/-- The threads before `thr` have got their copy. -/
def Walked (call : Call α) (s : State α) : Option Nat → Prop
  | none => ∀ u ∈ call.thrMask.threads, u ∈ s.sends.map Sent.thr
  | some thr => thr ∈ call.thrMask.threads ∧ (∀ u ∈ s.sends.map Sent.thr, u < thr) ∧
      ∀ u ∈ call.thrMask.threads, u < thr → u ∈ s.sends.map Sent.thr

/-- Each copy has been made. -/
structure AllCopied (call : Call α) (s : State α) : Prop where
  filled : s.Filled
  last : s.events s.copies.length = some call.ctrlEvent
  length : s.copies.length = call.thrMask.count - 1
  written : call.thrMask.count - 1 ∈ s.writes
  writes : ∀ i ∈ s.writes, i ≤ call.thrMask.count - 1

/-- Some threads will not get their copy. -/
structure Short (call : Call α) (s : State α) : Prop where
  length : s.sends.length ≤ s.copies.length
  count : s.sends.length < call.thrMask.count
  writes : ∀ i ∈ s.writes, i < call.thrMask.count

/-- Where the caller is -/
def At (call : Call α) (s : State α) : Pc → Prop
  | .start | .doneAlloc => s.Bare ∧ s.group = none ∧ s.doneEvent = none ∧ s.frees = []
  | .doneCreate => s.Bare ∧ s.group = none ∧ s.doneEvent.isSome ∧ s.frees = []
  | .doneApply => s.Bare ∧ s.Idle ∧ s.doneEvent.isSome ∧ s.frees = []
  | .doneUndo => s.Bare ∧ s.Idle ∧ s.frees = s.doneEvent.toList
  | .alloc i => (∃ w, s.Counting call w) ∧ s.sends = [] ∧ s.frees = [] ∧ s.Filled ∧
      i = s.copies.length ∧ i ≤ call.thrMask.count - 1 ∧ ∀ j ∈ s.writes, j < i
  | .send thr => (∃ w, s.Counting call w) ∧ s.AllCopied call ∧ s.frees = [] ∧ s.Walked call thr
  | .errFree i => (∃ w, s.Counting call w) ∧ s.Short call ∧ s.Filled ∧
      s.sends.length ≤ i ∧ i ≤ s.copies.length ∧ s.frees = (s.copies.take i).drop s.sends.length
  | .errNotif => (∃ w, s.Counting call w) ∧ s.Short call ∧ s.frees = s.copies.drop s.sends.length
  | .errAbort num => (∃ w, s.Counting call w) ∧ s.Short call ∧
      s.frees = s.copies.drop s.sends.length ∧ num = s.notifTbl.length
  | .errFreeDone num ok => s.Idle ∧ s.Short call ∧ s.frees = s.copies.drop s.sends.length ∧
      s.notifTbl.take num = s.doneEvent.toList ∧ ok = true
  | .errDelete => s.Idle ∧ s.Short call ∧
      s.frees = s.copies.drop s.sends.length ++ s.doneEvent.toList
  | .returned ret =>
    (s.group = none ∧ ret = call.thrMask.count - s.sends.length ∧ s.sends.length ≤ s.copies.length ∧
      (0 < call.thrMask.count → s.sends.length < call.thrMask.count) ∧
      (∀ i ∈ s.writes, i < call.thrMask.count) ∧
      s.frees = s.copies.drop s.sends.length ++ s.doneEvent.toList) ∨
    ((∃ w, s.Counting call w) ∧ s.AllCopied call ∧ s.frees = [] ∧ s.Walked call none ∧ ret = 0)

theorem Ledger.of_eq (h : s.Ledger call) (hcopies : t.copies = s.copies) (hdone : t.doneEvent = s.doneEvent)
    (hcontents : t.contents = s.contents) (halloc : t.allocCount = s.allocCount)
    (hsent : t.sentCount = s.sentCount) (hunsent : t.unsentCount = s.unsentCount)
    (hsends : t.sends = s.sends) : t.Ledger call where
  nodup := hcopies ▸ h.nodup
  done := hcopies ▸ hdone ▸ h.done
  contents := hcopies ▸ hcontents ▸ h.contents
  allocCount := hcopies ▸ halloc ▸ h.allocCount
  sentCount := hsends ▸ hsent ▸ h.sentCount
  unsentCount := hsends ▸ hunsent ▸ h.unsentCount
  sent := hsends ▸ hcopies ▸ h.sent
  threads := hsends ▸ h.threads
  mask := hsends ▸ h.mask
  msg := hsends ▸ h.msg

theorem Ledger.goto (h : s.Ledger call) (pc : Pc) : (s.goto pc).Ledger call :=
  h.of_eq rfl rfl rfl rfl rfl rfl rfl

/-- The ledger and where the caller is -/
def Inv (call : Call α) (s : State α) : Prop := s.Ledger call ∧ s.At call s.pc

theorem entered_inv (call : Call α) : (entered call).Inv call := by
  refine ⟨?_,⟨rfl,rfl,rfl,rfl,rfl,rfl⟩,rfl,rfl,rfl⟩
  refine ⟨List.nodup_singleton _,?_,?_,rfl,rfl,rfl,rfl,List.nodup_nil,?_,?_⟩
  · rintro e ⟨⟩
  · intro e he
    rw [List.mem_singleton.1 he]
    show Function.update (fun _ => none) call.ctrlEvent (some call.msg) call.ctrlEvent = some call.msg
    rw [Function.update_self]
  · intro t ht
    cases ht
  · intro x hx
    cases hx

/-! `internal_done_w_notif_req` -/

theorem Ledger.setDone (h : s.Ledger call) {e : EmEvent} (he : s.Fresh call e) :
    { s with doneEvent := some e }.Ledger call where
  nodup := h.nodup
  done := by
    rintro _ ⟨⟩ hmem
    rcases List.mem_append.1 hmem with hmem | hmem
    · exact he.2.1 hmem
    · exact he.1 (List.mem_singleton.1 hmem)
  contents := h.contents
  allocCount := h.allocCount
  sentCount := h.sentCount
  unsentCount := h.unsentCount
  sent := h.sent
  threads := h.threads
  mask := h.mask
  msg := h.msg

theorem Bare.setup (h : s.Bare) (pc : Pc) (doneEvent : Option EmEvent) (group : Option EgrpCounter)
    (notifTbl frees : List EmEvent) :
    { s with pc := pc, doneEvent := doneEvent, group := group, notifTbl := notifTbl, frees := frees }.Bare :=
  ⟨h.copies,h.sends,h.writes,h.started,h.handled,h.notified⟩

/-- The setup fails: no thread gets a copy. -/
theorem Bare.returned (h : s.Bare) (hl : s.Ledger call) (hgroup : s.group = none)
    (hfrees : s.frees = s.doneEvent.toList) : (s.goto (.returned s.unsentCount)).Inv call := by
  refine ⟨hl.goto _,.inl ⟨hgroup,hl.unsentCount,?_,?_,?_,?_⟩⟩
  · exact (congrArg List.length h.sends).trans_le (Nat.zero_le _)
  · intro hpos
    exact (congrArg List.length h.sends).trans_lt hpos
  · intro i hi
    have hw : i ∈ s.writes := hi
    rw [h.writes] at hw
    cases hw
  · show s.frees = s.copies.drop s.sends.length ++ s.doneEvent.toList
    rw [hfrees, h.copies, List.drop_nil, List.nil_append]

theorem Idle.apply (h : s.Idle) (hb : s.Bare) (hdone : s.doneEvent.isSome) {notifOk : Bool}
    (ht : s.apply checkLevel call notifOk = some t) :
    (∃ w, t.Counting call w) ∧ t = { s with group := t.group, notifTbl := s.doneEvent.toList } := by
  obtain ⟨w,hgroup,-,-,-⟩ := h
  rw [State.apply, hgroup] at ht
  split at ht
  · obtain ⟨v,hv,rfl⟩ := Option.map_eq_some_iff.1 ht
    obtain ⟨-,hpre,hpost,happlied,-⟩ := EgrpCounter.emEventGroupApply_some call.thrMask.count_le hv
    refine ⟨⟨v,rfl,hdone,rfl,?_,?_,?_,?_,?_,?_⟩,rfl⟩
    · show v.preCnt.toNat + s.started = _
      rw [hb.started, hpre, Nat.add_zero]
    · show v.postCnt.toNat + s.handled = _
      rw [hb.handled, hpost, Nat.add_zero]
    · exact hb.handled.trans_le (Nat.zero_le _)
    · exact hb.started.trans_le (Nat.zero_le _)
    · rw [happlied, hpost]
      exact iff_of_true rfl (Nat.eq_zero_or_pos _).symm
    · rw [if_neg (by omega)]
      exact hb.notified
  · cases ht

theorem Idle.deleteGroup (h : s.Idle) : s.deleteGroup = { s with group := none } := by
  obtain ⟨w,hgroup,-,-,happlied⟩ := h
  rw [State.deleteGroup, hgroup, Option.filter_some, if_neg (by rw [happlied]; exact Bool.false_ne_true)]

theorem Inv.setup (h : s.Inv call) {x : Answer} (ht : s.runStep checkLevel call x = some t)
    (hpc : s.pc ∈ [Pc.start,.doneAlloc,.doneCreate,.doneApply,.doneUndo]) : t.Inv call := by
  obtain ⟨hl,ha⟩ := h
  rw [State.runStep] at ht
  split at ht
  · rename_i hs
    rw [hs] at ha
    obtain ⟨hb,hgroup,hdone,hfrees⟩ := ha
    cases ht
    split
    · refine hb.returned hl hgroup ?_
      rw [hfrees, hdone, Option.toList_none]
    · exact ⟨hl.goto _,hb.setup ..,hgroup,hdone,hfrees⟩
  · rename_i hs
    rw [hs] at ha
    obtain ⟨hb,hgroup,hdone,hfrees⟩ := ha
    split at ht
    · cases ht
      refine hb.returned hl hgroup ?_
      rw [hfrees, hdone, Option.toList_none]
    · split at ht
      · rename_i e hfresh
        cases ht
        exact ⟨(hl.setDone hfresh).goto _,hb.setup ..,
          hgroup,rfl,hfrees⟩
      · cases ht
  · rename_i hs
    rw [hs] at ha
    obtain ⟨hb,hgroup,hdone,hfrees⟩ := ha
    split at ht
    · cases ht
      exact ⟨hl.of_eq rfl rfl rfl rfl rfl rfl rfl,
        hb.setup ..,
        ⟨_,rfl,rfl,rfl,rfl⟩,hdone,hfrees⟩
    · cases ht
      refine Bare.returned (s := { s with frees := s.frees ++ s.doneEvent.toList }) (hb.setup ..)
        (hl.of_eq rfl rfl rfl rfl rfl rfl rfl) hgroup ?_
      show s.frees ++ _ = _
      rw [hfrees, List.nil_append]
  · rename_i hs
    rw [hs] at ha
    obtain ⟨hb,hidle,hdone,hfrees⟩ := ha
    split at ht
    · rename_i u hu
      cases ht
      obtain ⟨⟨w,hw⟩,hu⟩ := hidle.apply hb hdone hu
      have hcopies : u.copies = [] := by
        rw [hu]
        exact hb.copies
      have hwrites : u.writes = [] := by
        rw [hu]
        exact hb.writes
      refine ⟨?_,⟨w,?_⟩,?_,?_,?_,?_,Nat.zero_le _,?_⟩
      · rw [hu]
        exact hl.of_eq rfl rfl rfl rfl rfl rfl rfl
      · exact ⟨hw.group,hw.done,hw.notifTbl,hw.pre,hw.post,hw.handled_le,hw.started_le,hw.applied,hw.notified⟩
      · rw [hu]
        exact hb.sends
      · rw [hu]
        exact hfrees
      · intro j e hj
        have hj' : u.copies[j]? = some e := hj
        rw [hcopies] at hj'
        cases hj'
      · exact (congrArg List.length hcopies).symm
      · intro j hj
        have hj' : j ∈ u.writes := hj
        rw [hwrites] at hj'
        cases hj'
    · cases ht
      refine ⟨hl.of_eq rfl rfl rfl rfl rfl rfl rfl,
        hb.setup ..,hidle,?_⟩
      show s.frees ++ _ = _
      rw [hfrees, List.nil_append]
      rfl
  · rename_i hs
    rw [hs] at ha
    obtain ⟨hb,hidle,hfrees⟩ := ha
    cases ht
    rw [hidle.deleteGroup]
    exact Bare.returned (s := { s with group := none }) (hb.setup ..)
      (hl.of_eq rfl rfl rfl rfl rfl rfl rfl) rfl hfrees
  all_goals
    rename_i hs
    rw [hs] at hpc
    simp at hpc

/-! The loops of `send_core_ctrl_events` -/

theorem Counting.of_eq {w : EgrpCounter} (h : s.Counting call w) (hgroup : t.group = s.group)
    (hdone : t.doneEvent = s.doneEvent) (hnotif : t.notifTbl = s.notifTbl) (hstarted : t.started = s.started)
    (hhandled : t.handled = s.handled) (hnotified : t.notified = s.notified)
    (hsends : s.sends.length ≤ t.sends.length) : t.Counting call w where
  group := hgroup.trans h.group
  done := hdone ▸ h.done
  notifTbl := hnotif ▸ hdone ▸ h.notifTbl
  pre := hstarted ▸ h.pre
  post := hhandled ▸ h.post
  handled_le := hhandled ▸ hstarted ▸ h.handled_le
  started_le := hstarted ▸ h.started_le.trans hsends
  applied := h.applied
  notified := hnotified ▸ h.notified

theorem Ledger.allocCopy (h : s.Ledger call) {e : EmEvent} (he : s.Fresh call e) (i : Nat)
    (hsends : s.sends = []) : (s.allocCopy call i e).Ledger call where
  nodup := by
    show ((s.copies ++ [e]) ++ [call.ctrlEvent]).Nodup
    rw [List.append_assoc]
    refine (List.perm_middle.nodup_iff).2 (List.nodup_cons.2 ⟨?_,h.nodup⟩)
    rw [List.mem_append, not_or]
    exact ⟨he.2.1,fun hmem => he.1 (List.mem_singleton.1 hmem)⟩
  done := by
    intro d hd hmem
    have hmem : d ∈ (s.copies ++ [e]) ++ [call.ctrlEvent] := hmem
    rw [List.append_assoc] at hmem
    rcases List.mem_cons.1 (List.perm_middle.mem_iff.1 hmem) with rfl | hmem
    · exact he.2.2 hd
    · exact h.done d hd hmem
  contents := by
    intro d hd
    show Function.update s.contents e (some call.msg) d = _
    by_cases hde : d = e
    · rw [hde, Function.update_self]
    · have hd : d ∈ (s.copies ++ [e]) ++ [call.ctrlEvent] := hd
      rw [List.append_assoc] at hd
      rw [Function.update_of_ne hde]
      exact h.contents d ((List.mem_cons.1 (List.perm_middle.mem_iff.1 hd)).resolve_left hde)
  allocCount := by
    show s.allocCount + 1 = (s.copies ++ [e]).length
    rw [List.length_append, h.allocCount, List.length_singleton]
  sentCount := h.sentCount
  unsentCount := h.unsentCount
  sent := by
    show s.sends.map Sent.event = _
    rw [show (s.allocCopy call i e).sends = [] from hsends, hsends]
    rfl
  threads := h.threads
  mask := h.mask
  msg := h.msg

theorem Filled.allocCopy (h : s.Filled) (call : Call α) (e : EmEvent) :
    (s.allocCopy call s.copies.length e).Filled := by
  intro j d hj
  have hj : (s.copies ++ [e])[j]? = some d := hj
  show Function.update s.events s.copies.length (some e) j = some d
  rcases Nat.lt_trichotomy j s.copies.length with hlt | heq | hgt
  · rw [Function.update_of_ne (Nat.ne_of_lt hlt)]
    rw [List.getElem?_append_left hlt] at hj
    exact h j d hj
  · subst heq
    rw [Function.update_self]
    rw [List.getElem?_concat_length] at hj
    exact hj
  · rw [List.getElem?_eq_none (by rw [List.length_append, List.length_singleton]; exact hgt)] at hj
    cases hj

theorem Walked.first (hsends : s.sends = []) : s.Walked call call.thrMask.first := by
  cases hfirst : call.thrMask.first with
  | none =>
    intro u hu
    rw [Thrmask.first_none hfirst] at hu
    exact absurd hu (Finset.notMem_empty u)
  | some thr =>
    obtain ⟨hthr,hle⟩ := Thrmask.first_some hfirst
    refine ⟨hthr,?_,fun u hu hlt => absurd (hle u hu) (Nat.not_le.2 hlt)⟩
    intro u hu
    rw [hsends] at hu
    cases hu

theorem Inv.alloc (h : s.Inv call) {i : Nat} (hpc : s.pc = .alloc i) {x : Answer}
    (ht : s.runStep checkLevel call x = some t) : t.Inv call := by
  obtain ⟨hl,ha⟩ := h
  rw [hpc] at ha
  obtain ⟨⟨w,hw⟩,hsends,hfrees,hfilled,rfl,hle,hwrites⟩ := ha
  simp only [State.runStep, hpc] at ht
  split at ht
  · rename_i hlt
    split at ht
    · cases ht
      refine ⟨hl.of_eq rfl rfl rfl rfl rfl rfl rfl,⟨w,hw.of_eq rfl rfl rfl rfl rfl rfl (Nat.le_refl _)⟩,
        ⟨?_,?_,?_⟩,?_,?_,?_,?_⟩
      · exact (congrArg List.length hsends).trans_le (Nat.zero_le _)
      · exact (congrArg List.length hsends).trans_lt (by simp only [List.length_nil]; omega)
      · intro j hj
        rcases List.mem_cons.1 hj with rfl | hj
        · omega
        · have hj := hwrites j hj
          omega
      · intro j e hj
        have hlen : j < s.copies.length := (List.getElem?_eq_some_iff.1 hj).1
        exact (Function.update_of_ne (Nat.ne_of_lt hlen) ..).trans (hfilled j e hj)
      · exact hl.sentCount.ge
      · exact (hl.sentCount.trans (congrArg List.length hsends)).trans_le (Nat.zero_le _)
      · show s.frees = (s.copies.take s.sentCount).drop s.sends.length
        rw [hfrees, hl.sentCount, hsends]
        rfl
    · rename_i e _
      split at ht
      · rename_i hfresh
        cases ht
        refine ⟨(hl.allocCopy hfresh _ hsends).goto _,
          ⟨w,hw.of_eq rfl rfl rfl rfl rfl rfl (Nat.le_refl _)⟩,hsends,hfrees,hfilled.allocCopy call e,?_,?_,?_⟩
        · show _ = (s.copies ++ [e]).length
          rw [List.length_append, List.length_singleton]
        · omega
        · intro j hj
          rcases List.mem_cons.1 hj with rfl | hj
          · exact Nat.lt_succ_self _
          · exact Nat.lt_succ_of_lt (hwrites j hj)
      · cases ht
  · rename_i hge
    cases ht
    have hlen : s.copies.length = call.thrMask.count - 1 := by omega
    refine ⟨hl.of_eq rfl rfl rfl rfl rfl rfl rfl,⟨w,hw.of_eq rfl rfl rfl rfl rfl rfl (Nat.le_refl _)⟩,
      ⟨?_,Function.update_self ..,hlen,?_,?_⟩,hfrees,Walked.first hsends⟩
    · intro j e hj
      have hj' : j < s.copies.length := (List.getElem?_eq_some_iff.1 hj).1
      exact (Function.update_of_ne (Nat.ne_of_lt hj') ..).trans (hfilled j e hj)
    · exact hlen ▸ List.mem_cons_self
    · intro j hj
      rcases List.mem_cons.1 hj with rfl | hj
      · exact hle
      · exact hlen ▸ (hwrites j hj).le

theorem Ledger.sendTo (h : s.Ledger call) {e : EmEvent} (hthr : thr ∈ call.thrMask.threads)
    (hnew : thr ∉ s.sends.map Sent.thr)
    (he : (s.copies ++ [call.ctrlEvent])[s.sends.length]? = some e) :
    (s.sendTo thr e call.msg).Ledger call where
  nodup := h.nodup
  done := h.done
  contents := h.contents
  allocCount := h.allocCount
  sentCount := by
    show s.sentCount + 1 = (s.sends ++ [_]).length
    rw [List.length_append, h.sentCount, List.length_singleton]
  unsentCount := by
    show s.unsentCount - 1 = _ - (s.sends ++ [_]).length
    rw [List.length_append, h.unsentCount, List.length_singleton]
    omega
  sent := by
    show (s.sends ++ [_]).map Sent.event = (s.copies ++ [call.ctrlEvent]).take (s.sends ++ [_]).length
    rw [List.map_append, h.sent, List.length_append, List.length_singleton, List.take_add_one, he]
    rfl
  threads := by
    show ((s.sends ++ [_]).map Sent.thr).Nodup
    rw [List.map_append]
    exact List.nodup_append.2 ⟨h.threads,List.nodup_singleton _,by
      rintro u hu _ hv rfl
      rw [List.mem_singleton.1 hv] at hu
      exact hnew hu⟩
  mask := by
    intro u hu
    have hu : u ∈ (s.sends ++ [_]).map Sent.thr := hu
    rw [List.map_append] at hu
    rcases List.mem_append.1 hu with hu | hu
    · exact h.mask u hu
    · rwa [List.mem_singleton.1 hu]
  msg := by
    intro x hx
    rcases List.mem_append.1 hx with hx | hx
    · exact h.msg x hx
    · rw [List.mem_singleton.1 hx]

theorem AllCopied.event (h : s.AllCopied call) {k : Nat} (hk : k ≤ s.copies.length) :
    ∃ e ∈ s.copies ++ [call.ctrlEvent], (s.copies ++ [call.ctrlEvent])[k]? = some e ∧ s.events k = some e := by
  rcases Nat.lt_or_eq_of_le hk with hlt | rfl
  · have hget := List.getElem?_eq_getElem hlt
    refine ⟨s.copies[k],List.mem_append_left _ (List.getElem_mem hlt),?_,h.filled k _ hget⟩
    rw [List.getElem?_append_left hlt, hget]
  · exact ⟨_,List.mem_concat_self,List.getElem?_concat_length,h.last⟩

theorem Walked.lt (h : s.Walked call (some thr)) (hl : s.Ledger call) :
    s.sends.length < call.thrMask.count := by
  obtain ⟨hthr,hlt,-⟩ := h
  have hsub : (s.sends.map Sent.thr).toFinset ⊂ call.thrMask.threads := by
    refine (Finset.ssubset_iff_of_subset fun u hu => hl.mask u (List.mem_toFinset.1 hu)).2 ⟨thr,hthr,?_⟩
    intro hmem
    exact Nat.lt_irrefl _ (hlt thr (List.mem_toFinset.1 hmem))
  have hcard := Finset.card_lt_card hsub
  rwa [List.toFinset_card_of_nodup hl.threads, List.length_map] at hcard

theorem Walked.next (h : s.Walked call (some thr)) (e : EmEvent) (msg : α) :
    (s.sendTo thr e msg).Walked call (call.thrMask.next thr) := by
  obtain ⟨hthr,hlt,hwalked⟩ := h
  have hmem : ∀ u, u ∈ (s.sendTo thr e msg).sends.map Sent.thr ↔ u ∈ s.sends.map Sent.thr ∨ u = thr := by
    intro u
    show u ∈ (s.sends ++ [_]).map Sent.thr ↔ _
    rw [List.map_append, List.mem_append, List.map_singleton, List.mem_singleton]
  have hupto : ∀ u ∈ call.thrMask.threads, u ≤ thr → u ∈ (s.sendTo thr e msg).sends.map Sent.thr := by
    intro u hu hle
    rcases Nat.lt_or_eq_of_le hle with hlt | heq
    · exact (hmem u).2 (.inl (hwalked u hu hlt))
    · exact (hmem u).2 (.inr heq)
  cases hnext : call.thrMask.next thr with
  | none => exact fun u hu => hupto u hu (Thrmask.next_none hnext hu)
  | some v =>
    obtain ⟨hv,hthrv,hmin⟩ := Thrmask.next_some hnext
    refine ⟨hv,fun u hu => ?_,fun u hu huv => hupto u hu ?_⟩
    · rcases (hmem u).1 hu with hu | rfl
      · exact (hlt u hu).trans hthrv
      · exact hthrv
    · by_contra hle
      exact absurd (hmin u hu (Nat.not_le.1 hle)) (Nat.not_le.2 huv)

theorem Inv.send (h : s.Inv call) {thr : Option Nat} (hpc : s.pc = .send thr) {x : Answer}
    (ht : s.runStep checkLevel call x = some t) : t.Inv call := by
  obtain ⟨hl,ha⟩ := h
  rw [hpc] at ha
  obtain ⟨⟨w,hw⟩,hall,hfrees,hwalked⟩ := ha
  cases thr with
  | none =>
    simp only [State.runStep, hpc] at ht
    cases ht
    exact ⟨hl.goto _,.inr ⟨⟨w,hw.of_eq rfl rfl rfl rfl rfl rfl (Nat.le_refl _)⟩,
      ⟨hall.filled,hall.last,hall.length,hall.written,hall.writes⟩,hfrees,hwalked,rfl⟩⟩
  | some thr =>
    have hcount := hwalked.lt hl
    have hlen := hall.length
    obtain ⟨e,hmem,hget,hevent⟩ := hall.event (k := s.sends.length) (by omega)
    simp only [State.runStep, hpc, hl.sentCount, hevent, hl.contents e hmem, Option.map_some] at ht
    split at ht
    · cases ht
      refine ⟨(hl.sendTo hwalked.1 ?_ hget).goto _,⟨w,hw.of_eq rfl rfl rfl rfl rfl rfl ?_⟩,
        ⟨hall.filled,hall.last,hall.length,hall.written,hall.writes⟩,hfrees,?_⟩
      · exact fun hsent => Nat.lt_irrefl _ (hwalked.2.1 thr hsent)
      · show s.sends.length ≤ (s.sends ++ [_]).length
        rw [List.length_append]
        exact Nat.le_add_right ..
      · have hnext := hwalked.next e call.msg
        cases hthr : call.thrMask.next thr <;> rw [hthr] at hnext <;> exact hnext
    · cases ht
      refine ⟨hl.goto _,⟨w,hw.of_eq rfl rfl rfl rfl rfl rfl (Nat.le_refl _)⟩,⟨?_,hcount,?_⟩,hall.filled,
        Nat.le_refl _,?_,?_⟩
      · show s.sends.length ≤ s.copies.length
        omega
      · intro i hi
        have hi := hall.writes i hi
        omega
      · show s.sends.length ≤ s.copies.length
        omega
      · show s.frees = (s.copies.take s.sends.length).drop s.sends.length
        rw [hfrees, List.drop_eq_nil_of_le (List.length_take_le ..)]

/-! `evgrp_abort_delete` -/

theorem Short.of_eq (h : s.Short call) (hcopies : t.copies = s.copies) (hsends : t.sends = s.sends)
    (hwrites : t.writes = s.writes) : t.Short call :=
  ⟨hsends ▸ hcopies ▸ h.length,hsends ▸ h.count,hwrites ▸ h.writes⟩

/-- As long as a thread has got no copy the events of the group have not all been handled. -/
theorem Counting.post_pos {w : EgrpCounter} (h : s.Counting call w) (hshort : s.Short call) :
    0 < w.postCnt.toNat := by
  have hpost := h.post
  have hle := h.handled_le
  have hstarted := h.started_le
  have hcount := hshort.count
  omega

theorem Inv.undo (h : s.Inv call) {x : Answer} (ht : s.runStep checkLevel call x = some t)
    (hpc : (∃ i, s.pc = .errFree i) ∨ s.pc = .errNotif ∨ (∃ num, s.pc = .errAbort num) ∨
      (∃ num ok, s.pc = .errFreeDone num ok) ∨ s.pc = .errDelete) : t.Inv call := by
  obtain ⟨hl,ha⟩ := h
  rcases hpc with ⟨i,hpc⟩ | hpc | ⟨num,hpc⟩ | ⟨num,ok,hpc⟩ | hpc
  · rw [hpc] at ha
    obtain ⟨⟨w,hw⟩,hshort,hfilled,hle,hi,hfrees⟩ := ha
    simp only [State.runStep, hpc, hl.allocCount] at ht
    split at ht
    · rename_i hlt
      have hget := List.getElem?_eq_getElem hlt
      rw [hfilled i _ hget] at ht
      cases ht
      refine ⟨hl.of_eq rfl rfl rfl hl.allocCount.symm rfl rfl rfl,
        ⟨w,hw.of_eq rfl rfl rfl rfl rfl rfl (Nat.le_refl _)⟩,hshort.of_eq rfl rfl rfl,hfilled,
        Nat.le_succ_of_le hle,hlt,?_⟩
      show s.frees ++ [s.copies[i]] = (s.copies.take (i+1)).drop s.sends.length
      rw [hfrees, List.take_add_one, hget, Option.toList_some, List.drop_append_of_le_length]
      rwa [List.length_take, Nat.min_eq_left hi]
    · cases ht
      have heq : i = s.copies.length := by omega
      refine ⟨hl.goto _,⟨w,hw.of_eq rfl rfl rfl rfl rfl rfl (Nat.le_refl _)⟩,
        hshort.of_eq rfl rfl rfl,?_⟩
      show s.frees = _
      rw [hfrees, heq, List.take_length]
      rfl
  · rw [hpc] at ha
    obtain ⟨⟨w,hw⟩,hshort,hfrees⟩ := ha
    have happlied := hw.applied.2 (.inl (hw.post_pos hshort))
    have hlen : s.notifTbl.length = 1 := by
      rw [hw.notifTbl, Option.length_toList, hw.done, if_pos rfl]
    simp only [State.runStep, hpc, hw.group, Option.any_some, happlied, if_true, hlen] at ht
    cases ht
    refine ⟨hl.goto _,⟨w,hw.of_eq rfl rfl rfl rfl rfl rfl (Nat.le_refl _)⟩,
      hshort.of_eq rfl rfl rfl,hfrees,hlen.symm⟩
  · rw [hpc] at ha
    obtain ⟨⟨w,hw⟩,hshort,hfrees,rfl⟩ := ha
    have happlied := hw.applied.2 (.inl (hw.post_pos hshort))
    simp only [State.runStep, hpc, hw.group, Option.bind_some, EgrpCounter.emEventGroupAbort, happlied,
      Bool.not_true, Bool.false_eq_true, if_false] at ht
    cases ht
    refine ⟨hl.of_eq rfl rfl rfl rfl rfl rfl rfl,⟨_,rfl,rfl,rfl,rfl⟩,hshort.of_eq rfl rfl rfl,hfrees,?_,rfl⟩
    show s.notifTbl.take s.notifTbl.length = _
    rw [List.take_length]
    exact hw.notifTbl
  · rw [hpc] at ha
    obtain ⟨hidle,hshort,hfrees,hnotif,rfl⟩ := ha
    simp only [State.runStep, hpc, if_true] at ht
    cases ht
    refine ⟨hl.of_eq rfl rfl rfl rfl rfl rfl rfl,hidle,hshort.of_eq rfl rfl rfl,?_⟩
    show s.frees ++ s.notifTbl.take num = _
    rw [hnotif, hfrees]
    rfl
  · rw [hpc] at ha
    obtain ⟨hidle,hshort,hfrees⟩ := ha
    simp only [State.runStep, hpc, hidle.deleteGroup] at ht
    cases ht
    exact ⟨hl.of_eq rfl rfl rfl rfl rfl rfl rfl,.inl ⟨rfl,hl.unsentCount,hshort.length,fun _ => hshort.count,
      hshort.writes,hfrees⟩⟩

theorem Inv.run (h : s.Inv call) {x : Answer} (ht : s.runStep checkLevel call x = some t) : t.Inv call := by
  cases hpc : s.pc with
  | start | doneAlloc | doneCreate | doneApply | doneUndo => exact h.setup ht (by rw [hpc]; decide)
  | alloc i => exact h.alloc hpc ht
  | send thr => exact h.send hpc ht
  | errFree i => exact h.undo ht (.inl ⟨i,hpc⟩)
  | errNotif => exact h.undo ht (.inr (.inl hpc))
  | errAbort num => exact h.undo ht (.inr (.inr (.inl ⟨num,hpc⟩)))
  | errFreeDone num ok => exact h.undo ht (.inr (.inr (.inr (.inl ⟨num,ok,hpc⟩))))
  | errDelete => exact h.undo ht (.inr (.inr (.inr (.inr hpc))))
  | returned ret =>
    rw [State.runStep, hpc] at ht
    cases ht

/-! The threads that handle the copies -/

/-- The state after a change of the counters of the event group -/
def count (s : State α) (group : Option EgrpCounter) (started handled notified : Nat) : State α :=
  { s with group, started, handled, notified }

theorem Inv.count (h : s.Inv call) {group : Option EgrpCounter} {started handled notified : Nat}
    (hgroup : s.group ≠ none) (hidle : ¬s.Idle)
    (hcount : ∀ w, s.Counting call w → ∃ v, (s.count group started handled notified).Counting call v) :
    (s.count group started handled notified).Inv call := by
  obtain ⟨hl,ha⟩ := h
  refine ⟨hl.of_eq rfl rfl rfl rfl rfl rfl rfl,?_⟩
  show (s.count group started handled notified).At call s.pc
  cases hpc : s.pc with
  | start | doneAlloc | doneCreate =>
    rw [hpc] at ha
    exact absurd ha.2.1 hgroup
  | doneApply | doneUndo =>
    rw [hpc] at ha
    exact absurd ha.2.1 hidle
  | errFreeDone num ok | errDelete =>
    rw [hpc] at ha
    exact absurd ha.1 hidle
  | alloc i =>
    rw [hpc] at ha
    obtain ⟨⟨w,hw⟩,hrest⟩ := ha
    exact ⟨hcount w hw,hrest⟩
  | send thr =>
    rw [hpc] at ha
    obtain ⟨⟨w,hw⟩,hall,hfrees,hwalked⟩ := ha
    refine ⟨hcount w hw,⟨hall.filled,hall.last,hall.length,hall.written,hall.writes⟩,hfrees,?_⟩
    cases thr <;> exact hwalked
  | errFree i =>
    rw [hpc] at ha
    obtain ⟨⟨w,hw⟩,hshort,hrest⟩ := ha
    exact ⟨hcount w hw,hshort.of_eq rfl rfl rfl,hrest⟩
  | errNotif =>
    rw [hpc] at ha
    obtain ⟨⟨w,hw⟩,hshort,hrest⟩ := ha
    exact ⟨hcount w hw,hshort.of_eq rfl rfl rfl,hrest⟩
  | errAbort num =>
    rw [hpc] at ha
    obtain ⟨⟨w,hw⟩,hshort,hrest⟩ := ha
    exact ⟨hcount w hw,hshort.of_eq rfl rfl rfl,hrest⟩
  | returned ret =>
    rw [hpc] at ha
    rcases ha with ⟨hnone,-⟩ | ⟨⟨w,hw⟩,hall,hfrees,hwalked,hret⟩
    · exact absurd hnone hgroup
    · exact .inr ⟨hcount w hw,⟨hall.filled,hall.last,hall.length,hall.written,hall.writes⟩,hfrees,hwalked,
        hret⟩

theorem Inv.dequeue (h : s.Inv call) {w : EgrpCounter} (hw : s.group = some w)
    (ht : s.dequeue w.gen = some t) : t.Inv call := by
  rw [State.dequeue] at ht
  split at ht
  · rename_i hlt
    rw [hw, Option.bind_some] at ht
    obtain ⟨v,hv,rfl⟩ := Option.map_eq_some_iff.1 ht
    obtain ⟨hpre,happlied,-,hsub,hpost,hv,-⟩ := EgrpCounter.preCountDecrement_some hv
    refine h.count (hw ▸ Option.some_ne_none w) ?_ ?_
    · rintro ⟨u,hu,-,-,hidle⟩
      rw [Option.some.inj (hw.symm.trans hu), hidle] at happlied
      cases happlied
    · intro u hu
      obtain rfl := Option.some.inj (hw.symm.trans hu.group)
      have hsum := hu.pre
      refine ⟨v,rfl,hu.done,hu.notifTbl,?_,?_,Nat.le_succ_of_le hu.handled_le,hlt,?_,?_⟩
      · show v.preCnt.toNat + (s.started + 1) = _
        omega
      · rw [hpost]
        exact hu.post
      · rw [hpost, hv]
        exact iff_of_true rfl (hu.applied.1 happlied)
      · rw [hpost]
        exact hu.notified
  · cases ht

theorem Inv.finish (h : s.Inv call) {w : EgrpCounter} (hw : s.group = some w)
    (ht : s.finish w.gen = some t) : t.Inv call := by
  rw [State.finish] at ht
  split at ht
  · rename_i hlt
    rw [hw, Option.bind_some] at ht
    obtain ⟨v,hv,rfl⟩ := Option.map_eq_some_iff.1 ht
    obtain ⟨hpost,-,hsub,hpre,-,happlied⟩ := EgrpCounter.postCountDecrement_some hv
    refine h.count (hw ▸ Option.some_ne_none w) ?_ ?_
    · rintro ⟨u,hu,-,hzero,-⟩
      rw [Option.some.inj (hw.symm.trans hu), hzero] at hpost
      omega
    · intro u hu
      obtain rfl := Option.some.inj (hw.symm.trans hu.group)
      have hsum := hu.post
      have hone : s.notifTbl.length = 1 := by
        rw [hu.notifTbl, Option.length_toList, hu.done, if_pos rfl]
      have hzero : v.postCnt = 0 ↔ v.postCnt.toNat = 0 := BitVec.toNat_inj.symm
      have hcnt : 0 < call.thrMask.count := by omega
      have hwas := hu.applied.2 (.inl (by omega))
      have hnotified := hu.notified
      rw [if_neg (by omega)] at hnotified
      refine ⟨v,rfl,hu.done,hu.notifTbl,?_,?_,hlt,hu.started_le,?_,?_⟩
      · rw [hpre]
        exact hu.pre
      · show v.postCnt.toNat + (s.handled + 1) = _
        omega
      · rw [happlied, hwas]
        by_cases hv0 : v.postCnt = 0
        · rw [if_pos hv0]
          refine iff_of_false Bool.false_ne_true ?_
          have := hzero.1 hv0
          omega
        · rw [if_neg hv0]
          refine iff_of_true rfl (.inl ?_)
          exact Nat.pos_of_ne_zero (mt hzero.2 hv0)
      · show s.notified + _ = _
        by_cases hv0 : v.postCnt = 0
        · rw [if_pos hv0, if_pos ⟨hzero.1 hv0,hcnt⟩, hnotified, hone]
        · rw [if_neg hv0, if_neg fun hc => hv0 (hzero.2 hc.1), hnotified]
  · cases ht

theorem inv_of_reachable (h : (system checkLevel call).Reachable s) : s.Inv call := by
  refine h.invariant (fun s hs => ?_) fun s l t hi ht _ => ?_
  · rw [show s = entered call from hs]
    exact entered_inv call
  · have ht : s.step checkLevel call l = some t := ht
    cases l with
    | run x => exact hi.run ht
    | dequeue =>
      obtain ⟨w,hw,ht⟩ := Option.bind_eq_some_iff.1 ht
      exact hi.dequeue hw ht
    | finish =>
      obtain ⟨w,hw,ht⟩ := Option.bind_eq_some_iff.1 ht
      exact hi.finish hw ht

theorem Walked.all_sent (h : s.Walked call none) (hl : s.Ledger call) : s.AllSent call :=
  ⟨hl.threads,fun u => ⟨hl.mask u,h u⟩,hl.msg⟩

theorem AllSent.length (h : s.AllSent call) : s.sends.length = call.thrMask.count := by
  have hset : (s.sends.map Sent.thr).toFinset = call.thrMask.threads := by
    ext u
    rw [List.mem_toFinset]
    exact h.each u
  rw [Thrmask.count, ← hset, List.toFinset_card_of_nodup h.once, List.length_map]

theorem Counting.armed {w : EgrpCounter} (h : s.Counting call w) (hpos : 0 < call.thrMask.count) :
    s.Armed call := by
  refine ⟨h.done,h.notifTbl,w,h.group,h.post,?_,?_⟩
  · refine h.applied.trans (or_iff_left ?_)
    omega
  · rw [h.notified]
    exact if_congr (and_iff_left hpos) rfl rfl

theorem Ledger.unsent (h : s.Ledger call) : call.thrMask.count - s.sends.length =
    (call.thrMask.threads.filter (· ∉ s.sends.map Sent.thr)).card := by
  have hsub : (s.sends.map Sent.thr).toFinset ⊆ call.thrMask.threads :=
    fun u hu => h.mask u (List.mem_toFinset.1 hu)
  have hfilter : call.thrMask.threads.filter (· ∉ s.sends.map Sent.thr) =
      call.thrMask.threads \ (s.sends.map Sent.thr).toFinset := by
    ext u
    rw [Finset.mem_filter, Finset.mem_sdiff, List.mem_toFinset]
  rw [hfilter, Finset.card_sdiff_of_subset hsub, List.toFinset_card_of_nodup h.threads, List.length_map]
  rfl

/-- The copies that have been sent, when `ctrl_event` has not been. -/
theorem Ledger.sent_copies (h : s.Ledger call) (hle : s.sends.length ≤ s.copies.length) :
    s.sends.map Sent.event = s.copies.take s.sends.length := by
  rw [h.sent, List.take_append_of_le_length hle]

theorem Inv.accounted (h : s.Inv call) {ret : Nat} (hret : s.pc = .returned ret)
    (hpos : 0 < call.thrMask.count) : s.Accounted call ret := by
  obtain ⟨hl,ha⟩ := h
  have hcopies := (List.nodup_append.1 hl.nodup).1
  have hctrl : call.ctrlEvent ∉ s.copies := fun hmem =>
    (List.nodup_append.1 hl.nodup).2.2 _ hmem _ (List.mem_singleton_self _) rfl
  have hdone : ∀ e ∈ s.copies, e ∉ s.doneEvent.toList := fun e he hmem =>
    hl.done e (Option.mem_toList.1 hmem) (List.mem_append_left _ he)
  rw [hret] at ha
  rcases ha with ⟨hgroup,rfl,hle,hlt,hwrites,hfrees⟩ | ⟨⟨w,hw⟩,hall,hfrees,hwalked,rfl⟩
  · have hlt := hlt hpos
    have hsent := hl.sent_copies hle
    refine ⟨iff_of_false (by omega) ?_,fun _ => hl.unsent,?_,⟨?_,fun _ => ?_⟩,fun _ => ⟨hgroup,?_⟩,hwrites⟩
    · rintro ⟨-,-,-,w,hw,-⟩
      rw [hgroup] at hw
      cases hw
    · intro e he
      rw [hsent, hfrees, ← List.append_assoc, List.take_append_drop, List.count_append,
        List.count_eq_one_of_mem hcopies he, List.count_eq_zero.2 (hdone e he)]
    · rw [hfrees, List.mem_append, not_or]
      refine ⟨fun hmem => hctrl (List.mem_of_mem_drop hmem),fun hmem => ?_⟩
      exact hl.done _ (Option.mem_toList.1 hmem) List.mem_concat_self
    · rw [hsent]
      exact fun hmem => hctrl (List.mem_of_mem_take hmem)
    · intro e he
      have hnot : e ∉ s.copies := fun hmem => hl.done e he (List.mem_append_left _ hmem)
      rw [hfrees, List.count_append, List.count_eq_zero.2 fun hmem => hnot (List.mem_of_mem_drop hmem),
        Option.mem_def.1 he, Option.toList_some, List.count_singleton_self]
  · have hsent := hwalked.all_sent hl
    have hlen : s.sends.map Sent.event = s.copies ++ [call.ctrlEvent] := by
      rw [hl.sent, List.take_of_length_le]
      rw [hsent.length, List.length_append, List.length_singleton, hall.length]
      omega
    refine ⟨iff_of_true rfl ⟨hsent,hw.armed hpos⟩,fun hne => absurd rfl hne,?_,
      ⟨?_,fun hne => absurd rfl hne⟩,fun hne => absurd rfl hne,?_⟩
    · intro e he
      rw [hlen, hfrees, List.append_nil]
      exact List.count_eq_one_of_mem hl.nodup (List.mem_append_left _ he)
    · rw [hfrees]
      exact List.not_mem_nil
    · intro i hi
      have hi := hall.writes i hi
      omega

/-- An empty mask: the error of `internal_done_w_notif_req` is returned as zero, or the control event
is written behind the end of the table. -/
theorem Inv.not_accounted (h : s.Inv call) {ret : Nat} (hret : s.pc = .returned ret)
    (hzero : call.thrMask.count = 0) : ¬s.Accounted call ret := by
  obtain ⟨hl,ha⟩ := h
  intro hacc
  rw [hret] at ha
  rcases ha with ⟨hgroup,hr,-⟩ | ⟨-,hall,-⟩
  · obtain ⟨-,-,-,w,hw,-⟩ := hacc.zero_iff.1 (by omega)
    rw [hgroup] at hw
    cases hw
  · have hlt := hacc.bounds _ hall.written
    omega

/-- A bound on the steps that the caller still takes -/
def left (call : Call α) (s : State α) : Nat := match s.pc with
  | .start => 3 * call.thrMask.count + 11
  | .doneAlloc => 3 * call.thrMask.count + 10
  | .doneCreate => 3 * call.thrMask.count + 9
  | .doneApply => 3 * call.thrMask.count + 8
  | .alloc i => call.thrMask.count - i + 2 * call.thrMask.count + 7
  | .send _ => call.thrMask.count - s.sentCount + call.thrMask.count + 6
  | .errFree i => s.allocCount - i + 5
  | .errNotif => 4
  | .errAbort _ => 3
  | .errFreeDone .. => 2
  | .errDelete | .doneUndo => 1
  | .returned _ => 0

theorem Inv.progress (h : s.Inv call) {x : Answer} (hx : ∀ e ∈ x.event, s.Fresh call e) :
    (∃ ret, s.pc = .returned ret) ∨
      ∃ t, s.runStep checkLevel call x = some t ∧ t.left call < s.left call := by
  obtain ⟨hl,ha⟩ := h
  cases hpc : s.pc with
  | returned ret => exact .inl ⟨ret,rfl⟩
  | start =>
    refine .inr ⟨_,by rw [State.runStep, hpc],?_⟩
    simp only [left, State.goto, hpc]
    split <;> rename_i heq <;> split at heq <;> cases heq <;> omega
  | doneAlloc =>
    cases he : x.event with
    | none =>
      refine .inr ⟨_,by simp only [State.runStep, hpc, he]; rfl,?_⟩
      simp only [left, State.goto, hpc]
      omega
    | some e =>
      refine .inr ⟨_,by simp only [State.runStep, hpc, he, if_pos (hx e he)]; rfl,?_⟩
      simp only [left, State.goto, hpc]
      omega
  | doneCreate =>
    by_cases hok : x.ok = true
    · refine .inr ⟨_,by simp only [State.runStep, hpc, if_pos hok]; rfl,?_⟩
      simp only [left, State.goto, hpc]
      omega
    · refine .inr ⟨_,by simp only [State.runStep, hpc, if_neg hok]; rfl,?_⟩
      simp only [left, State.goto, hpc]
      omega
  | doneApply =>
    cases hu : s.apply checkLevel call x.ok with
    | some u =>
      refine .inr ⟨_,by simp only [State.runStep, hpc, hu]; rfl,?_⟩
      simp only [left, State.goto, hpc]
      omega
    | none =>
      refine .inr ⟨_,by simp only [State.runStep, hpc, hu]; rfl,?_⟩
      simp only [left, State.goto, hpc]
      omega
  | doneUndo | errDelete =>
    refine .inr ⟨_,by simp only [State.runStep, hpc]; rfl,?_⟩
    simp only [left, State.goto, hpc]
    omega
  | alloc i =>
    rw [hpc] at ha
    obtain ⟨-,-,-,-,rfl,hle,-⟩ := ha
    by_cases hlt : s.copies.length + 1 < call.thrMask.count
    · cases he : x.event with
      | none =>
        refine .inr ⟨_,by simp only [State.runStep, hpc, if_pos hlt, he]; rfl,?_⟩
        simp only [left, State.goto, hpc]
        have halloc := hl.allocCount
        omega
      | some e =>
        refine .inr ⟨_,by simp only [State.runStep, hpc, if_pos hlt, he, if_pos (hx e he)]; rfl,?_⟩
        simp only [left, State.goto, hpc]
        omega
    · refine .inr ⟨_,by simp only [State.runStep, hpc, if_neg hlt]; rfl,?_⟩
      simp only [left, State.goto, hpc]
      omega
  | send thr =>
    rw [hpc] at ha
    obtain ⟨-,hall,-,hwalked⟩ := ha
    cases thr with
    | none =>
      refine .inr ⟨_,by simp only [State.runStep, hpc]; rfl,?_⟩
      simp only [left, State.goto, hpc]
      omega
    | some thr =>
      have hcount := hwalked.lt hl
      have hlen := hall.length
      have halloc := hl.allocCount
      have hsent := hl.sentCount
      obtain ⟨e,hmem,-,hevent⟩ := hall.event (k := s.sends.length) (by omega)
      have hstep : s.runStep checkLevel call x = some (if x.ok then
          (s.sendTo thr e call.msg).goto (.send (call.thrMask.next thr))
          else s.goto (.errFree s.sentCount)) := by
        simp only [State.runStep, hpc, hl.sentCount, hevent, hl.contents e hmem, Option.map_some]
      refine .inr ⟨_,hstep,?_⟩
      split
      · simp only [left, State.goto, State.sendTo, hpc]
        omega
      · simp only [left, State.goto, hpc]
        omega
  | errFree i =>
    by_cases hlt : i < s.allocCount
    · refine .inr ⟨_,by simp only [State.runStep, hpc, if_pos hlt]; rfl,?_⟩
      simp only [left, State.goto, hpc]
      omega
    · refine .inr ⟨_,by simp only [State.runStep, hpc, if_neg hlt]; rfl,?_⟩
      simp only [left, State.goto, hpc]
      omega
  | errNotif | errFreeDone num ok =>
    refine .inr ⟨_,by simp only [State.runStep, hpc]; rfl,?_⟩
    simp only [left, State.goto, hpc]
    omega
  | errAbort num =>
    cases hw : s.group.bind (·.emEventGroupAbort) with
    | some w =>
      refine .inr ⟨_,by simp only [State.runStep, hpc, hw]; rfl,?_⟩
      simp only [left, State.goto, hpc]
      omega
    | none =>
      refine .inr ⟨_,by simp only [State.runStep, hpc, hw]; rfl,?_⟩
      simp only [left, State.goto, hpc]
      omega

theorem left_dequeue {w : EgrpCounter} (ht : s.dequeue w.gen = some t) : t.left call = s.left call := by
  rw [State.dequeue] at ht
  split at ht
  · obtain ⟨v,-,rfl⟩ := Option.map_eq_some_iff.1 ht
    rfl
  · cases ht

theorem left_finish {w : EgrpCounter} (ht : s.finish w.gen = some t) : t.left call = s.left call := by
  rw [State.finish] at ht
  split at ht
  · obtain ⟨v,-,rfl⟩ := Option.map_eq_some_iff.1 ht
    rfl
  · cases ht

/-- `send_core_ctrl_events` returns, whatever fails and however fast the copies are handled, and what
it returns accounts for the copies if and only if the mask is not empty. -/
theorem send_core_ctrl_events_accounted (checkLevel : Nat) (call : Call α) :
    (∀ s, (system checkLevel call).Reachable s → ∀ x : Answer, (∀ e ∈ x.event, s.Fresh call e) →
      (∃ ret, s.pc = .returned ret) ∨
        ∃ t, s.step checkLevel call (.run x) = some t ∧ t.left call < s.left call) ∧
    (∀ (s t : State α) (l : Label), s.step checkLevel call l = some t → (∀ x, l ≠ .run x) →
      t.left call = s.left call) ∧
    ∀ (s : State α) (ret : Nat), (system checkLevel call).Reachable s → s.pc = .returned ret →
      (s.Accounted call ret ↔ call.thrMask.threads.Nonempty) := by
  refine ⟨fun s hs x hx => (inv_of_reachable hs).progress hx,fun s t l ht hl => ?_,fun s ret hs hret => ?_⟩
  · cases l with
    | run x => exact absurd rfl (hl x)
    | dequeue =>
      obtain ⟨w,-,ht⟩ := Option.bind_eq_some_iff.1 ht
      exact left_dequeue ht
    | finish =>
      obtain ⟨w,-,ht⟩ := Option.bind_eq_some_iff.1 ht
      exact left_finish ht
  · have hinv := inv_of_reachable hs
    rcases Nat.eq_zero_or_pos call.thrMask.count with hzero | hpos
    · refine iff_of_false (hinv.not_accounted hret hzero) fun hne => ?_
      exact Nat.ne_of_gt (Finset.card_pos.2 hne) hzero
    · exact iff_of_true (hinv.accounted hret hpos) (Finset.card_pos.1 hpos)

private def twoThreads : Call String := ⟨⟨{1,3},by decide⟩,7,"func",0⟩

/-- The second send fails after the first copy has been taken from its queue. -/
private def halfSent : Option (State String) :=
  System.exec (State.step 2 twoThreads) (fun _ _ _ => true) (entered twoThreads)
    [.run {}, .run { event := some 20 }, .run {}, .run {}, .run { event := some 21 }, .run {}, .run {},
      .dequeue, .run { ok := false }, .run {}, .finish, .run {}, .run {}, .run {}, .run {}]

private theorem halfSent_isSome : halfSent.isSome = true := by decide

theorem send_core_ctrl_events_half_sent : ∃ s : State String, s.pc = .returned 1 ∧
    s.Accounted twoThreads 1 := by
  have hpc : (halfSent.get halfSent_isSome).pc = .returned 1 := by decide
  refine ⟨_,hpc,((send_core_ctrl_events_accounted 2 twoThreads).2.2 _ _ ?_ hpc).2 ⟨1,by decide⟩⟩
  exact System.ReachableVia.exec (fun _ _ _ _ => trivial) (.start rfl) (Option.some_get halfSent_isSome).symm

private def noThread : Call String := ⟨⟨∅,by decide⟩,7,"func",0⟩

private def emptyMask : Option (State String) :=
  System.exec (State.step 1 noThread) (fun _ _ _ => true) (entered noThread)
    [.run {}, .run { event := some 20 }, .run {}, .run {}, .run {}]

private theorem emptyMask_isSome : emptyMask.isSome = true := by decide

/-- For an empty mask zero is returned, and the done event has been freed. -/
theorem send_core_ctrl_events_empty : ∃ s : State String, (system 1 noThread).Reachable s ∧
    s.pc = .returned 0 ∧ s.group = none ∧ s.frees = [20] ∧ ¬s.Accounted noThread 0 := by
  have hgroup : (emptyMask.get emptyMask_isSome).group = none := by decide
  refine ⟨emptyMask.get emptyMask_isSome,?_,by decide,hgroup,by decide,fun hacc => ?_⟩
  · exact System.ReachableVia.exec (fun _ _ _ _ => trivial) (.start rfl)
      (Option.some_get emptyMask_isSome).symm
  · obtain ⟨-,-,-,w,hw,-⟩ := hacc.zero_iff.1 rfl
    rw [hgroup] at hw
    cases hw

end State
end EmOdp.InternalEvent
