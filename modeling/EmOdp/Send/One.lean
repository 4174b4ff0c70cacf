import EmOdp.Send.Multi

/-! A single event is sent as an array of one event is, unless the result of the enqueue is
not looked at. -/
namespace EmOdp.Send
open EventState Lib.Batch
variable {γ : Type} {cfg : Config} {core : Core} {q : QueueElem} {res : Results}
  {x : Event γ}

/-- The status as a number of events. -/
def SentOne.num (s : SentOne γ) : Int := if s.stat = .ok then 1 else 0

/-- The event is handed over if the status is `EM_OK`, and otherwise restored. -/
structure SplitsOne (cfg : Config) (x : Event γ) (s : SentOne γ) : Prop where
  sent : s.stat = .ok → s.handed.map (·.hdl) = [x.hdl]
  unsent : s.stat ≠ .ok → s.handed = [] ∧ Restored cfg x s.event

/-- The function behaves as its sibling for an array of one event. -/
def AsOne (cfg : Config) (x : Event γ) (one : Except EvstateError (SentOne γ))
    (multi : Event γ → Except EvstateError (Sent γ)) : Prop :=
  ∃ s, one = .ok s ∧ SplitsOne cfg x s ∧
    ∀ y m, y.table = x.table → multi y = .ok m → m.numSent = s.num

/-- The results of the same queue for one event, by `odp_queue_enq` and
`odp_queue_enq_multi`. -/
structure DocumentedOne (res : Results) : Prop extends Documented res 1 where
  enq : res.enq = 0 ↔ res.enqMulti = 1

private theorem notSent {stat : Status} {y : Event γ} (hstat : stat ≠ .ok)
    (hy : Restored cfg x y) : SplitsOne cfg x ⟨stat,[],y⟩ := ⟨fun h => absurd h hstat,fun _ => ⟨rfl,hy⟩⟩

private theorem allSent {y z : Event γ} (hz : z.hdl = x.hdl) : SplitsOne cfg x ⟨.ok,[z],y⟩ :=
  ⟨fun _ => by simp [hz],fun h => absurd rfl h⟩

private theorem map_eq_ok {α β ε : Type} {r : Except ε α} {f : α → β} {b : β}
    (h : r.map f = .ok b) : ∃ a, f a = b := by
  cases r with
  | error e => cases h
  | ok a => exact ⟨a,Except.ok.inj h⟩

section Destinations

/-- Both checks of the queue fail, or both succeed. -/
theorem rejectedOne {stat : Status} {multi : Event γ → Except EvstateError (Sent γ)}
    (hstat : stat ≠ .ok) (hmulti : ∀ y, y.table = x.table → multi y = .ok ⟨0,[],[y]⟩) :
    AsOne cfg x (.ok ⟨stat,[],x⟩) multi := by
  refine ⟨_,rfl,notSent hstat (.refl x),fun y m hy hm => ?_⟩
  rw [hmulti y hy] at hm
  cases hm
  simp [SentOne.num, hstat]

/-- The multi variants' number for one event. -/
private theorem enqMulti_num (hres : DocumentedOne res) :
    (if res.enqMulti < 0 then 0 else res.enqMulti) = if res.enq = 0 then 1 else 0 := by
  have henq := hres.enq
  have hle := hres.enqMulti
  by_cases hzero : res.enq = 0
  · rw [if_pos hzero, henq.1 hzero]
    rfl
  · have hne : res.enqMulti ≠ 1 := fun h => hzero (henq.2 h)
    rw [if_neg hzero]
    split <;> omega

private theorem enqVectorsMulti_num {y : Event γ} {m : Sent γ} (hres : DocumentedOne res)
    (h : enqVectorsMulti cfg res [y] = .ok m) : m.numSent = if res.enq = 0 then 1 else 0 := by
  simp only [enqVectorsMulti, List.length_singleton] at h
  split at h
  · rename_i hall
    cases h
    rw [if_pos (hres.enq.2 hall)]
    rfl
  · obtain ⟨tbl,rfl⟩ := map_eq_ok h
    exact enqMulti_num hres

theorem enqVector_asOne {checked : Bool} (hesv : cfg.esvEnabled = true) (hres : DocumentedOne res)
    (hread : Readable cfg [x]) (hchecked : checked = true ∨ res.enq = 0) :
    AsOne cfg x (enqVector cfg res x checked) fun y => enqVectorsMulti cfg res [y] := by
  simp only [enqVector]
  by_cases henq : res.enq = 0
  · refine ⟨⟨.ok,[x.tbl2odp],x.tbl2odp⟩,by simp [henq],allSent rfl,fun y m _ hm => ?_⟩
    rw [enqVectorsMulti_num hres hm, if_pos henq]
    rfl
  · obtain ⟨y,hy,hrestored⟩ := tbl2odp_revert hesv (hread x (by simp))
    have hchecked : checked = true := hchecked.resolve_right henq
    refine ⟨⟨.libFailed,[],y⟩,by simp [henq, hchecked, hy, Except.map],notSent nofun hrestored,
      fun y m _ hm => ?_⟩
    rw [enqVectorsMulti_num hres hm, if_neg henq]
    rfl

theorem sendSched_asOne (hres : DocumentedOne res) (hread : Readable cfg [x])
    (hnoticed : 0 < cfg.checkLevel ∨ res.enq = 0) :
    AsOne cfg x (sendSched cfg q res x) fun y => sendSchedMulti cfg q res [y] := by
  have hnum := enqMulti_num hres
  simp only [sendSched, sendSchedMulti]
  split
  · exact rejectedOne (by decide) fun _ _ => rfl
  split
  · exact rejectedOne (by decide) fun _ _ => rfl
  split
  · exact enqVector_asOne ‹_› hres hread (by simpa using hnoticed)
  by_cases hzero : res.enq = 0
  · refine ⟨⟨.ok,[x],x⟩,by simp [hzero],allSent rfl,fun y m _ hm => ?_⟩
    have hone := hres.enq.1 hzero
    simp only [List.length_singleton, hone, Nat.cast_one, if_true] at hm
    cases hm
    rfl
  · refine ⟨⟨.libFailed,[],x⟩,by simp [hzero, hnoticed.resolve_right hzero],notSent (by decide) (.refl x),
      fun y m _ hm => ?_⟩
    have hone : ¬res.enqMulti = 1 := fun h => hzero (hres.enq.2 h)
    simp only [List.length_singleton, Nat.cast_one, hone, if_false] at hm
    cases hm
    rw [if_neg hzero] at hnum
    exact hnum

theorem queueUnschedEnqueue_asOne (hres : DocumentedOne res) (hread : Readable cfg [x]) :
    AsOne cfg x (queueUnschedEnqueue cfg q res x) fun y => queueUnschedEnqueueMulti cfg q res [y] := by
  have hnum := enqMulti_num hres
  simp only [queueUnschedEnqueue, queueUnschedEnqueueMulti]
  split
  · exact rejectedOne (by decide) fun _ _ => rfl
  split
  · exact rejectedOne (by decide) fun _ _ => rfl
  split
  · rename_i hvectors
    rw [Bool.and_eq_true] at hvectors
    exact enqVector_asOne hvectors.1 hres hread (.inl rfl)
  split
  · rename_i hzero
    rw [if_neg hzero] at hnum
    refine ⟨_,rfl,notSent (by decide) (.refl x),fun y m _ hm => ?_⟩
    cases hm
    exact hnum
  · rename_i hzero
    rw [if_pos (not_not.1 hzero)] at hnum
    refine ⟨_,rfl,allSent rfl,fun y m _ hm => ?_⟩
    cases hm
    exact hnum

theorem sendLocal_asOne (hres : DocumentedOne res) :
    AsOne cfg x (sendLocal cfg q res x) fun y => sendLocalMulti cfg q res [y] := by
  have hle : res.put ≤ 1 := hres.put
  simp only [sendLocal, sendLocalMulti]
  split
  · exact rejectedOne (by decide) fun _ _ => rfl
  split
  · rename_i hone
    refine ⟨_,rfl,allSent rfl,fun y m _ hm => ?_⟩
    cases hm
    simp only [hone]
    rfl
  · refine ⟨_,rfl,notSent (by decide) (.refl x),fun y m _ hm => ?_⟩
    cases hm
    dsimp only
    rw [if_neg (by omega)]
    rfl

theorem eoStartBufferEvent_asOne (hres : DocumentedOne res) :
    AsOne cfg x (.ok (eoStartBufferEvent res x)) fun y => .ok (eoStartBufferEvents res [y]) := by
  have hle : res.put ≤ 1 := hres.put
  simp only [eoStartBufferEvent, eoStartBufferEvents]
  split
  · rename_i hone
    refine ⟨_,rfl,allSent rfl,fun y m _ hm => ?_⟩
    cases hm
    simp only [hone]
    rfl
  · have hnone : res.put.toNat = 0 := by omega
    rw [hnone]
    refine ⟨_,rfl,notSent nofun (.refl x),fun y m _ hm => ?_⟩
    cases hm
    have hnum : (if res.put < 0 then 0 else res.put) = 0 := by split <;> omega
    exact hnum

private theorem sendAggrMulti_num {y : Event γ} {m : Sent γ} (hres : DocumentedOne res)
    (hodp : ¬(1 < cfg.checkLevel ∧ !q.odpQueue))
    (hstate : ¬(0 < cfg.checkLevel ∧ q.state ≠ .ready ∧ q.state ≠ .unscheduled))
    (hvector : ¬(3 ≤ cfg.checkLevel ∧ y.table.isSome = true))
    (h : sendAggrMulti cfg q res [y] = .ok m) : m.numSent = if res.enq = 0 then 1 else 0 := by
  simp only [sendAggrMulti, if_neg hodp, if_neg hstate, List.any_cons, List.any_nil, Bool.or_false,
    if_neg hvector] at h
  cases hesv : cfg.esvEnabled <;>
    simp only [hesv, Bool.false_eq_true, if_false, if_true, List.length_map, List.length_singleton] at h
  · split at h
    · rename_i hall
      cases h
      rw [if_pos (hres.enq.2 hall)]
      rfl
    · cases h
      exact enqMulti_num hres
  · split at h
    · rename_i hall
      cases h
      rw [if_pos (hres.enq.2 hall)]
      rfl
    · obtain ⟨tbl,rfl⟩ := map_eq_ok h
      exact enqMulti_num hres

theorem sendAggr_asOne (hres : DocumentedOne res) :
    AsOne cfg x (sendAggr cfg q res x) fun y => sendAggrMulti cfg q res [y] := by
  by_cases hodp : 1 < cfg.checkLevel ∧ !q.odpQueue
  · simp only [sendAggr, sendAggrMulti, if_pos hodp]
    exact rejectedOne (by decide) fun _ _ => rfl
  by_cases hstate : 0 < cfg.checkLevel ∧ q.state ≠ .ready ∧ q.state ≠ .unscheduled
  · simp only [sendAggr, sendAggrMulti, if_neg hodp, if_pos hstate]
    exact rejectedOne (by decide) fun _ _ => rfl
  by_cases hvector : 3 ≤ cfg.checkLevel ∧ x.table.isSome = true
  · simp only [sendAggr, sendAggrMulti, if_neg hodp, if_neg hstate, if_pos hvector, List.any_cons,
      List.any_nil, Bool.or_false]
    exact rejectedOne (by decide) fun y hy => if_pos (by rwa [hy])
  have hmulti : ∀ (y : Event γ) (m : Sent γ), y.table = x.table → sendAggrMulti cfg q res [y] = .ok m →
      m.numSent = if res.enq = 0 then 1 else 0 := fun y m hy hm =>
    sendAggrMulti_num hres hodp hstate (by rwa [hy]) hm
  simp only [sendAggr, if_neg hodp, if_neg hstate, if_neg hvector]
  split
  · rename_i hzero
    refine ⟨_,rfl,notSent (by decide) ?_,fun y m hy hm => ?_⟩
    · split
      · exact setAggrSent_restored x
      · exact .refl x
    · rw [hmulti y m hy hm, if_neg hzero]
      rfl
  · rename_i hzero
    refine ⟨_,rfl,allSent ?_,fun y m hy hm => ?_⟩
    · split
      · simp only [Event.setAggrSent]
        split <;> rfl
      · rfl
    · rw [hmulti y m hy hm, if_pos (not_not.1 hzero)]
      rfl

theorem sendType_asOne (hres : DocumentedOne res) (hread : Readable cfg [x])
    (hnoticed : q.type = .atomic ∨ q.type = .parallel ∨ q.type = .parallelOrdered →
      0 < cfg.checkLevel ∨ res.enq = 0) :
    AsOne cfg x (sendType cfg q res x) fun y => sendTypeMulti cfg q res [y] := by
  cases htype : q.type <;> simp only [htype, sendType, sendTypeMulti]
  · exact sendSched_asOne hres hread (hnoticed (by simp [htype]))
  · exact sendSched_asOne hres hread (hnoticed (by simp [htype]))
  · exact sendSched_asOne hres hread (hnoticed (by simp [htype]))
  · exact queueUnschedEnqueue_asOne hres hread
  · exact sendAggr_asOne hres
  · exact sendLocal_asOne hres
  · exact rejectedOne (by decide) fun _ _ => rfl
  · exact rejectedOne (by decide) fun _ _ => rfl

end Destinations

private theorem evstateUsr2em_table {v : Variant} {y : Event γ}
    (h : x.evstateUsr2em cfg v = .ok y) : y.table = x.table := by
  simp only [Event.evstateUsr2em] at h
  split at h
  · obtain ⟨hdr,rfl⟩ := map_eq_ok h
    rfl
  · cases h
    rfl

/-- Marking and unmarking an array of one event leaves the number that was sent. -/
private theorem markedSendMulti_num {send : List (Event γ) → Except EvstateError (Sent γ)}
    {y : Event γ} {m : Sent γ} (h : markedSendMulti cfg [y] send = .ok m) :
    ∃ z m', z.table = y.table ∧ send [z] = .ok m' ∧ m.numSent = m'.numSent := by
  simp only [markedSendMulti, List.mapM_cons, List.mapM_nil, bind, pure, Except.pure, Except.bind] at h
  cases hmark : y.evstateUsr2em cfg .multi with
  | error e =>
    rw [hmark] at h
    cases h
  | ok z =>
    cases hsend : send [z] with
    | error e =>
      simp only [hmark, hsend] at h
      cases h
    | ok m' =>
      simp only [hmark, hsend, revertUnsent] at h
      refine ⟨z,m',evstateUsr2em_table hmark,hsend,?_⟩
      split at h
      · obtain ⟨tbl,rfl⟩ := map_eq_ok h
        rfl
      · cases h
        rfl

theorem markedSend_asOne {send : Event γ → Except EvstateError (SentOne γ)}
    {sendMulti : List (Event γ) → Except EvstateError (Sent γ)} (hheld : Held cfg x)
    (hsend : ∀ y, Readable cfg [y] → AsOne cfg y (send y) fun z => sendMulti [z]) :
    AsOne cfg x (markedSend cfg x send) fun z => markedSendMulti cfg [z] sendMulti := by
  obtain ⟨y,hmark,hmarked⟩ := hheld.mark .single
  have hread : Readable cfg [y] := by
    intro z hz table htable
    rw [List.mem_singleton.1 hz, hmarked.table] at htable
    exact hheld.table table htable
  obtain ⟨s,hs,hsplit,hnum⟩ := hsend y hread
  have hmulti : ∀ (z : Event γ) (m : Sent γ), z.table = x.table →
      markedSendMulti cfg [z] sendMulti = .ok m → m.numSent = s.num := by
    intro z m hz hm
    obtain ⟨z',m',hz',hm',heq⟩ := markedSendMulti_num hm
    rw [heq]
    exact hnum z' m' (hz'.trans (hz.trans hmarked.table.symm)) hm'
  by_cases hstat : s.stat = .ok
  · refine ⟨s,?_,⟨fun h => ?_,fun h => absurd hstat h⟩,hmulti⟩
    · simp only [markedSend, hmark, bind, Except.bind, hs, hstat, if_true]
      rfl
    · rw [hsplit.sent h, hmarked.hdl]
  · obtain ⟨hhanded,hrestored⟩ := hsplit.unsent hstat
    obtain ⟨w,hw,hxw⟩ := hmarked.unmark hrestored .single
    refine ⟨{ s with event := w },?_,⟨fun h => absurd h hstat,fun _ => ⟨hhanded,hxw⟩⟩,hmulti⟩
    simp only [markedSend, hmark, bind, Except.bind, hs, hstat, if_false, hw]
    rfl

section Api

/-- `send_sched` does not look at the result of the enqueue. -/
def Unnoticed (cfg : Config) (core : Core) (q : QueueElem) (res : Results) : Prop :=
  cfg.checkLevel = 0 ∧ (core.startEo && q.scheduled) = false ∧
    (q.type = .atomic ∨ q.type = .parallel ∨ q.type = .parallelOrdered) ∧ res.enq ≠ 0

instance : Decidable (Unnoticed cfg core q res) := inferInstanceAs (Decidable (_ ∧ _ ∧ _ ∧ _))

theorem noticed (h : ¬Unnoticed cfg core q res)
    (hstart : ¬(core.startEo && q.scheduled) = true) :
    q.type = .atomic ∨ q.type = .parallel ∨ q.type = .parallelOrdered →
      0 < cfg.checkLevel ∨ res.enq = 0 := by
  intro htype
  by_contra hno
  rw [not_or] at hno
  exact h ⟨by omega,Bool.eq_false_iff.2 hstart,htype,hno.2⟩

/-- The failed enqueue is reported as a success. -/
theorem unnoticed_markedSend (h : Unnoticed cfg core q res) (hheld : Held cfg x) :
    ∃ s, markedSend cfg x (sendType cfg q res) = .ok s ∧ s.stat = .ok ∧ s.handed = [] := by
  obtain ⟨hlevel,-,htype,henq⟩ := h
  obtain ⟨y,hmark,-⟩ := hheld.mark .single
  have hsched : ∃ z, sendSched cfg q res y = .ok ⟨.ok,[],z⟩ := by
    simp only [sendSched, enqVector, hlevel, henq, Nat.not_lt_zero, false_and, if_false, ne_eq,
      not_false_eq_true, decide_false, Bool.false_eq_true]
    split
    · exact ⟨_,rfl⟩
    · exact ⟨_,rfl⟩
  have htypeSend : sendType cfg q res y = sendSched cfg q res y := by
    rcases htype with htype | htype | htype <;> simp only [sendType, htype]
  obtain ⟨z,hz⟩ := hsched
  refine ⟨⟨.ok,[],z⟩,?_,rfl,rfl⟩
  simp only [markedSend, hmark, bind, Except.bind, htypeSend, hz, if_true]
  rfl

theorem sendInternal_asOne (hres : DocumentedOne res) (hheld : Held cfg x)
    (hnoticed : ¬Unnoticed cfg core q res)
    (hout : CallsOutputFn cfg core q → 0 ≤ res.outputFn ∧ res.outputFn ≤ 1) :
    AsOne cfg x (sendInternal cfg core q res x) fun y => sendInternalMulti cfg core q res [y] := by
  simp only [sendInternal, sendInternalMulti]
  split
  · exact rejectedOne (by decide) fun _ _ => rfl
  rename_i hallocated
  split
  · exact markedSend_asOne hheld fun y _ => eoStartBufferEvent_asOne hres
  rename_i hstart
  split
  swap
  · exact markedSend_asOne hheld fun y hread => sendType_asOne hres hread (noticed hnoticed hstart)
  rename_i htype
  simp only [sendOutput, sendOutputMulti]
  split
  · exact rejectedOne (by decide) fun _ _ => rfl
  rename_i hstate
  split
  · split
    · exact rejectedOne (by decide) fun _ _ => rfl
    have henq := hres.enq
    have hle : res.enqMulti ≤ 1 := hres.enqMulti
    split
    · refine ⟨_,rfl,notSent (by decide) (.refl x),fun y m _ hm => ?_⟩
      cases hm
      exact if_pos (by omega)
    · refine ⟨_,rfl,allSent rfl,fun y m _ hm => ?_⟩
      cases hm
      have hone : res.enqMulti = 1 := by omega
      simp only [hone]
      rfl
  · rename_i hordered
    have hcall := callsOutputFn_of_checks hallocated hstart htype hstate hordered
    obtain ⟨hnonneg,hle⟩ := hout hcall
    by_cases hone : res.outputFn = 1
    · refine ⟨⟨.ok,[x],x⟩,by simp [hone],allSent rfl,fun y m _ hm => ?_⟩
      cases hm
      exact hone
    · have hzero : res.outputFn = 0 := by omega
      refine ⟨⟨.operationFailed,[],x⟩,by simp [hzero],notSent (by decide) (.refl x),fun y m _ hm => ?_⟩
      cases hm
      exact hzero

/-- A result that is no number of events is passed on, the status is an error. -/
theorem callsOutputFn_num (hcall : CallsOutputFn cfg core q) :
    ∃ s m, sendInternal cfg core q res x = .ok s ∧ sendInternalMulti cfg core q res [x] = .ok m ∧
      (m.numSent = s.num → 0 ≤ res.outputFn ∧ res.outputFn ≤ 1) := by
  obtain ⟨hallocated,hstart,htype,hstate,hordered⟩ := hcall
  have hallocated' : ¬(2 ≤ cfg.checkLevel ∧ !q.allocated) := by
    rintro ⟨hlevel,hno⟩
    rw [hallocated hlevel] at hno
    cases hno
  have hstate' : ¬(0 < cfg.checkLevel ∧ q.state ≠ .unscheduled) := fun h => h.2 (hstate h.1)
  simp only [sendInternal, sendInternalMulti, if_neg hallocated', hstart, Bool.false_eq_true,
    if_false, htype, if_true, sendOutput, sendOutputMulti, if_neg hstate', hordered]
  refine ⟨_,_,rfl,rfl,?_⟩
  simp only [SentOne.num]
  split <;> split <;> intro h <;> simp_all

/-- The two functions run on an event whose header was written before. -/
theorem AsOne.run {y z : Event γ} {one : Except EvstateError (SentOne γ)}
    {multi : Event γ → Except EvstateError (Sent γ)} (h : AsOne cfg y one multi)
    (hy : Restored cfg x y) (hz : z.table = y.table) (hm : ∃ m, multi z = .ok m) :
    ∃ s m, one = .ok s ∧ multi z = .ok m ∧ m.numSent = s.num ∧ SplitsOne cfg x s := by
  obtain ⟨s,hs,hsplit,hnum⟩ := h
  obtain ⟨m,hm⟩ := hm
  refine ⟨s,m,hs,hm,hnum z m hz hm,fun hstat => ?_,fun hstat => ?_⟩
  · rw [hsplit.sent hstat, hy.hdl]
  · obtain ⟨hhanded,hrestored⟩ := hsplit.unsent hstat
    exact ⟨hhanded,hy.trans hrestored⟩

end Api

end EmOdp.Send
