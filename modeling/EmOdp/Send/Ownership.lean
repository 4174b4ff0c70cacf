import EmOdp.Send.One

/-! Who owns the events after a send: the destination has the ones that the result counts,
the caller has the others back as they were. -/
namespace EmOdp.Send
open EventState EvstateCnt
variable {γ : Type} {cfg : Config} {core : Core} {q : QueueElem} {res : Results}
  {x : Event γ} {xs : List (Event γ)}

/-- `numSent` events were handed over, the caller may send or free the others. -/
def SendsPrefix (cfg : Config) (xs : List (Event γ)) (s : Sent γ) : Prop :=
  Splits cfg xs s ∧ ∀ y ∈ s.tbl.drop s.numSent.toNat, Reusable cfg y

/-- As the sibling for arrays does with one event. -/
def SendsAsOne (cfg : Config) (x : Event γ) (s : SentOne γ) (m : Sent γ) : Prop :=
  m.numSent = s.num ∧ SplitsOne cfg x s ∧ (s.stat ≠ .ok → Reusable cfg s.event)

theorem sendsPrefix_iff (hheld : ∀ x ∈ xs, Held cfg x) (s : Sent γ) :
    SendsPrefix cfg xs s ↔ Splits cfg xs s := by
  refine ⟨fun h => h.1,fun h => ⟨h,fun y hy => ?_⟩⟩
  obtain ⟨i,hi,rfl⟩ := List.getElem_of_mem hy
  have hkept := (List.forall₂_iff_get.1 h.kept).2 i (h.kept.length_eq ▸ hi) hi
  exact (hkept.held (hheld _ (List.mem_of_mem_drop (List.get_mem _ _)))).reusable

theorem sendsAsOne_iff (hheld : Held cfg x) (s : SentOne γ) (m : Sent γ) :
    SendsAsOne cfg x s m ↔ m.numSent = s.num ∧ SplitsOne cfg x s := by
  refine ⟨fun h => ⟨h.1,h.2.1⟩,fun h => ⟨h.1,h.2,fun hstat => ?_⟩⟩
  exact ((h.2.unsent hstat).2.held hheld).reusable

private theorem not_splitsOne {s : SentOne γ} (hstat : s.stat = .ok) (hhanded : s.handed = []) :
    ¬SplitsOne cfg x s := by
  intro h
  have hsent := h.sent hstat
  rw [hhanded] at hsent
  cases hsent

theorem emSend_asOne_iff (hres : DocumentedOne res) (hheld : Held cfg x) :
    ∃ s m, emSend cfg core q res x = .ok s ∧ emSendMulti cfg core q res [x] = .ok m ∧
      (m.numSent = s.num ∧ SplitsOne cfg x s ↔ ¬Unnoticed cfg core q res ∧
        (PassedOut cfg core q [x] → 0 ≤ res.outputFn ∧ res.outputFn ≤ 1)) := by
  by_cases htimer : 0 < cfg.checkLevel ∧ x.timerInd = true
  · refine ⟨⟨.badArg,[],x⟩,⟨0,[],[x]⟩,by simp only [emSend, if_pos htimer],?_,
      iff_of_true ⟨rfl,nofun,fun _ => ⟨rfl,.refl x⟩⟩ ⟨fun h => ?_,fun h => ?_⟩⟩
    · simp [emSendMulti, htimer.1, htimer.2]
    · have hlevel := h.1
      omega
    · have hno := h.2 htimer.1 x (by simp)
      rw [htimer.2] at hno
      cases hno
  have hone : emSend cfg core q res x = sendInternal cfg core q res { x with egrp := none } := by
    simp only [emSend, if_neg htimer]
  have hmulti : emSendMulti cfg core q res [x] =
      sendInternalMulti cfg core q res [{ x with egrp := none }] := by
    by_cases hlevel : 0 < cfg.checkLevel
    · have htimer' : x.timerInd = false := Bool.eq_false_iff.2 fun h => htimer ⟨hlevel,h⟩
      simp [emSendMulti, hlevel, htimer']
    · simp [emSendMulti, hlevel]
  have huntag : Restored cfg x { x with egrp := none } := ⟨rfl,rfl,rfl,rfl,.inl rfl,rfl⟩
  have hheld' := huntag.held hheld
  obtain ⟨m,hm,-⟩ := @sendInternalMulti_splits γ cfg core q res [{ x with egrp := none }]
    hres.toDocumented fun y hy => by
      rw [List.mem_singleton.1 hy]
      exact hheld'
  rw [hone, hmulti]
  by_cases hunnoticed : Unnoticed cfg core q res
  · obtain ⟨s,hs,hstat,hhanded⟩ := unnoticed_markedSend hunnoticed hheld'
    refine ⟨s,m,?_,hm,iff_of_false (fun h => not_splitsOne hstat hhanded h.2) fun h => h.1 hunnoticed⟩
    obtain ⟨hlevel,hstart,htype,-⟩ := hunnoticed
    have hne : q.type ≠ .output := by rcases htype with h | h | h <;> simp [h]
    have hlevel' : ¬(2 ≤ cfg.checkLevel ∧ !q.allocated) := fun h => by
      rw [hlevel] at h
      exact absurd h.1 (by decide)
    simp only [sendInternal, if_neg hlevel', hstart, Bool.false_eq_true, if_false, if_neg hne, hs]
  by_cases hout : CallsOutputFn cfg core q → 0 ≤ res.outputFn ∧ res.outputFn ≤ 1
  · obtain ⟨s,m,hs,hm,hsplit⟩ := (sendInternal_asOne hres hheld' hunnoticed hout).run huntag rfl ⟨m,hm⟩
    exact ⟨s,m,hs,hm,iff_of_true hsplit ⟨hunnoticed,fun h => hout h.1⟩⟩
  · rw [Classical.not_imp] at hout
    obtain ⟨s,m',hs,hm',hnum⟩ := @callsOutputFn_num γ cfg core q res { x with egrp := none } hout.1
    refine ⟨s,m',hs,hm',iff_of_false (fun h => hout.2 (hnum h.1)) fun h => hout.2 (h.2 ⟨hout.1,?_⟩)⟩
    intro hlevel y hy
    rw [List.mem_singleton.1 hy]
    exact Bool.eq_false_iff.2 fun h => htimer ⟨hlevel,h⟩

private theorem rejected_iff {stat : Status} {y : Event γ} {tbl : List (Event γ)}
    (hstat : stat ≠ .ok) (hy : Restored cfg x y) (hlevel : 0 < cfg.checkLevel) :
    ((⟨0,[],tbl⟩ : Sent γ).numSent = (⟨stat,[],y⟩ : SentOne γ).num ∧ SplitsOne cfg x ⟨stat,[],y⟩ ↔
      ¬Unnoticed cfg core q res) := by
  refine iff_of_true ⟨?_,fun h => absurd h hstat,fun _ => ⟨rfl,hy⟩⟩ fun h => ?_
  · simp [SentOne.num, hstat]
  · have hzero := h.1
    omega

theorem emSendGroup_asOne_iff {eventGroup : Option γ} {egrpElem : Option (EgrpElem γ)}
    (hres : DocumentedOne res) (hheld : Held cfg x) :
    ∃ s m, emSendGroup cfg core q res x eventGroup egrpElem = .ok s ∧
      emSendGroupMulti cfg core q res [x] eventGroup egrpElem = .ok m ∧
      (m.numSent = s.num ∧ SplitsOne cfg x s ↔ ¬Unnoticed cfg core q res) := by
  simp only [emSendGroup, emSendGroupMulti, List.any_cons, List.any_nil, Bool.or_false,
    List.map_cons, List.map_nil, reduceCtorEq, false_or]
  split
  · exact ⟨_,_,rfl,rfl,rejected_iff (by decide) (.refl x) (by omega)⟩
  split
  · exact ⟨_,_,rfl,rfl,rejected_iff (by decide) (.refl x) (by omega)⟩
  split
  · exact ⟨_,_,rfl,rfl,rejected_iff (by decide) (.refl x) (by omega)⟩
  split
  · exact ⟨_,_,rfl,rfl,rejected_iff (by decide) (.refl x) (by omega)⟩
  have htag : Restored cfg x (x.egrpTag egrpElem) := by
    simp only [Event.egrpTag]
    split <;> exact ⟨rfl,rfl,rfl,rfl,.inl rfl,rfl⟩
  have htable : ∀ z : Event γ, (z.egrpTagMulti eventGroup egrpElem).table = z.table := by
    intro z
    simp only [Event.egrpTagMulti]
    split <;> rfl
  have htable' : (x.egrpTag egrpElem).table = x.table := by
    simp only [Event.egrpTag]
    split <;> rfl
  split
  · exact ⟨_,_,rfl,rfl,rejected_iff (by decide) htag (by omega)⟩
  split
  · exact ⟨_,_,rfl,rfl,rejected_iff (by decide) htag (by omega)⟩
  have hheld' := htag.held hheld
  have hheldMulti : ∀ y ∈ [x.egrpTagMulti eventGroup egrpElem], Held cfg y := by
    intro y hy
    rw [List.mem_singleton.1 hy]
    have htagMulti : Restored cfg x (x.egrpTagMulti eventGroup egrpElem) := by
      simp only [Event.egrpTagMulti]
      split <;> exact ⟨rfl,rfl,rfl,rfl,.inl rfl,rfl⟩
    exact htagMulti.held hheld
  have htagged := (htable x).trans htable'.symm
  split
  · rename_i hstart
    have hnoticed : ¬Unnoticed cfg core q res := fun h => by
      rw [h.2.1] at hstart
      cases hstart
    obtain ⟨m,hm,-⟩ := markedSendMulti_splits hheldMulti fun ys hlen _ =>
      ⟨_,rfl,eoStartBufferEvents_splits (by rw [hlen]; exact hres.toDocumented)⟩
    obtain ⟨s,m,hs,hm,hsplit⟩ := (markedSend_asOne hheld' fun y _ =>
      eoStartBufferEvent_asOne hres).run htag htagged ⟨m,hm⟩
    exact ⟨s,m,hs,hm,iff_of_true hsplit hnoticed⟩
  rename_i hstart
  obtain ⟨m,hm,-⟩ := markedSendMulti_splits hheldMulti fun ys hlen hread =>
    sendTypeMulti_splits (q := q) (by rw [hlen]; exact hres.toDocumented) hread
  by_cases hunnoticed : Unnoticed cfg core q res
  · obtain ⟨s,hs,hstat,hhanded⟩ := unnoticed_markedSend hunnoticed hheld'
    exact ⟨s,m,hs,hm,iff_of_false (fun h => not_splitsOne hstat hhanded h.2) fun h => h hunnoticed⟩
  · obtain ⟨s,m,hs,hm,hsplit⟩ := (markedSend_asOne hheld' fun y hread =>
      sendType_asOne hres hread (noticed hunnoticed hstart)).run htag htagged ⟨m,hm⟩
    exact ⟨s,m,hs,hm,iff_of_true hsplit hunnoticed⟩

private def level1 : Config := ⟨1,true,false⟩
private def scheduledQueue : QueueElem := ⟨.atomic,.ready,true,true,false,true⟩
private def receiving : Core := ⟨false,false⟩

/-- A new event, not a vector. -/
private def allocated (evptr : BitVec 48) : Event Unit where
  hdl := ⟨evptr,evgenInit⟩
  hdr := ⟨⟨evptr,evgenInit⟩,encode (gen 0) 0 1,false,false⟩
  timerInd := false
  hasRef := false
  aggrSent := false
  egrp := none
  egrpGen := 0
  table := none

/-- A vector with one event, whose table holds a current handle. -/
private def vectorEvent (evptr : BitVec 48) : Event Unit :=
  { allocated evptr with
    table := some [⟨⟨evptr+1,evgenInit⟩,.buffer,
      ⟨⟨evptr+1,evgenInit⟩,encode (gen 0) 0 1,false,false⟩,true,true⟩] }

private theorem counts_allocated (evptr : BitVec 48) :
    Counts (allocated evptr).hdl (allocated evptr).hdr 0 0 1 :=
  ⟨rfl,by decide,by decide,by decide,fun _ => rfl⟩

private theorem held_allocated (evptr : BitVec 48) : Held level1 (allocated evptr) :=
  ⟨fun _ _ => ⟨0,0,1,counts_allocated evptr⟩,nofun⟩

private theorem held_vectorEvent (evptr : BitVec 48) : Held level1 (vectorEvent evptr) := by
  refine ⟨fun _ _ => ⟨0,0,1,counts_allocated evptr⟩,fun table htable => ?_⟩
  cases htable
  exact ⟨_,rfl⟩

private theorem of_toOption {α β ε : Type} {r : Except ε α} {f : α → β} {b : β}
    (h : r.toOption.map f = some b) : ∃ a, r = .ok a ∧ f a = b := by
  cases r with
  | error e => cases h
  | ok a => exact ⟨a,rfl,Option.some.inj h⟩

private def outputQueue : QueueElem := ⟨.output,.unscheduled,true,false,false,true⟩

end EmOdp.Send
