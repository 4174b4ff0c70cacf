import EmOdp.QueueGroup.OperationPhases

/-! The start of an operation: what is done at once and what is requested of other cores. -/
namespace EmOdp.QueueGroup.Operation
open Lib
variable {ι : Type} [DecidableEq ι] {m : CoreMap ι} {s t : State ι} {c d : ι}

/-- An operation that has to send no request. -/
private theorem settled_start {kind : Kind} {mask : Finset ι} (h : Settled s) (hidle : Idle s)
    (ha : s.accepts m kind mask = true) (hdel : kind.deletes = true → mask = ∅)
    (hreqs : s.requests m c kind mask = []) : Settled (s.start m c kind mask) := by
  have hG : (s.update c kind mask).schedGroup = mask := by
    ext d
    exact mem_update (m := m) (oldGroup_eq h ha) (by simp [hreqs])
  obtain ⟨u,hu,hlive,hjoined,hongoing,hcalls,hprog,hctrl,hshared⟩ :
      ∃ u, u = (if kind.deletes then (s.update c kind mask).qGrpDeleteDone
          else s.update c kind mask) ∧
        (u.allocated = true → u.schedGroup = u.coreMask) ∧ u.schedGroup = mask ∧
        u.ongoingDelete = false ∧ u.calls = s.calls ∧ u.inProgress = s.inProgress ∧
        u.ctrlQueue = s.ctrlQueue ∧ u.sharedQueue = s.sharedQueue := by
    refine ⟨_,rfl,?_⟩
    split
    · exact ⟨nofun,(hdel ‹_›).symm,rfl,rfl,rfl,rfl,rfl⟩
    · exact ⟨fun _ => hG,hG,h.ongoingDelete,rfl,rfl,rfl,rfl⟩
  simp only [State.start, if_pos hreqs, ← hu]
  split
  · refine ⟨hongoing,hlive,fun c' op hop => ?_,fun c' => ?_,fun c' => ?_,?_⟩
    · by_cases hc : c' = c
      · subst hc
        simp [hcalls, hidle.calls] at hop
        subst hop
        exact ⟨rfl,fun _ => hjoined⟩
      · simp [Function.update_of_ne hc, hcalls, hidle.calls] at hop
    · by_cases hc : c' = c
      · subst hc
        simp [hprog, h.inProgress]
      · simp [Function.update_of_ne hc, hprog, h.inProgress]
    · simp [hctrl, h.ctrlQueue]
    · simp [hshared, h.sharedQueue]
  · refine ⟨hongoing,hlive,fun c' op hop => ?_,fun c' => ?_,fun c' => ?_,?_⟩
    · simp [hcalls, hidle.calls] at hop
    · simp [hprog, h.inProgress]
    · simp [hctrl, h.ctrlQueue]
    · simp [hshared, h.sharedQueue]

/-- An operation that has to send requests. -/
private theorem requested_start {kind : Kind} {mask : Finset ι} (h : Settled s) (hidle : Idle s)
    (ha : s.accepts m kind mask = true) (hdel : kind.deletes = true → mask = ∅)
    (hk : Counts kind) (hreqs : s.requests m c kind mask ≠ []) :
    Requested (s.start m c kind mask) c
      { kind, newMask := mask, evgrp := s.fresh, unsent := s.requests m c kind mask } ∅ := by
  simp only [State.start, if_neg hreqs]
  refine {
    only := ⟨hk,.inl ?_,fun d hd => ?_,fun d => ?_,rfl,hdel⟩
    coreMask := rfl
    evgrp := by simp [State.update]
    left := by simpa using hreqs
    ctrlQueue := fun d => by simp [State.update, queuedReqs, h.ctrlQueue]
    sharedQueue := h.sharedQueue
    nodup := nodup_requests
    unsent := fun d req hm => ⟨reqFor_of_mem_requests hm,Finset.notMem_empty d⟩
    settled := fun d _ hd => mem_update (oldGroup_eq h ha) hd }
  · simp [State.update, hidle.calls]
  · simp [State.update, Function.update_of_ne hd, hidle.calls]
  · by_cases hd : d = c
    · subst hd
      simp [State.update, h.inProgress]
    · simp [State.update, h.inProgress, hd]

theorem Requested.not_idle {op : Op ι} {queued : Finset ι} (h : Requested s c op queued) :
    ¬Idle s := fun hidle => by
  by_cases hu : op.unsent = []
  · have hq : queued.card ≠ 0 := by simpa [hu] using h.left
    obtain ⟨d,hd⟩ := Finset.card_ne_zero.1 hq
    have := h.ctrlQueue d
    simp [hidle.ctrlQueue, queuedReqs, hd] at this
  · rcases h.only.calls with hc | ⟨-,hnil,-⟩
    · simp [hidle.calls] at hc
    · exact hu hnil

theorem Notified.not_idle {op : Op ι} (h : Notified s c op) : ¬Idle s := fun hidle => by
  have hctrl := h.ctrlQueue c
  have hshared := h.sharedQueue
  cases hs : op.kind.sync <;> simp [hidle.ctrlQueue, hidle.sharedQueue, hs] at hctrl hshared

theorem start_cases {kind : Kind} {mask : Finset ι}
    (ht : s.step m (.start c kind mask) = some t) :
    ∃ mask', (kind.deletes = true → mask' = ∅) ∧ (kind.deletes = false → mask' = mask) ∧
      s.accepts m kind mask' = true ∧ t = s.start m c kind mask' := by
  simp only [State.step] at ht
  by_cases hd : kind.deletes = true
  · simp only [hd, if_true] at ht
    split at ht
    · rename_i hacc
      exact ⟨∅,fun _ => rfl,by simp [hd],hacc.2.2,(Option.some.inj ht).symm⟩
    · cases ht
  · simp only [hd, Bool.false_eq_true, if_false] at ht
    split at ht
    · rename_i hacc
      exact ⟨mask,by simp [hd],fun _ => rfl,hacc.2.2,(Option.some.inj ht).symm⟩
    · cases ht

/-- Only an operation with requests uses an event group. -/
theorem evgrps_start {kind : Kind} {mask : Finset ι} {e : Nat} {g : Evgrp ι}
    (hg : (s.start m c kind mask).evgrps e = some g) :
    s.evgrps e = some g ∨ g.kind = kind ∧ s.requests m c kind mask ≠ [] := by
  simp only [State.start] at hg
  split at hg
  · left
    split at hg <;> split at hg <;> exact hg
  · by_cases he : e = s.fresh
    · subst he
      simp [State.update] at hg
      exact .inr ⟨by rw [← hg],‹_›⟩
    · left
      simpa [State.update, Function.update_of_ne he] using hg

/-- The kinds that have requests are those that a proper start may have. -/
private theorem counts_of_requests {kind : Kind} {mask : Finset ι}
    (hreqs : s.requests m c kind mask ≠ []) (hcreate : kind.creates = true → mask ⊆ {c})
    (hmodify : kind = .modify → s.requests m c kind mask = []) : Counts kind := by
  by_cases hc : kind.creates = true
  · refine absurd (List.eq_nil_iff_forall_not_mem.2 fun ⟨d,req⟩ hm => ?_) hreqs
    rw [mem_requests] at hm
    rcases hm with ⟨hd,-⟩ | ⟨hd,-,hne,-⟩
    · simp [State.oldMask, hc] at hd
    · exact hne (Finset.mem_singleton.1 (hcreate hc hd))
  · cases kind <;> simp_all [Counts, Kind.creates]

theorem inv_start {kind : Kind} {mask : Finset ι} (h : Inv s)
    (ht : s.step m (.start c kind mask) = some t) (hp : Proper m s (.start c kind mask) t) :
    Inv t := by
  obtain ⟨mask',hdel,hmask,ha,rfl⟩ := start_cases ht
  rcases hp with ⟨hidle,hcreate,hmodify⟩ | ⟨rfl,rfl⟩
  · have hs : Settled s := by
      cases h.phase with
      | settled hs => exact hs
      | requested _ _ _ hr => exact absurd hidle hr.not_idle
      | notified _ _ hn => exact absurd hidle hn.not_idle
    have hcounts : s.requests m c kind mask' ≠ [] → Counts kind := fun hreqs => by
      refine counts_of_requests hreqs (fun hc => ?_) (fun hk => ?_)
      · rw [hmask (by cases kind <;> simp_all [Kind.creates, Kind.deletes])]
        exact hcreate hc
      · rw [hmask (by rw [hk]; rfl)]
        exact hmodify hk
    constructor
    · by_cases hreqs : s.requests m c kind mask' = []
      · exact .settled (settled_start hs hidle ha hdel hreqs)
      · exact .requested _ _ _ (requested_start hs hidle ha hdel (hcounts hreqs) hreqs)
    · intro e g hg
      rcases evgrps_start hg with hg | ⟨hk,hreqs⟩
      · exact h.counts e g hg
      · exact hk ▸ hcounts hreqs
  · obtain rfl := hmask rfl
    have halloc : s.allocated = true := by
      simp [State.accepts, Kind.creates, Kind.deletes] at ha
      exact ha.2.1
    rwa [start_unchanged halloc]

end EmOdp.QueueGroup.Operation
