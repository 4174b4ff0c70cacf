import EmOdp.QueueGroup.OperationStart

/-! Requests are sent and handled, and the done callback completes the operation. -/
namespace EmOdp.QueueGroup.Operation
open Lib
variable {ι : Type} [DecidableEq ι] {m : CoreMap ι} {s t : State ι} {c d : ι}

/-- The next request is sent. -/
theorem inv_send (h : Inv s) (ht : s.step m (.send c) = some t) : Inv t := by
  simp only [State.step] at ht
  split at ht
  · rename_i kind newMask e d req unsent calls hcalls
    obtain rfl := Option.some.inj ht
    have hop : ∀ {c' op}, OnlyCall s c' op → c = c' ∧ op = ⟨kind,newMask,e,(d,req) :: unsent⟩ ∧
        calls = [] := by
      intro c' op ho
      by_cases hc : c = c'
      · subst hc
        rcases ho.calls with hc | ⟨-,-,hnil⟩
        · rw [hcalls] at hc
          simp at hc
          exact ⟨rfl,hc.1.symm,hc.2⟩
        · simp [hcalls] at hnil
      · simp [ho.others c hc] at hcalls
    refine ⟨?_,h.counts⟩
    cases h.phase with
    | settled hs =>
      have := (hs.calls c _ (by rw [hcalls]; exact List.mem_cons_self)).1
      simp at this
    | notified c' op hn =>
      obtain ⟨rfl,rfl,-⟩ := hop hn.only
      exact absurd hn.unsent (List.cons_ne_nil _ _)
    | requested c' op queued hr =>
      obtain ⟨rfl,rfl,rfl⟩ := hop hr.only
      obtain ⟨hreq,hd⟩ := hr.unsent d req List.mem_cons_self
      have hnodup := hr.nodup
      simp only [List.map_cons, List.nodup_cons] at hnodup
      refine .requested c ⟨kind,newMask,e,unsent⟩ (insert d queued) ?_
      exact {
        only := ⟨hr.only.counts,.inl (by simp),fun d' hd' => by
          simp [Function.update_of_ne hd', hr.only.others d' hd'],hr.only.inProgress,
          hr.only.ongoingDelete,hr.only.deletes⟩
        coreMask := hr.coreMask
        evgrp := by
          rw [Finset.card_insert_of_notMem hd]
          have := hr.evgrp
          simp only [List.length_cons] at this
          simpa [Nat.add_comm, Nat.add_left_comm] using this
        left := by
          rw [Finset.card_insert_of_notMem hd]
          simp
        ctrlQueue := fun d' => by
          by_cases hd' : d' = d
          · subst hd'
            simp [hr.ctrlQueue, queuedReqs, hd, hreq]
          · simp [hr.ctrlQueue, queuedReqs, hd']
        sharedQueue := hr.sharedQueue
        nodup := hnodup.2
        unsent := fun d' req' hm => by
          obtain ⟨hr',hq⟩ := hr.unsent d' req' (List.mem_cons_of_mem _ hm)
          refine ⟨hr',fun hins => ?_⟩
          rcases Finset.mem_insert.1 hins with rfl | hins
          · exact hnodup.1 (List.mem_map.2 ⟨_,hm,rfl⟩)
          · exact hq hins
        settled := fun d' hq hu => by
          rw [Finset.mem_insert, not_or] at hq
          refine hr.settled d' hq.2 fun hm => ?_
          rcases List.mem_cons.1 hm with rfl | hm
          · exact hq.1 rfl
          · exact hu hm }
  · cases ht

/-- Handling the request takes the core to where the mask wants it. -/
private theorem handle_reqFor (s : State ι) (mask : Finset ι) (d : ι) (e : Nat) :
    ∃ schedGroup, s.handle d (.req (reqFor mask d) e) =
        ({ s with schedGroup } : State ι).countDecrement e ∧
      (d ∈ schedGroup ↔ d ∈ mask) ∧ ∀ d', d' ≠ d → (d' ∈ schedGroup ↔ d' ∈ s.schedGroup) := by
  by_cases hd : d ∈ mask
  · refine ⟨insert d s.schedGroup,by simp [reqFor, hd, State.handle],by simp [hd],fun d' hne => ?_⟩
    simp [hne]
  · refine ⟨s.schedGroup.erase d,by simp [reqFor, hd, State.handle],by simp [hd],fun d' hne => ?_⟩
    simp [hne]

/-- One of several requests is handled. -/
private theorem requested_handle {op : Op ι} {queued schedGroup : Finset ι}
    (h : Requested s c op queued) (hd : d ∈ queued) (hleft : op.unsent.length+queued.card ≠ 1)
    (hG : d ∈ schedGroup ↔ d ∈ op.newMask)
    (hframe : ∀ d', d' ≠ d → (d' ∈ schedGroup ↔ d' ∈ s.schedGroup)) :
    Requested (({ s with ctrlQueue := Function.update s.ctrlQueue d [], schedGroup } :
      State ι).countDecrement op.evgrp) c op (queued.erase d) := by
  have hcard := Finset.card_erase_of_mem hd
  have hpos : 0 < queued.card := Finset.card_pos.2 ⟨d,hd⟩
  simp only [State.countDecrement, h.evgrp, if_neg hleft]
  exact {
    only := ⟨h.only.counts,h.only.calls,h.only.others,h.only.inProgress,h.only.ongoingDelete,
      h.only.deletes⟩
    coreMask := h.coreMask
    evgrp := by
      simp only [Function.update_self, Option.some.injEq, Evgrp.mk.injEq, and_self, and_true]
      omega
    left := by omega
    ctrlQueue := fun d' => by
      by_cases hd' : d' = d
      · subst hd'
        simp [queuedReqs]
      · simp [hd', h.ctrlQueue, queuedReqs]
    sharedQueue := h.sharedQueue
    nodup := h.nodup
    unsent := fun d' req hm => ⟨(h.unsent d' req hm).1,fun hq =>
      (h.unsent d' req hm).2 (Finset.mem_of_mem_erase hq)⟩
    settled := fun d' hq hu => by
      by_cases hd' : d' = d
      · subst hd'
        exact hG
      · rw [hframe d' hd']
        exact h.settled d' (fun hm => hq (Finset.mem_erase.2 ⟨hd',hm⟩)) hu }

/-- The last request is handled, which sends the done event. -/
private theorem notified_handle {op : Op ι} {queued schedGroup : Finset ι}
    (h : Requested s c op queued) (hd : d ∈ queued) (hleft : op.unsent.length+queued.card = 1)
    (hG : d ∈ schedGroup ↔ d ∈ op.newMask)
    (hframe : ∀ d', d' ≠ d → (d' ∈ schedGroup ↔ d' ∈ s.schedGroup)) :
    Notified (({ s with ctrlQueue := Function.update s.ctrlQueue d [], schedGroup } :
      State ι).countDecrement op.evgrp) c op := by
  have hpos : 0 < queued.card := Finset.card_pos.2 ⟨d,hd⟩
  have hunsent : op.unsent = [] := List.length_eq_zero_iff.1 (by omega)
  have hone : ∀ d', d' ∈ queued → d' = d := fun d' hd' =>
    Finset.card_le_one.1 (by omega) d' hd' d hd
  have hempty : ∀ d', Function.update s.ctrlQueue d [] d' = [] := fun d' => by
    by_cases hd' : d' = d
    · simp [hd']
    · simp only [Function.update_of_ne hd', h.ctrlQueue, queuedReqs]
      exact if_neg fun hq => hd' (hone d' hq)
  have hmask : schedGroup = op.newMask := by
    ext d'
    by_cases hd' : d' = d
    · subst hd'
      exact hG
    · rw [hframe d' hd']
      exact h.settled d' (fun hq => hd' (hone d' hq)) (by simp [hunsent])
  have honly : ∀ {u : State ι}, u.calls = s.calls → u.inProgress = s.inProgress →
      u.ongoingDelete = s.ongoingDelete → OnlyCall u c op := fun hc hp ho =>
    ⟨h.only.counts,hc ▸ h.only.calls,hc ▸ h.only.others,hp ▸ h.only.inProgress,
      ho ▸ h.only.ongoingDelete,h.only.deletes⟩
  simp only [State.countDecrement, h.evgrp, if_pos hleft]
  cases hs : op.kind.sync with
  | true =>
    exact {
      only := honly rfl rfl rfl
      unsent := hunsent
      coreMask := h.coreMask
      schedGroup := hmask
      evgrp := by simp [hleft]
      ctrlQueue := fun d' => by
        by_cases hd' : d' = c
        · subst hd'
          simp [hempty, hs]
        · simp [hempty, hd']
      sharedQueue := by simp [h.sharedQueue, hs] }
  | false =>
    exact {
      only := honly rfl rfl rfl
      unsent := hunsent
      coreMask := h.coreMask
      schedGroup := hmask
      evgrp := by simp [hleft]
      ctrlQueue := fun d' => by simp [hempty, hs]
      sharedQueue := by simp [h.sharedQueue, hs] }

/-- The done callback, run by the calling core if it waits, completes the operation. -/
private theorem settled_doneCallback {op : Op ι} (ho : OnlyCall s c op) (hunsent : op.unsent = [])
    (hmask : s.coreMask = op.newMask) (hG : s.schedGroup = op.newMask)
    (hev : s.evgrps op.evgrp = some { left := 0, kind := op.kind, newMask := op.newMask, caller := c })
    (hd : op.kind.waits = true → d = c) (hctrl : ∀ c, s.ctrlQueue c = [])
    (hshared : s.sharedQueue = []) : Settled (s.doneCallback d op.evgrp) := by
  have hcalls : ∀ c' op', op' ∈ s.calls c' → op' = op := fun c' op' hm => by
    by_cases hc : c' = c
    · subst hc
      rcases ho.calls with h | ⟨-,-,h⟩
      · rwa [h, List.mem_singleton] at hm
      · simp [h] at hm
    · simp [ho.others c' hc] at hm
  obtain ⟨u,hu,hlive,hjoined,hongoing,hc,hprog,hcq,hsq⟩ :
      ∃ u, u = (if op.kind.deletes then s.qGrpDeleteDone else s) ∧
        (u.allocated = true → u.schedGroup = u.coreMask) ∧ u.schedGroup = op.newMask ∧
        u.ongoingDelete = false ∧ u.calls = s.calls ∧ u.inProgress = s.inProgress ∧
        u.ctrlQueue = s.ctrlQueue ∧ u.sharedQueue = s.sharedQueue := by
    refine ⟨_,rfl,?_⟩
    split
    · exact ⟨nofun,(ho.deletes ‹_›).symm,rfl,rfl,rfl,rfl,rfl⟩
    · refine ⟨fun _ => hG.trans hmask.symm,hG,?_,rfl,rfl,rfl,rfl⟩
      simpa [ho.ongoingDelete] using ‹¬op.kind.deletes = true›
  have hfinished : ∀ c' op', op' ∈ u.calls c' →
      op'.unsent = [] ∧ (op'.kind.sync = true → u.schedGroup = op'.newMask) := fun c' op' hm => by
    obtain rfl := hcalls c' op' (hc ▸ hm)
    exact ⟨hunsent,fun _ => hjoined⟩
  simp only [State.doneCallback, hev, ← hu]
  split
  · rename_i hw
    refine ⟨hongoing,hlive,hfinished,fun c' => ?_,fun c' => hcq ▸ hctrl c',hsq ▸ hshared⟩
    by_cases hc' : c' = d
    · simp [hc']
    · have hne : c' ≠ c := fun h => hc' (h.trans (hd hw).symm)
      simp [Function.update_of_ne hc', hprog, ho.inProgress, hne]
  · rename_i hw
    refine ⟨hongoing,hlive,hfinished,fun c' => ?_,fun c' => hcq ▸ hctrl c',hsq ▸ hshared⟩
    simp [hprog, ho.inProgress, hw]

theorem evgrps_countDecrement {e e' : Nat} {g : Evgrp ι}
    (hg : (s.countDecrement e).evgrps e' = some g) : ∃ g', s.evgrps e' = some g' ∧ g'.kind = g.kind := by
  unfold State.countDecrement at hg
  split at hg
  · exact ⟨g,hg,rfl⟩
  · rename_i g' hg'
    have hup : Function.update s.evgrps e (some { g' with left := g'.left-1 }) e' = some g := by
      split at hg
      · split at hg <;> exact hg
      · exact hg
    by_cases he : e' = e
    · subst he
      rw [Function.update_self] at hup
      exact ⟨g',hg',by rw [← Option.some.inj hup]⟩
    · rw [Function.update_of_ne he] at hup
      exact ⟨g,hup,rfl⟩

theorem evgrps_handle {e' : Nat} {event : CtrlEvent} {g : Evgrp ι}
    (hg : (s.handle c event).evgrps e' = some g) : ∃ g', s.evgrps e' = some g' ∧ g'.kind = g.kind := by
  match event with
  | .req .add e =>
    obtain ⟨g',hg',hk⟩ := evgrps_countDecrement hg
    exact ⟨g',hg',hk⟩
  | .req .rem e =>
    obtain ⟨g',hg',hk⟩ := evgrps_countDecrement hg
    exact ⟨g',hg',hk⟩
  | .done e =>
    simp only [State.handle, State.doneCallback] at hg
    split at hg
    · exact ⟨g,hg,rfl⟩
    · split at hg <;> split at hg <;> exact ⟨g,hg,rfl⟩

theorem inv_handle (h : Inv s) (ht : s.step m (.handle d) = some t) : Inv t := by
  simp only [State.step] at ht
  split at ht
  · cases ht
  rename_i event events hq
  split at ht
  swap
  · cases ht
  obtain rfl := Option.some.inj ht
  refine ⟨?_,fun e g hg => ?_⟩
  swap
  · obtain ⟨g',hg',hk⟩ := evgrps_handle hg
    exact hk ▸ h.counts e g' hg'
  cases h.phase with
  | settled hs => simp [hs.ctrlQueue] at hq
  | requested c op queued hr =>
    rw [hr.ctrlQueue, queuedReqs] at hq
    split at hq
    · rename_i hd
      obtain ⟨rfl,rfl⟩ := List.cons_eq_cons.1 hq
      obtain ⟨schedGroup,heq,hG,hframe⟩ := handle_reqFor
        { s with ctrlQueue := Function.update s.ctrlQueue d [] } op.newMask d op.evgrp
      rw [heq]
      by_cases hleft : op.unsent.length+queued.card = 1
      · exact .notified c op (notified_handle hr hd hleft hG hframe)
      · exact .requested c op _ (requested_handle hr hd hleft hG hframe)
    · cases hq
  | notified c op hn =>
    rw [hn.ctrlQueue] at hq
    split at hq
    · rename_i hd
      obtain ⟨rfl,rfl⟩ := List.cons_eq_cons.1 hq
      obtain ⟨hsync,rfl⟩ := hd
      refine .settled (settled_doneCallback (c := d) ⟨hn.only.counts,hn.only.calls,hn.only.others,
        hn.only.inProgress,hn.only.ongoingDelete,hn.only.deletes⟩ hn.unsent hn.coreMask
        hn.schedGroup hn.evgrp (fun _ => rfl) (fun c' => ?_) (by simp [hn.sharedQueue, hsync]))
      by_cases hc' : c' = d
      · simp [hc']
      · simp [hn.ctrlQueue, hc']
    · cases hq

theorem inv_handleShared (h : Inv s) (ht : s.step m (.handleShared d) = some t) : Inv t := by
  simp only [State.step] at ht
  split at ht
  · cases ht
  rename_i event events hq
  split at ht
  swap
  · cases ht
  obtain rfl := Option.some.inj ht
  refine ⟨?_,fun e g hg => ?_⟩
  swap
  · obtain ⟨g',hg',hk⟩ := evgrps_handle hg
    exact hk ▸ h.counts e g' hg'
  cases h.phase with
  | settled hs => simp [hs.sharedQueue] at hq
  | requested c op queued hr => simp [hr.sharedQueue] at hq
  | notified c op hn =>
    rw [hn.sharedQueue] at hq
    split at hq
    · cases hq
    · rename_i hsync
      obtain ⟨rfl,rfl⟩ := List.cons_eq_cons.1 hq
      refine .settled (settled_doneCallback (c := c) ⟨hn.only.counts,hn.only.calls,hn.only.others,
        hn.only.inProgress,hn.only.ongoingDelete,hn.only.deletes⟩ hn.unsent hn.coreMask
        hn.schedGroup hn.evgrp (fun hw => ?_) (fun c' => by simp [hn.ctrlQueue, hsync]) rfl)
      rcases hn.only.counts with hk | hk | hk <;> simp_all [Kind.sync, Kind.waits]

theorem inv_ret (h : Inv s) (ht : s.step m (.ret d) = some t) : Inv t := by
  simp only [State.step] at ht
  split at ht
  · cases ht
  rename_i op' calls hcalls
  split at ht
  swap
  · cases ht
  rename_i hret
  obtain rfl := Option.some.inj ht
  refine ⟨?_,h.counts⟩
  have hpop : ∀ {c op}, OnlyCall s c op →
      OnlyCall { s with calls := Function.update s.calls d calls } c op := by
    intro c op ho
    by_cases hd : d = c
    · subst hd
      rcases ho.calls with hc | ⟨-,-,hnil⟩
      · obtain ⟨rfl,rfl⟩ := List.cons_eq_cons.1 (hcalls.symm.trans hc)
        have hk : op'.kind = .delete := by
          have hp := ho.inProgress d
          rcases ho.counts with hk | hk | hk
          · simp_all [Kind.waits]
          · simp_all [Kind.waits]
          · exact hk
        exact ⟨ho.counts,.inr ⟨hk,hret.1,by simp⟩,fun d' hd' => by
          simp [Function.update_of_ne hd', ho.others d' hd'],ho.inProgress,ho.ongoingDelete,ho.deletes⟩
      · simp [hcalls] at hnil
    · simp [ho.others d hd] at hcalls
  cases h.phase with
  | settled hs =>
    refine .settled { hs with calls := fun c op hm => ?_ }
    change op ∈ Function.update s.calls d calls c at hm
    by_cases hc : c = d
    · subst hc
      rw [Function.update_self] at hm
      exact hs.calls c op (hcalls ▸ List.mem_cons_of_mem _ hm)
    · rw [Function.update_of_ne hc] at hm
      exact hs.calls c op hm
  | requested c op queued hr => exact .requested c op queued { hr with only := hpop hr.only }
  | notified c op hn => exact .notified c op { hn with only := hpop hn.only }

end EmOdp.QueueGroup.Operation
