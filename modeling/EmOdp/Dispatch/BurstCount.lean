import EmOdp.Dispatch.Burst

/-! When `locm->event_burst_cnt` is the number of events of the burst still to come. -/
namespace EmOdp.Dispatch
open Lib BoundedRun

/-- The scheduling context can be released (`event_burst_cnt == 0`) only from a receive
call after which no event of the burst is left. -/
structure Call.CountsRest (c : Call) : Prop where
  count : c.eventBurstCnt = c.left
  release : c.eventBurstCnt = 0 → c.left = 0

theorem Call.countsRest_iff {c : Call} : c.CountsRest ↔ c.eventBurstCnt = c.left :=
  ⟨Call.CountsRest.count,fun h => ⟨h,by omega⟩⟩

/-- `max_events` and the number of events for each loop that cuts events into batches. -/
def eventCuts (q : QElem) (evTbl : List EventHdr) : List (Nat × Nat) :=
  if evTbl.length = 1 then [(1,1)]
  else if q.useMultiRcv then
    (segments sameEvgroup evTbl 0).map fun group => (q.maxEvents.toNat,group.length)
  else evTbl.map fun _ => (1,1)

def batchCuts (queueElem : Nat → QElem) : List StashEntry → List (Nat × Nat)
  | [] => []
  | entry :: batch => eventCuts (queueElem entry.qidx) ((entry :: batch).map (·.hdr))

def Burst.cuts (queueElem : Nat → QElem) : Burst → List (Nat × Nat)
  | .scheduled q evTbl => eventCuts q evTbl
  | .agDequeued entryTbl =>
    (segments (fun e e' => e'.qidx = e.qidx) entryTbl 0).flatMap (batchCuts queueElem)

/-- No loop but the last one of the burst leaves a partial batch. With `max_events` 0
the loop never ends. -/
def Uncut : List (Nat × Nat) → Prop
  | [] => True
  | (max,len) :: rest => max = 0 ∨ (max < len → max ∣ len ∨ rest = []) ∧ Uncut rest

instance : (cuts : List (Nat × Nat)) → Decidable (Uncut cuts)
  | [] => isTrue trivial
  | (max,len) :: rest =>
    have := instDecidableUncut rest
    inferInstanceAs (Decidable (max = 0 ∨ (max < len → max ∣ len ∨ rest = []) ∧ Uncut rest))

variable {shm : Shm} {fuel : Nat} {s t u : Locm}

/-- Only receive calls that see `cnt` and leave `left` have been added. -/
structure Called (cnt : Int) (left : Nat) (s t : Locm) : Prop where
  cnt_eq : t.eventBurstCnt = cnt
  left_eq : t.left = left
  added : ∃ l, t.calls = l ++ s.calls ∧ ∀ c ∈ l, c.eventBurstCnt = cnt ∧ c.left = left

theorem Called.refl (s : Locm) : Called s.eventBurstCnt s.left s s := ⟨rfl,rfl,[],rfl,nofun⟩

theorem Called.trans {cnt : Int} {left : Nat} (h : Called cnt left s t)
    (h' : Called t.eventBurstCnt t.left t u) : Called cnt left s u := by
  obtain ⟨hc,hl,l,hs,hcall⟩ := h
  obtain ⟨hc',hl',l',hs',hcall'⟩ := h'
  refine ⟨hc'.trans hc,hl'.trans hl,l' ++ l,by rw [hs', hs, List.append_assoc],fun c hm => ?_⟩
  rcases List.mem_append.1 hm with hm | hm
  · rw [← hc, ← hl]; exact hcall' c hm
  · exact hcall c hm

/-- The burst's own accounting is untouched. -/
def Frame (f : Locm → BoundedRun Locm Locm) : Prop :=
  ∀ s, (f s).Sat (Called s.eventBurstCnt s.left s) (Called s.eventBurstCnt s.left s)

theorem Frame.foldlM {α : Type} {f : Locm → α → BoundedRun Locm Locm}
    (hf : ∀ a, Frame fun s => f s a) (l : List α) : Frame fun s => l.foldlM f s := by
  intro s
  refine Sat.foldlM (fun _ => Called s.eventBurstCnt s.left s) (fun a _ t ht => ?_) (Called.refl s)
  exact (hf a t).mono (fun _ h => ht.trans h) (fun _ h => ht.trans h)

theorem Frame.forSegments {α : Type} {same : α → α → Bool}
    {f : List α → Locm → BoundedRun Locm Locm} (hf : ∀ a, Frame (f a)) (l : List α) :
    Frame (forSegments same f l 0) := by
  intro s
  rw [forSegments_eq]
  exact Frame.foldlM hf _ s

theorem callLocal_frame (num : Nat) : Frame (callLocal shm num) := fun s =>
  ⟨rfl,rfl,[_],rfl,by simp⟩

theorem dispatchEvgroup_frame (num rest : Nat) :
    Frame (dispatchEvgroup (unchecked shm) num fuel rest) := by
  induction fuel generalizing rest with
  | zero => exact Called.refl
  | succ fuel ih =>
    intro s
    simp only [dispatchEvgroup]
    split
    · exact (callLocal_frame num s).bind fun t ht =>
        (ih (rest-num) t).mono (fun _ h => ht.trans h) (fun _ h => ht.trans h)
    · split
      · exact callLocal_frame rest s
      · exact Called.refl s

theorem dispatchLocalBatch_frame (batch : List StashEntry) :
    Frame (dispatchLocalBatch shm fuel batch) := by
  intro s
  cases batch with
  | nil => exact Called.refl s
  | cons entry batch =>
    simp only [dispatchLocalBatch]
    split
    · exact Called.refl s
    · split
      · exact Frame.forSegments (fun _ => dispatchEvgroup_frame _ _) _ s
      · exact Frame.foldlM (fun _ => callLocal_frame 1) _ s

theorem dispatchLocalQueues_frame (entryTbl : List StashEntry) :
    Frame fun s => dispatchLocalQueues shm fuel s entryTbl := by
  intro s
  simp only [dispatchLocalQueues]
  split
  · rename_i entry
    simp only [dispatchLocalSingle]
    split
    · exact Called.refl s
    · exact callLocal_frame 1 s
  · exact Frame.forSegments dispatchLocalBatch_frame _ s

theorem checkLocalQueues_frame : Frame (checkLocalQueues shm fuel) := by
  intro s
  simp only [checkLocalQueues]
  split
  · exact Called.refl s
  · rename_i found later _
    exact (Frame.foldlM dispatchLocalQueues_frame found { s with localQueues := later }).mono
      (fun _ h => ⟨h.1,h.2,h.3⟩) (fun _ h => ⟨h.1,h.2,h.3⟩)

theorem callBurst_called (num : Nat) (s : Locm) :
    (callBurst shm fuel num s).Sat (Called s.eventBurstCnt (s.left-num) s)
      (Called s.eventBurstCnt (s.left-num) s) := by
  have hcall : Called s.eventBurstCnt (s.left-num) s { s with
      left := s.left-num
      calls := ⟨!shm.callbacksRegistered,true,num,s.eventBurstCnt,s.left-num⟩ :: s.calls } :=
    ⟨rfl,rfl,[_],rfl,by simp⟩
  exact (checkLocalQueues_frame _).mono (fun _ h => hcall.trans h) (fun _ h => hcall.trans h)

/-- The count is right and was right at every receive call so far. -/
structure Good (s : Locm) : Prop where
  count : s.eventBurstCnt = s.left
  calls : ∀ c ∈ s.calls, c.eventBurstCnt = c.left

def Bad (s : Locm) : Prop := ∃ c ∈ s.calls, c.eventBurstCnt ≠ c.left

theorem Bad.called {cnt : Int} {left : Nat} (h : Bad s) (hc : Called cnt left s t) : Bad t := by
  obtain ⟨c,hm,hne⟩ := h
  obtain ⟨-,-,l,hl,-⟩ := hc
  exact ⟨c,by rw [hl]; exact List.mem_append_right _ hm,hne⟩

private theorem callBurst_good {num : Nat} (hs : ∀ c ∈ s.calls, c.eventBurstCnt = c.left)
    (hc : s.eventBurstCnt = ((s.left-num : Nat) : Int)) :
    (callBurst shm fuel num s).Sat (fun t => Good t ∧ t.left = s.left-num) Good := by
  have hg : ∀ t, Called s.eventBurstCnt (s.left-num) s t → Good t := by
    rintro t ⟨h1,h2,l,hl,hx⟩
    refine ⟨by rw [h1, h2, hc],fun c hm => ?_⟩
    rw [hl] at hm
    rcases List.mem_append.1 hm with hm | hm
    · rw [(hx c hm).1, (hx c hm).2, hc]
    · exact hs c hm
  exact (callBurst_called num s).mono (fun t ht => ⟨hg t ht,ht.left_eq⟩) hg

theorem full_good {num : Nat} (h : Good s) (hn : num ≤ s.left) :
    ((checked shm fuel).full num s).Sat (fun t => Good t ∧ t.left = s.left-num) Good := by
  have hc := h.count
  exact callBurst_good (s := { s with eventBurstCnt := s.eventBurstCnt-num }) h.calls
    (by simp only; omega)

/-- A trailing batch may reset the count only if it holds the last events of the burst. -/
theorem trailing_good {num : Nat} (h : Good s) (hn : s.left = num) :
    ((checked shm fuel).trailing num s).Sat (fun t => Good t ∧ t.left = s.left-num) Good :=
  callBurst_good (s := { s with eventBurstCnt := 0 }) h.calls (by simp only; omega)

/-- What is still to be dispatched is accounted for and will not be cut wrongly. -/
structure Ready (cuts : List (Nat × Nat)) (s : Locm) : Prop where
  good : Good s
  uncut : Uncut cuts
  total : s.left = (cuts.map Prod.snd).sum

theorem evgroup_good {num rest loopFuel : Nat} (h : Good s) (hle : rest ≤ s.left)
    (hn : num = 0 ∨ num ∣ rest ∨ s.left = rest) :
    (dispatchEvgroup (checked shm fuel) num loopFuel rest s).Sat
      (fun t => num ≠ 0 ∧ Good t ∧ t.left = s.left-rest) Good := by
  induction loopFuel generalizing rest s with
  | zero => exact h
  | succ loopFuel ih =>
    simp only [dispatchEvgroup]
    split
    · rename_i hnum
      refine (full_good h (hnum.trans hle)).bind fun t ⟨ht,hl⟩ => ?_
      refine (ih ht (by omega) ?_).mono (fun u ⟨h0,hu,hul⟩ => ⟨h0,hu,by omega⟩) fun _ hu => hu
      rcases hn with hn | hn | hn
      · exact .inl hn
      · exact .inr (.inl (Nat.dvd_sub hn dvd_rfl))
      · exact .inr (.inr (by omega))
    · rename_i hnum
      have h0 : num ≠ 0 := by omega
      split
      · rename_i hpos
        have hlast : s.left = rest := by
          rcases hn with hn | hn | hn
          · exact absurd hn h0
          · exact absurd (Nat.le_of_dvd hpos hn) hnum
          · exact hn
        exact (trailing_good h hlast).mono (fun t ht => ⟨h0,ht⟩) fun _ ht => ht
      · exact ⟨h0,h,by omega⟩

theorem evgroup_ready {max len : Nat} {cuts : List (Nat × Nat)} (h : Ready ((max,len) :: cuts) s) :
    (dispatchEvgroup (checked shm fuel) (min len max) fuel len s).Sat (Ready cuts) Good := by
  obtain ⟨hg,hu,ht⟩ := h
  simp only [List.map_cons, List.sum_cons] at ht
  have hn : min len max = 0 ∨ min len max ∣ len ∨ s.left = len := by
    rcases hu with hmax | ⟨hcut,-⟩
    · exact .inl (by simp [hmax])
    · rcases Nat.lt_or_ge max len with hlt | hge
      · rw [min_eq_right hlt.le]
        rcases hcut hlt with hd | rfl
        · exact .inr (.inl hd)
        · exact .inr (.inr (by simpa using ht))
      · exact .inr (.inl (by rw [min_eq_left hge]))
  refine (evgroup_good hg (by omega) hn).mono (fun t ⟨h0,hgt,hl⟩ => ⟨hgt,?_,by omega⟩) fun _ h => h
  rcases hu with rfl | ⟨-,hu⟩
  · simp at h0
  · exact hu

private theorem one_ready {cuts : List (Nat × Nat)} (h : Ready ((1,1) :: cuts) s) :
    ((checked shm fuel).full 1 s).Sat (Ready cuts) Good := by
  obtain ⟨hg,hu,ht⟩ := h
  simp only [List.map_cons, List.sum_cons] at ht
  refine (full_good hg (by omega)).mono (fun t ⟨hgt,hl⟩ => ⟨hgt,?_,by omega⟩) fun _ h => h
  rcases hu with h0 | ⟨-,hu⟩
  · cases h0
  · exact hu

theorem dispatchEvents_ready {q : QElem} {evTbl : List EventHdr} {cuts : List (Nat × Nat)}
    (h : Ready (eventCuts q evTbl ++ cuts) s) :
    (dispatchEvents shm fuel q evTbl s).Sat (Ready cuts) Good := by
  simp only [dispatchEvents, eventCuts] at h ⊢
  split
  · rename_i h1
    rw [if_pos h1] at h
    exact one_ready h
  rename_i h1
  rw [if_neg h1] at h
  split
  · rename_i hm
    rw [if_pos hm] at h
    rw [dispatchEoMultircvBurst, forSegments_eq]
    refine Sat.foldlM (fun groups s => Ready
      (groups.map (fun g : List EventHdr => (q.maxEvents.toNat,g.length)) ++ cuts) s) ?_ h
    exact fun _ _ _ ht => evgroup_ready ht
  · rename_i hm
    rw [if_neg hm] at h
    refine Sat.foldlM (fun evs s => Ready (evs.map (fun _ : EventHdr => (1,1)) ++ cuts) s) ?_ h
    exact fun _ _ _ ht => one_ready ht

theorem dispatchBatch_ready {batch : List StashEntry} {cuts : List (Nat × Nat)}
    (h : Ready (batchCuts shm.queueElem batch ++ cuts) s) :
    (dispatchBatch shm fuel batch s).Sat (Ready cuts) Good := by
  cases batch with
  | nil => exact h
  | cons entry batch => exact dispatchEvents_ready h

theorem sum_eventCuts (q : QElem) (evTbl : List EventHdr) :
    ((eventCuts q evTbl).map Prod.snd).sum = evTbl.length := by
  simp only [eventCuts]
  split
  · rename_i h1; simpa using h1.symm
  · split
    · rw [List.map_map]; exact sum_length_segments sameEvgroup evTbl
    · simp

theorem sum_batchCuts (queueElem : Nat → QElem) (batch : List StashEntry) :
    ((batchCuts queueElem batch).map Prod.snd).sum = batch.length := by
  cases batch with
  | nil => rfl
  | cons entry batch => exact (sum_eventCuts _ _).trans (List.length_map _)

private theorem sum_flatMap_batchCuts (queueElem : Nat → QElem) (l : List (List StashEntry)) :
    ((l.flatMap (batchCuts queueElem)).map Prod.snd).sum = (l.map List.length).sum := by
  induction l with
  | nil => rfl
  | cons a l ih => simp only [List.flatMap_cons, List.map_append, List.sum_append, List.map_cons,
      List.sum_cons, ih, sum_batchCuts]

/-- The loops cut all events of the burst. -/
theorem sum_cuts (queueElem : Nat → QElem) (burst : Burst) :
    ((burst.cuts queueElem).map Prod.snd).sum = burst.size := by
  cases burst with
  | scheduled q evTbl => exact sum_eventCuts q evTbl
  | agDequeued entryTbl =>
    exact (sum_flatMap_batchCuts queueElem _).trans (sum_length_segments _ entryTbl)

theorem dispatch_good {burst : Burst} (h : Uncut (burst.cuts shm.queueElem))
    (localQueues : List (List (List StashEntry))) :
    Good (burst.dispatch shm fuel localQueues).state := by
  have hs : Ready (burst.cuts shm.queueElem)
      { eventBurstCnt := burst.size, left := burst.size, localQueues } :=
    ⟨⟨rfl,nofun⟩,h,(sum_cuts shm.queueElem burst).symm⟩
  refine Sat.state ?_
  cases burst with
  | scheduled q evTbl =>
    exact (@dispatchEvents_ready shm fuel _ q evTbl [] (by simpa [Burst.cuts] using hs)).mono
      (fun _ h => h.good) fun _ h => h
  | agDequeued entryTbl =>
    rw [Burst.dispatch, forSegments_eq]
    exact (Sat.foldlM (fun l s => Ready (l.flatMap (batchCuts shm.queueElem)) s)
      (fun _ _ _ ht => dispatchBatch_ready ht) hs).mono (fun _ h => h.good) fun _ h => h

end EmOdp.Dispatch
