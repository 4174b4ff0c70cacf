import EmOdp.Dispatch.BurstCount

/-! The burst shapes for which a trailing partial batch resets the count too early. -/
namespace EmOdp.Dispatch
open Lib BoundedRun

variable {shm : Shm} {fuel : Nat} {s t : Locm}

/-- A wrong count has been seen, or is still to come. -/
inductive Doomed (cuts : List (Nat × Nat)) (s : Locm) : Prop where
  | seen : Bad s → Doomed cuts s
  | coming : Good s → s.localQueues = [] → ¬Uncut cuts → (∀ c ∈ cuts, 0 < c.2) →
      s.left = (cuts.map Prod.snd).sum → Doomed cuts s

private theorem callBurst_bad {num : Nat} (h : Bad s) :
    (callBurst shm fuel num s).Sat Bad Bad :=
  (callBurst_called num s).mono (fun _ ht => h.called ht) (fun _ ht => h.called ht)

theorem full_bad {num : Nat} (h : Bad s) : ((checked shm fuel).full num s).Sat Bad Bad :=
  callBurst_bad (s := { s with eventBurstCnt := s.eventBurstCnt-num }) h

theorem trailing_bad {num : Nat} (h : Bad s) : ((checked shm fuel).trailing num s).Sat Bad Bad :=
  callBurst_bad (s := { s with eventBurstCnt := 0 }) h

theorem evgroup_bad {num rest loopFuel : Nat} (h : Bad s) :
    (dispatchEvgroup (checked shm fuel) num loopFuel rest s).Sat Bad Bad := by
  induction loopFuel generalizing rest s with
  | zero => exact h
  | succ loopFuel ih =>
    simp only [dispatchEvgroup]
    split
    · exact (full_bad h).bind fun t ht => ih ht
    · split
      · exact trailing_bad h
      · exact h

private theorem callBurst_quiet (shm : Shm) (fuel num : Nat) (s : Locm) (hq : s.localQueues = []) :
    callBurst shm fuel num s = .ok { s with
      left := s.left-num
      calls := ⟨!shm.callbacksRegistered,true,num,s.eventBurstCnt,s.left-num⟩ :: s.calls } := by
  simp [callBurst, checkLocalQueues, hq]

theorem full_quiet {num : Nat} (h : Good s) (hq : s.localQueues = []) (hn : num ≤ s.left) :
    ((checked shm fuel).full num s).Sat
      (fun t => Good t ∧ t.localQueues = [] ∧ t.left = s.left-num) fun _ => False := by
  have hg := @full_good shm fuel s num h hn
  have he := callBurst_quiet shm fuel num { s with eventBurstCnt := s.eventBurstCnt-num } hq
  simp only [checked] at hg ⊢
  rw [he] at hg ⊢
  exact ⟨hg.1,hq,hg.2⟩

/-- The defect: a trailing batch that is not the end of the burst resets the count. -/
theorem trailing_quiet {num : Nat} (hq : s.localQueues = []) (hn : num < s.left) :
    ((checked shm fuel).trailing num s).Sat Bad fun _ => False := by
  have he := callBurst_quiet shm fuel num { s with eventBurstCnt := 0 } hq
  simp only [checked]
  rw [he]
  exact ⟨_,List.mem_cons_self,by simp only; omega⟩

/-- Without local events a loop over batches that are not empty ends. -/
theorem evgroup_ends {num rest loopFuel : Nat} (h : Good s) (hq : s.localQueues = [])
    (hnum : 0 < num) (hle : rest ≤ s.left) (hf : rest < loopFuel) :
    (dispatchEvgroup (checked shm fuel) num loopFuel rest s).Sat
      (fun t => (num ∣ rest → Good t ∧ t.localQueues = [] ∧ t.left = s.left-rest) ∧
        (¬num ∣ rest → rest < s.left → Bad t)) fun _ => False := by
  induction loopFuel generalizing rest s with
  | zero => omega
  | succ loopFuel ih =>
    simp only [dispatchEvgroup]
    split
    · rename_i hn
      have hdvd : num ∣ rest-num ↔ num ∣ rest :=
        ⟨fun hd => by simpa only [Nat.sub_add_cancel hn] using Nat.dvd_add hd dvd_rfl,
          fun hd => Nat.dvd_sub hd dvd_rfl⟩
      refine (full_quiet h hq (hn.trans hle)).bind ?_
      rintro t ⟨ht,hqt,hl⟩
      refine (ih ht hqt (by omega) (by omega)).mono ?_ fun _ hu => hu
      rintro u ⟨hu,hbad⟩
      refine ⟨fun hd => ?_,fun hd hlt => hbad (by rwa [hdvd]) (by omega)⟩
      obtain ⟨hgu,hqu,hlu⟩ := hu (by rwa [hdvd])
      exact ⟨hgu,hqu,by omega⟩
    · rename_i hn
      split
      · rename_i hpos
        have hnd : ¬num ∣ rest := fun hd => hn (Nat.le_of_dvd hpos hd)
        by_cases hlt : rest < s.left
        · exact (trailing_quiet hq hlt).mono (fun _ ht => ⟨fun hd => absurd hd hnd,fun _ _ => ht⟩)
            fun _ ht => ht
        · have he := callBurst_quiet shm fuel rest { s with eventBurstCnt := 0 } hq
          simp only [checked]
          rw [he]
          exact ⟨fun hd => absurd hd hnd,fun _ hlt' => absurd hlt' hlt⟩
      · have h0 : rest = 0 := by omega
        subst h0
        exact ⟨fun _ => ⟨h,hq,rfl⟩,fun hd => absurd (Nat.dvd_zero num) hd⟩

theorem evgroup_doomed {max len : Nat} {cuts : List (Nat × Nat)} (hf : len < fuel)
    (h : Doomed ((max,len) :: cuts) s) :
    (dispatchEvgroup (checked shm fuel) (min len max) fuel len s).Sat (Doomed cuts) Bad := by
  cases h with
  | seen h => exact (evgroup_bad h).mono (fun _ ht => .seen ht) fun _ ht => ht
  | coming hg hq hu hpos ht =>
    simp only [Uncut, not_or, not_and] at hu
    obtain ⟨hmax,hu⟩ := hu
    simp only [List.map_cons, List.sum_cons] at ht
    have hlen : 0 < len := hpos _ List.mem_cons_self
    have hpos' : ∀ c ∈ cuts, 0 < c.2 := fun c hc => hpos c (List.mem_cons_of_mem _ hc)
    refine (evgroup_ends hg hq (by omega) (by omega) hf).mono (fun t ⟨hwhole,hcut⟩ => ?_)
      fun _ hfalse => hfalse.elim
    by_cases hd : min len max ∣ len
    · obtain ⟨hgt,hqt,hl⟩ := hwhole hd
      refine .coming hgt hqt (hu fun hlt => .inl ?_) hpos' (by omega)
      rwa [min_eq_right hlt.le] at hd
    · refine .seen (hcut hd ?_)
      cases cuts with
      | nil => exact absurd trivial (hu fun _ => .inr rfl)
      | cons c cuts =>
        have hc := hpos' c List.mem_cons_self
        simp only [List.map_cons, List.sum_cons] at ht
        omega

private theorem one_doomed {cuts : List (Nat × Nat)} (h : Doomed ((1,1) :: cuts) s) :
    ((checked shm fuel).full 1 s).Sat (Doomed cuts) Bad := by
  cases h with
  | seen h => exact (full_bad h).mono (fun _ ht => .seen ht) fun _ ht => ht
  | coming hg hq hu hpos ht =>
    simp only [List.map_cons, List.sum_cons] at ht
    refine (full_quiet hg hq (by omega)).mono (fun t ⟨hgt,hqt,hl⟩ => ?_) fun _ hfalse => hfalse.elim
    refine .coming hgt hqt (fun hc => hu (.inr ⟨nofun,hc⟩)) (fun c hc => ?_) (by omega)
    exact hpos c (List.mem_cons_of_mem _ hc)

theorem dispatchEvents_doomed {q : QElem} {evTbl : List EventHdr} {cuts : List (Nat × Nat)}
    (hf : evTbl.length < fuel) (h : Doomed (eventCuts q evTbl ++ cuts) s) :
    (dispatchEvents shm fuel q evTbl s).Sat (Doomed cuts) Bad := by
  simp only [dispatchEvents, eventCuts] at h ⊢
  split
  · rename_i h1
    rw [if_pos h1] at h
    exact one_doomed h
  rename_i h1
  rw [if_neg h1] at h
  split
  · rename_i hm
    rw [if_pos hm] at h
    rw [dispatchEoMultircvBurst, forSegments_eq]
    refine (Sat.foldlM (fun groups s => (∀ g ∈ groups, g.length < fuel) ∧ Doomed
      (groups.map (fun g : List EventHdr => (q.maxEvents.toNat,g.length)) ++ cuts) s) ?_
        ⟨fun g hg => ?_,h⟩).mono (fun _ h => h.2) fun _ h => h
    · rintro g groups t ⟨hlen,ht⟩
      exact (evgroup_doomed (hlen g List.mem_cons_self) ht).mono
        (fun _ h => ⟨fun g' hg' => hlen g' (List.mem_cons_of_mem _ hg'),h⟩) fun _ h => h
    · exact (length_le_of_mem_segments hg).trans_lt hf
  · rename_i hm
    rw [if_neg hm] at h
    refine Sat.foldlM (fun evs s => Doomed (evs.map (fun _ : EventHdr => (1,1)) ++ cuts) s) ?_ h
    exact fun _ _ _ ht => one_doomed ht

theorem eventCuts_pos (q : QElem) (evTbl : List EventHdr) : ∀ c ∈ eventCuts q evTbl, 0 < c.2 := by
  intro c hc
  simp only [eventCuts] at hc
  split at hc
  · simp [List.mem_singleton.1 hc]
  · split at hc
    · obtain ⟨g,hg,rfl⟩ := List.mem_map.1 hc
      exact length_pos_of_mem_segments hg
    · obtain ⟨e,-,rfl⟩ := List.mem_map.1 hc
      exact Nat.one_pos

theorem cuts_pos (queueElem : Nat → QElem) (burst : Burst) :
    ∀ c ∈ burst.cuts queueElem, 0 < c.2 := by
  intro c hc
  cases burst with
  | scheduled q evTbl => exact eventCuts_pos q evTbl c hc
  | agDequeued entryTbl =>
    obtain ⟨batch,-,hc⟩ := List.mem_flatMap.1 hc
    cases batch with
    | nil => cases hc
    | cons entry batch => exact eventCuts_pos _ _ c hc

theorem dispatch_bad {burst : Burst} (h : ¬Uncut (burst.cuts shm.queueElem)) :
    Bad (burst.dispatch shm (burst.size+1) []).state := by
  have hs : Doomed (burst.cuts shm.queueElem)
      { eventBurstCnt := burst.size, left := burst.size, localQueues := [] } :=
    .coming ⟨rfl,nofun⟩ rfl h (cuts_pos _ _) (sum_cuts shm.queueElem burst).symm
  have hend : ∀ t, Doomed [] t → Bad t := fun t ht => by
    cases ht with
    | seen h => exact h
    | coming _ _ hu => exact absurd trivial hu
  refine Sat.state ?_
  cases burst with
  | scheduled q evTbl =>
    refine (@dispatchEvents_doomed shm _ _ q evTbl [] (Nat.lt_succ_self _) ?_).mono hend fun _ h => h
    simpa [Burst.cuts] using hs
  | agDequeued entryTbl =>
    rw [Burst.dispatch, forSegments_eq]
    refine (Sat.foldlM (fun l s => (∀ b ∈ l, b.length ≤ entryTbl.length) ∧
      Doomed (l.flatMap (batchCuts shm.queueElem)) s) ?_ ⟨fun b hb => ?_,hs⟩).mono
        (fun t ht => hend t ht.2) fun _ h => h
    · rintro b l t ⟨hlen,ht⟩
      have hb := hlen b List.mem_cons_self
      have hl : ∀ b' ∈ l, b'.length ≤ entryTbl.length := fun b' hb' =>
        hlen b' (List.mem_cons_of_mem _ hb')
      cases b with
      | nil => exact ⟨hl,ht⟩
      | cons entry b =>
        refine (dispatchEvents_doomed ?_ ht).mono (fun _ h => ⟨hl,h⟩) fun _ h => h
        simpa only [Burst.size, List.length_map] using Nat.lt_succ_of_le hb
    · exact length_le_of_mem_segments hb

/-- `event_burst_cnt` counts the rest of the burst at every receive call, whatever the
local queues hold, exactly when no loop but the last leaves a partial batch. -/
theorem event_burst_cnt_iff (queueElem : Nat → QElem) (burst : Burst) :
    (∀ callbacksRegistered fuel localQueues,
      ∀ c ∈ (burst.dispatch ⟨queueElem,callbacksRegistered⟩ fuel localQueues).state.calls,
        c.CountsRest) ↔ Uncut (burst.cuts queueElem) := by
  constructor
  · intro h
    by_contra hu
    obtain ⟨c,hc,hne⟩ := @dispatch_bad ⟨queueElem,false⟩ burst hu
    exact hne (h _ _ _ c hc).count
  · intro h cb fuel localQueues c hc
    exact Call.countsRest_iff.2 ((@dispatch_good ⟨queueElem,cb⟩ fuel burst h localQueues).calls c hc)

/-- Five events of one queue with `max_events` 2, the first three of them in a group. -/
theorem event_burst_cnt_reset :
    ¬∀ c ∈ (Burst.dispatch ⟨fun _ => ⟨true,2,true⟩,false⟩ 9
        (.scheduled ⟨true,2,true⟩ [⟨1,1⟩,⟨1,1⟩,⟨1,1⟩,⟨0,0⟩,⟨0,0⟩]) []).state.calls, c.CountsRest := by
  intro h
  have hc := (h ⟨true,true,1,0,2⟩ (by decide)).count
  simp at hc

end EmOdp.Dispatch
