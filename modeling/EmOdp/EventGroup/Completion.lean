import EmOdp.EventGroup.Invariant

/-! Completion of an event group: the word always balances the cores inside the
group, and the notifications leave once per cycle, with its last event. -/
namespace EmOdp.EventGroup
open Lib
variable {ι Notif : Type} [DecidableEq ι] [Fintype ι] {s t : State ι Notif} {c : ι} {k : Core Notif}
  {new : EgrpCounter} {notifTbl : List Notif}

omit [Fintype ι] in
private theorem holds_update (ht : t.core = Function.update s.core c k)
    (hg : t.counts.gen = s.counts.gen) (ha : t.counts.applied = s.counts.applied) :
    t.latch.holds = Function.update s.latch.holds c
      (if s.counts.applied then k.held s.counts.gen else 0) := by
  funext i
  by_cases hi : i = c
  · subst hi; simp [State.latch, ht, hg, ha]
  · simp [State.latch, ht, hg, ha, hi]

/-- A step that leaves the word and what the core holds of it keeps the balance. -/
theorem counts_local (h : Inv.Counts s) (hw : t.counts = s.counts) (he : t.epoch = s.epoch)
    (hh : t.hist = s.hist) (ht : t.core = Function.update s.core c k)
    (hk : s.counts.applied = true → k.held s.counts.gen = (s.core c).held s.counts.gen) :
    Inv.Counts t := by
  have hl : t.latch = s.latch := by
    have hu := holds_update ht (by rw [hw]) (by rw [hw])
    have hc : (if s.counts.applied then k.held s.counts.gen else 0) = s.latch.holds c := by
      by_cases ha : s.counts.applied = true <;> simp_all [State.latch]
    rw [hc, Function.update_eq_self] at hu
    exact Latch.ext he (by simp [State.latch, hw]) (by simp [State.latch, hw]) hu
      (by simp [State.latch, hh])
  obtain ⟨hg,hcl,hr,hs⟩ := h
  refine ⟨?_,?_,?_,?_⟩
  · rw [hw, he, hg]
  · rwa [hw]
  · rwa [hw, hh, he]
  · rwa [hl]

omit [DecidableEq ι] in
/-- What a core holds of the current cycle is still to be counted by `post_cnt`. -/
theorem held_le_postCnt (h : Inv.Counts s) (ha : s.counts.applied = true) (c : ι) :
    (s.core c).held s.counts.gen ≤ s.counts.postCnt.toNat := by
  have hb := h.sound.balance ha
  have hr := h.remaining ha
  have hle := le_sum s.latch.holds c
  have hc : s.latch.holds c = (s.core c).held s.counts.gen := by simp [State.latch, ha]
  simp only [State.latch] at hb hc hle
  omega

omit [Fintype ι] [DecidableEq ι] in
private theorem cycle_record (o : Obs Notif) :
    cycle ((s.epoch,o) :: s.hist) = s.latch.record o.addTo :=
  cycle_cons s.epoch o s.hist

/-- A core without events of the cycle takes `n` of those counted by `pre_cnt`. -/
theorem counts_take {op : Op Notif} {n : Nat} (h : Inv.Counts s) (ha : s.counts.applied = true)
    (hn : n ≤ s.counts.preCnt.toNat) (hpre : new.preCnt.toNat = s.counts.preCnt.toNat - n)
    (hpost : new.postCnt = s.counts.postCnt) (hap : new.applied = true)
    (hg : new.gen = s.counts.gen) (hz : (s.core c).held s.counts.gen = 0)
    (hop : op.nextEpoch s.epoch = s.epoch ∧ op.observe new notifTbl = [])
    (hk : ((s.core c).succeed ⟨new.gen,op.nextEpoch s.epoch⟩ op).held s.counts.gen = n) :
    Inv.Counts (s.commit c op new notifTbl) := by
  have hl : (s.commit c op new notifTbl).latch = { s.latch with
      avail := s.latch.avail - n, holds := Function.update s.latch.holds c n } := by
    have hu := holds_update (t := s.commit c op new notifTbl) rfl hg (hap.trans ha.symm)
    rw [if_pos ha, hk] at hu
    exact Latch.ext hop.1 (hap.trans ha.symm) hpre hu (by simp [State.latch, State.commit, hop.2])
  refine ⟨?_,fun hc => ?_,fun _ => ?_,?_⟩
  · simpa [State.commit, hop.1, hg] using h.gen
  · simp [State.commit, hap] at hc
  · simpa [State.commit, hop, hpost] using h.remaining ha
  · rw [hl]
    exact Latch.sound_step h.sound (.enters ha hn (by simpa [State.latch, ha] using hz))

/-- The core's own receive is done with events it held. -/
theorem counts_countDecrement {tag : Tag} {n : Nat} (h : Inv.Counts s)
    (hcur : (s.core c).current = .this tag) (hn : n = (s.core c).rcvMultiCnt) (hpos : 0 < n)
    (hb : s.counts.postCountDecrement n tag.egrpGen = some new) :
    Inv.Counts (s.commit c (.countDecrement tag n) new notifTbl) := by
  obtain ⟨hle,hg,hpost,hpre,hgen,hap⟩ := EgrpCounter.postCountDecrement_some hb
  have ha : s.counts.applied = true := by
    by_contra hna
    have hz := h.closed (by simpa using hna)
    omega
  have hheld : s.latch.holds c = n := by
    simp [State.latch, ha, Core.held_this hcur hg.symm, hn]
  have hr := h.remaining ha
  have hcl := h.sound.balance ha
  have hmem := le_sum s.latch.holds c
  have hgen' : new.gen = BitVec.ofNat _ s.epoch := by rw [hgen, h.gen]
  simp only [State.latch] at hcl
  by_cases hz : new.postCnt = 0
  · rw [if_pos hz] at hap
    have hz' : new.postCnt.toNat = 0 := by simp [hz]
    have hl : (s.commit c (.countDecrement tag n) new notifTbl).latch = { s.latch with
        isOpen := false, avail := 0, holds := fun _ => 0
        cycle := s.latch.record fun cy =>
          { cy with finished := cy.finished + s.latch.holds c, fires := cy.fires + 1 } } := by
      refine Latch.ext rfl hap ?_ (by simp [State.latch, State.commit, hap]) ?_
      · simp only [State.latch] at hmem hheld
        simp only [State.latch, State.commit, hpre]
        omega
      · rw [hheld]
        simp only [State.latch, State.commit, Op.observe, hz, if_true, List.map_cons, List.map_nil,
          List.cons_append, List.nil_append, Op.nextEpoch, cycle_cons, Latch.record]
        simp [Obs.addTo]
    refine ⟨hgen',fun _ => hz',fun hc => ?_,?_⟩
    · simp [State.commit, hap] at hc
    · rw [hl]
      exact Latch.sound_step h.sound (.fires ha (by omega) (by simp only [State.latch] at *; omega))
  · rw [if_neg hz] at hap
    have hz' : new.postCnt.toNat ≠ 0 := fun h0 =>
      hz (BitVec.eq_of_toNat_eq (by simpa using h0))
    have hhist : (s.commit c (.countDecrement tag n) new notifTbl).hist =
        (s.epoch,.postDecremented n) :: s.hist := by
      simp only [State.commit, Op.observe, if_neg hz]
      rfl
    have hl : (s.commit c (.countDecrement tag n) new notifTbl).latch = { s.latch with
        holds := Function.update s.latch.holds c 0
        cycle := s.latch.record fun cy =>
          { cy with finished := cy.finished + s.latch.holds c } } := by
      have hu := holds_update (t := s.commit c (.countDecrement tag n) new notifTbl) rfl hgen hap
      rw [Core.held_null (by rfl), ite_self] at hu
      refine Latch.ext rfl hap (by simp [State.latch, State.commit, hpre]) hu ?_
      simp only [State.latch] at hheld ⊢
      rw [hhist, cycle_cons, hheld]
      rfl
    refine ⟨hgen',fun hc => ?_,fun _ => ?_,?_⟩
    · simp [State.commit, hap, ha] at hc
    · rw [hhist, cycle_cons]
      simp [State.commit, Op.nextEpoch, Obs.addTo]
      omega
    · rw [hl]
      exact Latch.sound_step h.sound (.leaves ha (by omega) (by simp only [State.latch] at *; omega))

theorem counts_increment {tag : Tag} {incr : Nat} (h : Inv.Counts s)
    (hb : s.counts.emEventGroupIncrement incr tag.egrpGen = some new) :
    Inv.Counts (s.commit c (.increment tag incr) new notifTbl) := by
  obtain ⟨-,ha,hpre,hpost,hap,hgen⟩ := EgrpCounter.emEventGroupIncrement_some hb
  have hl : (s.commit c (.increment tag incr) new notifTbl).latch = { s.latch with
      avail := s.latch.avail + incr
      cycle := s.latch.record fun cy => { cy with counted := cy.counted + incr } } := by
    have hu := holds_update (t := s.commit c (.increment tag incr) new notifTbl) rfl hgen
      (hap.trans ha.symm)
    have hk : (if s.counts.applied then ((s.core c).succeed
        ⟨new.gen,(Op.increment tag incr : Op Notif).nextEpoch s.epoch⟩ (.increment tag incr)).held
          s.counts.gen else 0) = s.latch.holds c := rfl
    rw [hk, Function.update_eq_self] at hu
    exact Latch.ext rfl (hap.trans ha.symm) hpre hu (cycle_record (.incremented incr))
  have hr := h.remaining ha
  refine ⟨hgen.trans h.gen,fun hc => ?_,fun _ => ?_,?_⟩
  · simp [State.commit, hap] at hc
  · simp [State.commit, Op.nextEpoch, Op.observe, cycle_cons, Obs.addTo]
    omega
  · rw [hl]
    exact Latch.sound_step h.sound (.adds ha)

theorem counts_abort (h : Inv.Counts s) (hb : s.counts.emEventGroupAbort = some new) :
    Inv.Counts (s.commit c .abort new notifTbl) := by
  obtain ⟨ha,rfl⟩ := EgrpCounter.emEventGroupAbort_some hb
  have hl : (s.commit c .abort { s.counts with preCnt := 0, postCnt := 0, applied := false }
      notifTbl).latch = { s.latch with
      isOpen := false, avail := 0, holds := fun _ => 0
      cycle := s.latch.record fun cy => { cy with cancelled := true } } :=
    Latch.ext rfl rfl (by simp [State.latch, State.commit]) rfl (cycle_record .aborted)
  refine ⟨h.gen,fun _ => rfl,(fun h => by cases h),?_⟩
  rw [hl]
  exact Latch.sound_step h.sound (.cancels ha)

/-- A new cycle. No core can hold events of its generation yet. -/
theorem counts_apply {count : Nat} {tbl : List Notif} (h : Inv.Counts s) (hc : Inv.Cores s)
    (hw : HandledInTime (s.commit c (.apply count tbl) new notifTbl)) (hpos : 0 < count) (hmax : count ≤ egrpCntMax)
    (hb : s.counts.emEventGroupApply count = some new) :
    Inv.Counts (s.commit c (.apply count tbl) new notifTbl) := by
  obtain ⟨ha,hpre,hpost,hap,hgen⟩ := EgrpCounter.emEventGroupApply_some hmax hb
  have hgen' : new.gen = BitVec.ofNat _ (s.epoch+1) := by rw [hgen, h.gen, BitVec.ofNat_add]; rfl
  have hold : ∀ i, (s.core i).held new.gen = 0 := fun i => by
    rcases hcur : (s.core i).current with _ | tag | _
    case this =>
      have hmem := Core.mem_tags_of_current hcur
      have hin : s.epoch+1 < tag.epoch + 2 ^ egrpGenBits := by
        refine hw i tag ?_
        by_cases hi : i = c
        · subst hi
          exact Core.mem_tags_of_current (by simpa [State.commit, Core.succeed] using hcur)
        · simpa [State.commit, hi] using hmem
      have hne := (hc.handled i tag hmem).gen_ne hin
      simp [Core.held, hcur, hgen', hne]
    all_goals simp [Core.held, hcur]
  have hl : (s.commit c (.apply count tbl) new notifTbl).latch = ⟨s.latch.epoch+1,true,count,
      fun _ => 0,Function.update s.latch.cycle (s.latch.epoch+1) { counted := count }⟩ := by
    refine Latch.ext rfl hap hpre ?_ ?_
    · funext i
      have hi := hold i
      by_cases hic : i = c
      · subst hic
        simpa [State.latch, State.commit, hap, Core.succeed, Core.held] using hi
      · simpa [State.latch, State.commit, hap, hic] using hi
    · have hf := h.sound.fresh (s.epoch+1) (Nat.lt_succ_self _)
      simp only [State.latch] at hf
      simp [State.latch, State.commit, Op.observe, Op.nextEpoch, cycle_cons, hf, Obs.addTo]
  refine ⟨hgen',fun hcl => ?_,fun _ => ?_,?_⟩
  · simp [State.commit, hap] at hcl
  · have hf := h.sound.fresh (s.epoch+1) (Nat.lt_succ_self _)
    simp only [State.latch] at hf
    simp [State.commit, Op.observe, Op.nextEpoch, cycle_cons, hf, Obs.addTo, hpost]
  · rw [hl]
    exact Latch.sound_step h.sound (.opens ha hpos)

omit [DecidableEq ι] in
/-- `event_group_count_decrement` finds the word expired only for a core that holds nothing. -/
theorem held_eq_zero_of_expired {tag : Tag} {n : Nat} (h : Inv.Counts s)
    (ha : s.counts.applied = true) (hcur : (s.core c).current = .this tag)
    (hn : n = (s.core c).rcvMultiCnt) (hb : s.counts.postCountDecrement n tag.egrpGen = none) :
    (s.core c).held s.counts.gen = 0 := by
  by_cases hg : tag.egrpGen = s.counts.gen
  · have hle := held_le_postCnt h ha c
    rw [Core.held_this hcur hg, ← hn] at hle
    have hv := EgrpCounter.validPostCnt_iff.2 ⟨hle,hg.symm⟩
    simp [EgrpCounter.postCountDecrement, hv] at hb
  · simp [Core.held, hcur, hg]

theorem counts_failed {op : Op Notif} {x : Option (EgrpCounter × List Notif)} (h : Inv.Counts s)
    (hc : Inv.Cores s) (hp : (s.core c).pending = some ⟨op,x⟩) (hb : op.body s.counts = none) :
    Inv.Counts (s.setCore c ((s.core c).fail op)) := by
  refine counts_local h rfl rfl rfl rfl fun ha => ?_
  have hf := (hc.ok c).pending _ hp
  cases op with
  | setLocal tag n =>
    rw [Core.held_null (by rfl), Core.held_null ((hc.ok c).dispatcher hf.1)]
  | countDecrement tag n =>
    rw [Core.held_null (by rfl), held_eq_zero_of_expired h ha hf.1 hf.2 hb]
  | _ => rfl

theorem counts_committed {op : Op Notif} {x : Option (EgrpCounter × List Notif)}
    (h : Inv.Counts s) (hc : Inv.Cores s) (hp : (s.core c).pending = some ⟨op,x⟩)
    (hb : op.body s.counts = some new) (hw : HandledInTime (s.commit c op new notifTbl)) :
    Inv.Counts (s.commit c op new notifTbl) := by
  have hf := (hc.ok c).pending _ hp
  cases op with
  | setLocal tag n =>
    obtain ⟨hle,ha,hg,hpre,hpost,hap,hgen⟩ := EgrpCounter.preCountDecrement_some hb
    refine counts_take h ha hle hpre hpost hap hgen (Core.held_null ((hc.ok c).dispatcher hf.1))
      ⟨rfl,rfl⟩ ?_
    rw [Core.held_this rfl hg.symm]
    exact hf.2.1.symm
  | assign n =>
    obtain ⟨hle,ha,hpre,hpost,hap,hgen⟩ := EgrpCounter.emEventGroupAssign_some hb
    refine counts_take h ha hle hpre hpost hap hgen (Core.held_null hf.1) ⟨rfl,rfl⟩ ?_
    rw [Core.held_this rfl hgen]
    exact ((hc.ok c).receive n hf.2).1
  | countDecrement tag n =>
    exact counts_countDecrement h hf.1 hf.2 (hf.2 ▸ (hc.ok c).positive tag hf.1) hb
  | apply count tbl => exact counts_apply h hc hw hf.1 hf.2 hb
  | increment tag incr => exact counts_increment h hb
  | abort => exact counts_abort h hb

theorem counts_moves (h : Inv.Counts s) (hc : Inv.Cores s) (hw : HandledInTime t) (hm : Moves s t) :
    Inv.Counts t := by
  cases hm with
  | tagged => exact ⟨h.gen,h.closed,h.remaining,h.sound⟩
  | called f hp _ hk => exact counts_local h rfl rfl rfl rfl fun _ => Core.call_held _ (hc.ok _) hp hk
  | failed hp hb => exact counts_failed h hc hp hb
  | loaded => exact counts_local h rfl rfl rfl rfl fun _ => rfl
  | retried => exact counts_local h rfl rfl rfl rfl fun _ => rfl
  | committed hp hb => exact counts_committed h hc hp hb hw

theorem reachable_inv (h : (machine ι Notif).ReachableVia (fun _ _ t => HandledInTime t) s) :
    Inv.Cores s ∧ Inv.Counts s :=
  h.invariant (I := fun s => Inv.Cores s ∧ Inv.Counts s)
    (fun _ hi => ⟨cores_initial hi,counts_initial hi⟩) fun _ _ _ hi hst hw => by
      have hm := moves_of_step hst
      have hc := counts_moves hi.2 hi.1 hw hm
      exact ⟨cores_moves hi.1 hi.2.gen hc.gen hm,hc⟩

/-- Event group completion is exact in every run that handles tags in time. -/
theorem completion_exact (h : (machine ι Notif).ReachableVia (fun _ _ t => HandledInTime t) s) :
    (s.counts.applied = true →
      s.counts.preCnt.toNat ≤ s.counts.postCnt.toNat ∧ s.counts.postCnt.toNat ≤ egrpCntMax ∧
      s.counts.postCnt.toNat - s.counts.preCnt.toNat = ∑ c, (s.core c).held s.counts.gen) ∧
    ∀ g, (cycle s.hist g).fires ≤ 1 ∧
      ((cycle s.hist g).cancelled = true → (cycle s.hist g).fires = 0) ∧
      ((cycle s.hist g).fires = 1 ↔
        0 < (cycle s.hist g).counted ∧ (cycle s.hist g).finished = (cycle s.hist g).counted) := by
  obtain ⟨-,hi⟩ := reachable_inv h
  refine ⟨fun ha => ?_,fun g => ?_⟩
  · have hb := hi.sound.balance ha
    have hr := hi.remaining ha
    simp only [State.latch, ha, if_true] at hb
    exact ⟨by omega,s.counts.postCnt_le_max,by omega⟩
  · have hx := hi.sound.exact g
    exact ⟨hx.once,hx.not_cancelled,hx.fired_iff⟩

instance (s : State ι Notif) : Decidable (HandledInTime s) :=
  inferInstanceAs (Decidable (∀ c, ∀ tag ∈ (s.core c).tags, s.epoch < tag.epoch + 2 ^ egrpGenBits))

/-- The group is applied with three events; core 0 receives two of them. -/
private def started : Option (State (Fin 2) Nat) :=
  System.exec State.step (fun _ _ t => decide (HandledInTime t))
    ⟨⟨0,0,false,0⟩,[],fun _ => {},[],0,[]⟩
    [.call 1 (.apply 3 [7]), .load 1, .cas 1, .tag,
      .call 0 (.receive (.this ⟨1,1⟩) 2), .load 0, .cas 0]

private theorem started_isSome : started.isSome = true := by decide

private theorem started_reachable : (machine (Fin 2) Nat).ReachableVia
    (fun _ _ t => HandledInTime t) (started.get started_isSome) :=
  System.ReachableVia.exec (fun _ _ _ h => of_decide_eq_true h)
    (.start ⟨⟨rfl,rfl,rfl⟩,rfl,fun _ => rfl,rfl,rfl⟩) (Option.some_get started_isSome).symm

theorem completion_exact_started :
    (started.get started_isSome).counts.postCnt.toNat = 3 ∧
      (started.get started_isSome).counts.postCnt.toNat -
        (started.get started_isSome).counts.preCnt.toNat =
      ∑ c, ((started.get started_isSome).core c).held (started.get started_isSome).counts.gen :=
  ⟨by decide,((completion_exact started_reachable).1 (by decide)).2.2⟩

end EmOdp.EventGroup
