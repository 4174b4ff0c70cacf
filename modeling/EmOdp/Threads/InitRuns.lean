import EmOdp.Threads.Consistent

/-! Runs of local initialisations and terminations, each of which may fail at any step. -/
namespace EmOdp.Threads
open Lib

namespace State
variable {s : State} {cfg : Config} {t c : Nat} {m : CoreMap} {conf : ConfLocal} {a : Answers}

/-- The map tells of exactly the threads that are initialised. -/
structure Inv (s : State) (cfg : Config) : Prop where
  map : s.map.Consistent
  holds : ∀ t c, s.Holds t c ↔ c ∈ s.map.logicMask ∧ s.map.odpThr c = t
  worker : ∀ t c, s.Holds t c → ((s.locm t).coreType = some .worker ↔ c ∈ s.map.workerMask)
  external : ∀ t, (s.locm t).isCoreLocalInited = true ∧ (s.locm t).coreType = some .external ↔
    t ∈ s.map.thrmaskExtthrs
  inited : ∀ t, (s.locm t).isCoreLocalInited = true →
    (s.locm t).coreType = some .external ∨ ∃ c, s.Holds t c
  cores : ∀ c ∈ s.map.logicMask, c < cfg.coreCount
  threads : ∀ t, (s.locm t).isCoreLocalInited = true → t < cfg.thrMax

theorem Initial.inv (hs : s.Initial) : s.Inv cfg := by
  obtain rfl := hs
  have hno : ∀ t c, ¬State.Holds ⟨{},fun _ => {}⟩ t c := fun _ _ h => Bool.false_ne_true h.1
  refine ⟨⟨fun _ hc => absurd hc (Finset.notMem_empty _),fun _ ht => absurd ht (Finset.notMem_empty _),rfl,
    rfl,Finset.disjoint_empty_left _,rfl,rfl,rfl,rfl,rfl⟩,fun t c => ?_,fun t c h => absurd h (hno t c),
    fun t => ?_,fun t h => absurd h Bool.false_ne_true,fun _ hc => absurd hc (Finset.notMem_empty _),
    fun t h => absurd h Bool.false_ne_true⟩
  · exact iff_of_false (hno t c) fun h => Finset.notMem_empty _ h.1
  · exact iff_of_false (fun h => Bool.false_ne_true h.1) (Finset.notMem_empty _)

theorem Inv.emcore_inited (h : s.Inv cfg) (ht : t ∈ s.map.thrmaskEmcores) :
    (s.locm t).isCoreLocalInited = true ∧ (s.locm t).coreType ≠ some .external := by
  obtain ⟨c,hc⟩ := h.map.mem_emcores.1 ht
  obtain ⟨hin,-,htype⟩ := (h.holds t c).2 hc
  refine ⟨hin,?_⟩
  rcases htype with htype | htype <;> rw [htype] <;> decide

theorem Inv.extthr_inited (h : s.Inv cfg) (ht : t ∈ s.map.thrmaskExtthrs) :
    (s.locm t).isCoreLocalInited = true := ((h.external t).2 ht).1

theorem Inv.card_le (h : s.Inv cfg) : s.map.logicMask.card ≤ 65536 := by
  refine Nat.le_trans ?_ (Nat.le_trans cfg.coreCount_thr cfg.thrMax_le)
  rw [← Finset.card_range cfg.coreCount]
  exact Finset.card_le_card fun c hc => Finset.mem_range.2 (h.cores c hc)

theorem Inv.card_extthrs (h : s.Inv cfg) : s.map.thrmaskExtthrs.card ≤ 65536 := by
  refine Nat.le_trans ?_ cfg.thrMax_le
  rw [← Finset.card_range cfg.thrMax]
  exact Finset.card_le_card fun u hu => Finset.mem_range.2 (h.threads u (h.extthr_inited hu))

theorem Inv.noSharing (h : s.Inv cfg) : s.NoSharing := by
  intro t u c ht hu
  exact ((h.holds t c).1 ht).2.symm.trans ((h.holds u c).1 hu).2

/-- An EM core that terminates is taken out of the map. -/
theorem Inv.term_core (h : s.Inv cfg) (hin : (s.locm t).isCoreLocalInited = true)
    (htype : (s.locm t).coreType ≠ some .external) : t ∈ s.map.thrmaskEmcores ∧
      (s.emTermLocal t true).1.map.thrmaskEmcores = s.map.thrmaskEmcores.erase t ∧
        ((s.emTermLocal t true).1.locm t).isCoreLocalInited = false ∧
          ∀ v, v ≠ t → (s.emTermLocal t true).1.locm v = s.locm v := by
  obtain ⟨c,hc⟩ := (h.inited t hin).resolve_left htype
  have hterm : (s.emTermLocal t true).1 = s.setLocm t (s.map.termLocal t (s.locm t)) {} := by
    rw [State.emTermLocal, if_neg (Bool.not_eq_false _ ▸ hin)]
    rcases hc.2.2 with hc | hc <;> rw [hc]
  refine ⟨h.map.mem_emcores.2 ⟨c,(h.holds t c).1 hc⟩,?_,?_,fun v hv => ?_⟩
  · rw [hterm, State.setLocm, CoreMap.termLocal_eq]
  · rw [hterm]
    exact congrArg Locm.isCoreLocalInited (Function.update_self t _ s.locm)
  · rw [hterm]
    exact Function.update_of_ne hv ..

theorem mapInitLocal_rejected (hn : s.map.currentCoreCount ≤ 65536) (h : s.Rejected cfg t conf a) :
    (s.map.initLocal cfg t conf a).1 = s.map ∧ (s.map.initLocal cfg t conf a).2.2 ≠ .ok := by
  rw [CoreMap.initLocal]
  split
  · exact ⟨rfl,(by decide : Status.badId ≠ .ok)⟩
  · rename_i hphys
    split
    · rename_i haff
      exact ⟨rfl,haff⟩
    · rename_i haff
      split
      · exact ⟨rfl,(by decide : Status.libFailed ≠ .ok)⟩
      · rename_i hthr
        split
        · exact ⟨rfl,(by decide : Status.libFailed ≠ .ok)⟩
        · rename_i hpath
          split
          · exact ⟨rfl,(by decide : Status.tooSmall ≠ .ok)⟩
          · rename_i c hid
            split
            · refine ⟨?_,(by decide : Status.tooLarge ≠ .ok)⟩
              rw [decU32_incU32 hn]
            · rename_i hfit
              rcases h with h | h | h | h | h | h
              · exact absurd h hphys
              · exact absurd h haff
              · exact absurd h hthr
              · exact absurd h hpath
              · rw [hid] at h
                cases h
              · exact absurd h hfit

theorem mapInitLocal_entered (h : ¬s.Rejected cfg t conf a) : t < cfg.thrMax ∧
    ∃ c, s.map.determineCoreId cfg conf.coreId = some c ∧
      s.map.initLocal cfg t conf a = (s.map.addCore t c conf.coreType,some c,.ok) := by
  simp only [Rejected, not_or] at h
  obtain ⟨hphys,haff,hthr,hpath,hid,hfit⟩ := h
  obtain ⟨c,hc⟩ := Option.ne_none_iff_exists'.1 hid
  refine ⟨Nat.lt_of_not_le hthr,c,hc,?_⟩
  rw [CoreMap.initLocal, if_neg hphys, if_neg haff, if_neg hthr, if_neg hpath, hc]
  exact if_neg hfit

/-- A thread that is not initialised writes its local memory. -/
theorem Inv.writeLocm (h : s.Inv cfg) (ht : (s.locm t).isCoreLocalInited = false) {locm : Locm}
    (hlocm : locm.isCoreLocalInited = false) : (s.setLocm t s.map locm).Inv cfg := by
  have hself : (s.setLocm t s.map locm).locm t = locm := Function.update_self ..
  have hother {u : Nat} (hu : u ≠ t) : (s.setLocm t s.map locm).locm u = s.locm u :=
    Function.update_of_ne hu ..
  have hholds (u c : Nat) : (s.setLocm t s.map locm).Holds u c ↔ s.Holds u c := by
    by_cases hu : u = t
    · obtain rfl := hu
      rw [Holds, Holds, hself, hlocm, ht]
      exact iff_of_false (fun hc => Bool.false_ne_true hc.1) fun hc => Bool.false_ne_true hc.1
    · rw [Holds, Holds, hother hu]
  have hne {u : Nat} (hu : ((s.setLocm t s.map locm).locm u).isCoreLocalInited = true) : u ≠ t := by
    rintro rfl
    rw [hself, hlocm] at hu
    cases hu
  refine ⟨h.map,fun u c => (hholds u c).trans (h.holds u c),fun u c hu => ?_,fun u => ?_,fun u hu => ?_,
    h.cores,fun u hu => ?_⟩
  · rw [hother (hne hu.1)]
    exact h.worker u c ((hholds u c).1 hu)
  · refine Iff.trans ?_ (h.external u)
    by_cases hu : u = t
    · obtain rfl := hu
      rw [hself, hlocm, ht]
      exact iff_of_false (fun hc => Bool.false_ne_true hc.1) fun hc => Bool.false_ne_true hc.1
    · rw [hother hu]
  · have hut := hne hu
    rw [hother hut] at hu ⊢
    exact (h.inited u hu).imp_right fun ⟨c,hc⟩ => ⟨c,(hholds u c).2 hc⟩
  · rw [hother (hne hu)] at hu
    exact h.threads u hu

/-- A thread becomes an EM core. -/
theorem Inv.addCore (h : s.Inv cfg) (ht : (s.locm t).isCoreLocalInited = false) (hthr : t < cfg.thrMax)
    (hc : c < cfg.coreCount) (hnot : c ∉ s.map.logicMask) {coreType : CoreType}
    (htype : coreType = .worker ∨ coreType = .control) :
    (s.setLocm t (s.map.addCore t c coreType) ⟨c,some coreType,true⟩).Inv cfg := by
  have hemcore : t ∉ s.map.thrmaskEmcores := fun hm =>
    Bool.false_ne_true (ht.symm.trans (h.emcore_inited hm).1)
  have hc' : c < 256 := Nat.lt_of_lt_of_le hc cfg.coreCount_le
  have ht' : t < 65536 := Nat.lt_of_lt_of_le hthr cfg.thrMax_le
  have hcons := h.map.addCore coreType hnot hemcore hc' ht' h.card_le
  have hself : (s.setLocm t (s.map.addCore t c coreType) ⟨c,some coreType,true⟩).locm t =
      ⟨c,some coreType,true⟩ := Function.update_self ..
  have hother {u : Nat} (hu : u ≠ t) :
      (s.setLocm t (s.map.addCore t c coreType) ⟨c,some coreType,true⟩).locm u = s.locm u :=
    Function.update_of_ne hu ..
  have hne {u d : Nat} (hu : s.Holds u d) : u ≠ t ∧ d ≠ c := by
    refine ⟨?_,?_⟩
    · rintro rfl
      exact Bool.false_ne_true (ht.symm.trans hu.1)
    · rintro rfl
      exact hnot ((h.holds u d).1 hu).1
  have hholds (u d : Nat) :
      (s.setLocm t (s.map.addCore t c coreType) ⟨c,some coreType,true⟩).Holds u d ↔
        u = t ∧ d = c ∨ s.Holds u d := by
    by_cases hu : u = t
    · obtain rfl := hu
      rw [Holds, hself]
      constructor
      · rintro ⟨-,hd,-⟩
        exact .inl ⟨rfl,(Int.ofNat_inj.1 hd).symm⟩
      · rintro (⟨-,rfl⟩ | hd)
        · exact ⟨rfl,rfl,htype.imp (congrArg some) (congrArg some)⟩
        · exact absurd rfl (hne hd).1
    · rw [Holds, hother hu, ← Holds]
      exact (or_iff_right fun hc => hu hc.1).symm
  refine ⟨hcons,fun u d => ?_,fun u d hu => ?_,fun u => ?_,fun u hu => ?_,fun d hd => ?_,fun u hu => ?_⟩
  · rw [hholds, h.holds]
    show _ ↔ d ∈ (s.map.addCore t c coreType).logicMask ∧ (s.map.addCore t c coreType).odpThr d = u
    rw [CoreMap.addCore_eq]
    dsimp only
    rw [Finset.mem_insert, Nat.mod_eq_of_lt ht']
    by_cases hd : d = c
    · obtain rfl := hd
      rw [Function.update_self]
      constructor
      · rintro (⟨rfl,-⟩ | ⟨hd,-⟩)
        · exact ⟨.inl rfl,rfl⟩
        · exact absurd hd hnot
      · rintro ⟨-,rfl⟩
        exact .inl ⟨rfl,rfl⟩
    · rw [Function.update_of_ne hd, or_iff_right fun hc => hd hc.2, or_iff_right hd]
  · have hmask : (s.map.addCore t c coreType).workerMask =
        if coreType = .worker then insert c s.map.workerMask else s.map.workerMask := by
      rw [CoreMap.addCore_eq]
    show _ ↔ d ∈ (s.map.addCore t c coreType).workerMask
    rw [hmask]
    rcases (hholds u d).1 hu with ⟨rfl,rfl⟩ | hu
    · have hnotw : d ∉ s.map.workerMask := fun hw => hnot (h.map.mem_logicMask.2 (.inl hw))
      rw [hself, Option.some.injEq]
      split
      · rename_i hw
        exact iff_of_true hw (Finset.mem_insert_self ..)
      · rename_i hw
        exact iff_of_false hw hnotw
    · obtain ⟨hut,hdc⟩ := hne hu
      rw [hother hut, h.worker u d hu]
      split
      · rw [Finset.mem_insert, or_iff_right hdc]
      · exact Iff.rfl
  · have hext : (s.map.addCore t c coreType).thrmaskExtthrs = s.map.thrmaskExtthrs := by
      rw [CoreMap.addCore_eq]
    show _ ↔ u ∈ (s.map.addCore t c coreType).thrmaskExtthrs
    rw [hext, ← h.external]
    by_cases hu : u = t
    · obtain rfl := hu
      rw [hself, ht]
      refine iff_of_false (fun hc => ?_) fun hc => Bool.false_ne_true hc.1
      rcases htype with rfl | rfl <;> cases hc.2
    · rw [hother hu]
  · by_cases hut : u = t
    · exact .inr ⟨c,(hholds u c).2 (.inl ⟨hut,rfl⟩)⟩
    · rw [hother hut] at hu ⊢
      exact (h.inited u hu).imp_right fun ⟨d,hd⟩ => ⟨d,(hholds u d).2 (.inr hd)⟩
  · have hmask : (s.map.addCore t c coreType).logicMask = insert c s.map.logicMask := by
      rw [CoreMap.addCore_eq]
    replace hd : d ∈ (s.map.addCore t c coreType).logicMask := hd
    rw [hmask, Finset.mem_insert] at hd
    rcases hd with rfl | hd
    · exact hc
    · exact h.cores d hd
  · by_cases hut : u = t
    · exact hut ▸ hthr
    · rw [hother hut] at hu
      exact h.threads u hu

/-- A thread becomes an external thread. -/
theorem Inv.addExtthr (h : s.Inv cfg) (ht : (s.locm t).isCoreLocalInited = false) (hthr : t < cfg.thrMax) :
    (s.setLocm t { s.map with
      externalThreadCount := incU32 s.map.externalThreadCount
      thrmaskExtthrs := insert t s.map.thrmaskExtthrs
      thrmaskAll := insert t s.map.thrmaskAll } ⟨-1,some .external,true⟩).Inv cfg := by
  have hnot : t ∉ s.map.thrmaskExtthrs := fun hm =>
    Bool.false_ne_true (ht.symm.trans (h.extthr_inited hm))
  have hcons := h.map.addExtthr hnot h.card_extthrs
  generalize hm : { s.map with
      externalThreadCount := incU32 s.map.externalThreadCount
      thrmaskExtthrs := insert t s.map.thrmaskExtthrs
      thrmaskAll := insert t s.map.thrmaskAll } = m at hcons ⊢
  have hself : (s.setLocm t m ⟨-1,some .external,true⟩).locm t = ⟨-1,some .external,true⟩ :=
    Function.update_self ..
  have hother {u : Nat} (hu : u ≠ t) :
      (s.setLocm t m ⟨-1,some .external,true⟩).locm u = s.locm u := Function.update_of_ne hu ..
  have hholds (u d : Nat) : (s.setLocm t m ⟨-1,some .external,true⟩).Holds u d ↔ s.Holds u d := by
    by_cases hu : u = t
    · obtain rfl := hu
      rw [Holds, Holds, hself, ht]
      refine iff_of_false (fun hc => ?_) fun hc => Bool.false_ne_true hc.1
      rcases hc.2.2 with hc | hc <;> cases hc
    · rw [Holds, Holds, hother hu]
  have hne {u d : Nat} (hu : s.Holds u d) : u ≠ t := by
    rintro rfl
    exact Bool.false_ne_true (ht.symm.trans hu.1)
  refine ⟨hcons,fun u d => ?_,fun u d hu => ?_,fun u => ?_,fun u hu => ?_,fun d hd => ?_,fun u hu => ?_⟩
  · rw [hholds, h.holds, State.setLocm, ← hm]
  · rw [hholds] at hu
    rw [hother (hne hu), State.setLocm, ← hm]
    exact h.worker u d hu
  · have hext : m.thrmaskExtthrs = insert t s.map.thrmaskExtthrs := by rw [← hm]
    show _ ↔ u ∈ m.thrmaskExtthrs
    rw [hext, Finset.mem_insert, ← h.external]
    by_cases hu : u = t
    · obtain rfl := hu
      rw [hself]
      exact iff_of_true ⟨rfl,rfl⟩ (.inl rfl)
    · rw [hother hu, or_iff_right hu]
  · by_cases hut : u = t
    · obtain rfl := hut
      rw [hself]
      exact .inl rfl
    · rw [hother hut] at hu ⊢
      exact (h.inited u hu).imp_right fun ⟨d,hd⟩ => ⟨d,(hholds u d).2 hd⟩
  · rw [State.setLocm, ← hm] at hd
    exact h.cores d hd
  · by_cases hut : u = t
    · exact hut ▸ hthr
    · rw [hother hut] at hu
      exact h.threads u hu

/-- A thread terminates: the map is left with the other threads. -/
theorem Inv.term (h : s.Inv cfg) {m : CoreMap} (hcons : m.Consistent)
    (hholds : ∀ u d, u ≠ t → (s.Holds u d ↔ d ∈ m.logicMask ∧ m.odpThr d = u))
    (hgone : ∀ d ∈ m.logicMask, m.odpThr d ≠ t) (hmask : m.logicMask ⊆ s.map.logicMask)
    (hworker : ∀ u d, u ≠ t → s.Holds u d → (d ∈ m.workerMask ↔ d ∈ s.map.workerMask))
    (hext : m.thrmaskExtthrs = s.map.thrmaskExtthrs.erase t) : (s.setLocm t m {}).Inv cfg := by
  have hself : (s.setLocm t m {}).locm t = {} := Function.update_self ..
  have hother {u : Nat} (hu : u ≠ t) : (s.setLocm t m {}).locm u = s.locm u := Function.update_of_ne hu ..
  have hne {u : Nat} (hu : ((s.setLocm t m {}).locm u).isCoreLocalInited = true) : u ≠ t := by
    rintro rfl
    rw [hself] at hu
    cases hu
  have hsame {u : Nat} (hu : u ≠ t) (d : Nat) : (s.setLocm t m {}).Holds u d ↔ s.Holds u d := by
    rw [Holds, Holds, hother hu]
  refine ⟨hcons,fun u d => ?_,fun u d hu => ?_,fun u => ?_,fun u hu => ?_,fun d hd => h.cores d (hmask hd),
    fun u hu => ?_⟩
  · by_cases hu : u = t
    · obtain rfl := hu
      exact iff_of_false (fun hc => hne hc.1 rfl) fun hc => hgone d hc.1 hc.2
    · exact (hsame hu d).trans (hholds u d hu)
  · have hut := hne hu.1
    rw [hsame hut] at hu
    rw [hother hut]
    exact (h.worker u d hu).trans (hworker u d hut hu).symm
  · show _ ↔ u ∈ m.thrmaskExtthrs
    rw [hext, Finset.mem_erase, ← h.external]
    by_cases hu : u = t
    · obtain rfl := hu
      exact iff_of_false (fun hc => hne hc.1 rfl) fun hc => hc.1 rfl
    · rw [hother hu, and_iff_right hu]
  · have hut := hne hu
    rw [hother hut] at hu ⊢
    exact (h.inited u hu).imp_right fun ⟨d,hd⟩ => ⟨d,(hsame hut d).2 hd⟩
  · rw [hother (hne hu)] at hu
    exact h.threads u hu

theorem Inv.emTermLocal (h : s.Inv cfg) {later : Bool} : (s.emTermLocal t later).1.Inv cfg := by
  rw [State.emTermLocal]
  split
  · exact h
  · rename_i hin
    have hin := Bool.of_not_eq_false hin
    rcases h.inited t hin with hext | ⟨c,hc⟩
    · rw [hext]
      have hmem := (h.external t).1 ⟨hin,hext⟩
      have hemcore : t ∉ s.map.thrmaskEmcores := fun hm => (h.emcore_inited hm).2 hext
      refine h.term (h.map.termExtthr hmem hemcore) (fun u d _ => h.holds u d) (fun d hd hdt => ?_)
        (Finset.Subset.refl _) (fun _ _ _ _ => Iff.rfl) rfl
      exact hemcore (h.map.mem_emcores.2 ⟨d,hd,hdt⟩)
    · obtain ⟨hmask,hodp⟩ := (h.holds t c).1 hc
      have hnotext : t ∉ s.map.thrmaskExtthrs := by
        intro hm
        have htype := ((h.external t).2 hm).2
        rcases hc.2.2 with hc | hc <;> cases htype.symm.trans hc
      have hid : (s.locm t).coreId.toNat = c := by rw [hc.2.1, Int.toNat_natCast]
      have hterm : (s.setLocm t (s.map.termLocal t (s.locm t)) {}).Inv cfg := by
        have hmap := @CoreMap.termLocal_eq s.map t (s.locm t)
        rw [hid] at hmap
        refine h.term (h.map.termLocal hc.2.1 hmask hodp (h.worker t c hc) hnotext)
          (fun u d hu => ?_) (fun d hd hdt => ?_) ?_ (fun u d hu hd => ?_) ?_
        · rw [h.holds, hmap]
          dsimp only
          by_cases hdc : d = c
          · obtain rfl := hdc
            refine iff_of_false (fun hd => hu ?_) fun hd => Finset.notMem_erase d _ hd.1
            exact hd.2.symm.trans hodp
          · rw [Function.update_of_ne hdc, Finset.mem_erase, and_iff_right hdc]
        · rw [hmap] at hd hdt
          obtain ⟨hdc,hd⟩ := Finset.mem_erase.1 hd
          dsimp only at hdt
          rw [Function.update_of_ne hdc] at hdt
          rw [← h.map.logic_odpThr d hd, hdt, ← hodp, h.map.logic_odpThr c hmask] at hdc
          exact hdc rfl
        · rw [hmap]
          exact Finset.erase_subset ..
        · have hdc : d ≠ c := by
            rintro rfl
            exact hu (h.noSharing u t d hd hc)
          rw [hmap]
          dsimp only
          split
          · rw [Finset.mem_erase, and_iff_right hdc]
          · exact Iff.rfl
        · rw [hmap]
          exact (Finset.erase_eq_of_notMem hnotext).symm
      rcases hc.2.2 with htype | htype
      · rw [htype]
        exact hterm
      · rw [htype]
        exact hterm

/-- `init_local` of a thread that does not get into the map -/
theorem initLocal_early (hn : s.map.currentCoreCount ≤ 65536)
    (h : a.thrMem ≠ .ok ∨ a.ctrlQueue ≠ .ok ∨ s.Rejected cfg t conf a) :
    (s.initLocal cfg t conf a).2 ≠ .ok ∧ ∃ locm : Locm, locm.isCoreLocalInited = false ∧
      (s.initLocal cfg t conf a).1 = s.setLocm t s.map locm := by
  rw [initLocal]
  split
  · exact ⟨(by decide : Status.libFailed ≠ .ok),_,rfl,rfl⟩
  · rename_i hmem
    dsimp only
    split
    · exact ⟨(by decide : Status.libFailed ≠ .ok),_,rfl,rfl⟩
    · rename_i hq
      obtain ⟨hmap,hstat⟩ := mapInitLocal_rejected hn ((h.resolve_left hmem).resolve_left hq)
      rw [if_pos hstat, hmap]
      refine ⟨(by decide : Status.libFailed ≠ .ok),_,?_,rfl⟩
      split <;> rfl

/-- `init_local` of a thread that becomes an EM core, unless a later step fails -/
theorem initLocal_entered (h : ¬(a.thrMem ≠ .ok ∨ a.ctrlQueue ≠ .ok ∨ s.Rejected cfg t conf a)) :
    t < cfg.thrMax ∧ ∃ c, s.map.determineCoreId cfg conf.coreId = some c ∧
      s.initLocal cfg t conf a = (s.setLocm t (s.map.addCore t c conf.coreType)
        ⟨c,some conf.coreType,a.laterLocal = .ok⟩,a.laterLocal) := by
  obtain ⟨hmem,h⟩ := not_or.1 h
  obtain ⟨hq,h⟩ := not_or.1 h
  obtain ⟨hthr,c,hc,heq⟩ := mapInitLocal_entered h
  refine ⟨hthr,c,hc,?_⟩
  rw [initLocal, if_neg hmem]
  dsimp only
  rw [if_neg hq, heq]
  exact if_neg (not_not.2 rfl)

variable (conf) in
theorem initExtthr_early (h : a.thrMem ≠ .ok ∨ a.ctrlQueue ≠ .ok ∨ cfg.thrMax ≤ t) :
    (s.initExtthr cfg t conf a).2 ≠ .ok ∧ ∃ locm : Locm, locm.isCoreLocalInited = false ∧
      (s.initExtthr cfg t conf a).1 = s.setLocm t s.map locm := by
  rw [initExtthr]
  split
  · exact ⟨(by decide : Status.libFailed ≠ .ok),_,rfl,rfl⟩
  · rename_i hmem
    dsimp only
    split
    · exact ⟨(by decide : Status.libFailed ≠ .ok),_,rfl,rfl⟩
    · rename_i hq
      rw [CoreMap.initExtthr, if_pos ((h.resolve_left hmem).resolve_left hq)]
      exact ⟨(by decide : Status.libFailed ≠ .ok),_,rfl,rfl⟩

variable (conf) in
theorem initExtthr_entered (h : ¬(a.thrMem ≠ .ok ∨ a.ctrlQueue ≠ .ok ∨ cfg.thrMax ≤ t)) :
    t < cfg.thrMax ∧ s.initExtthr cfg t conf a = (s.setLocm t { s.map with
      externalThreadCount := incU32 s.map.externalThreadCount
      thrmaskExtthrs := insert t s.map.thrmaskExtthrs
      thrmaskAll := insert t s.map.thrmaskAll }
      ⟨-1,some conf.coreType,a.laterExtthr = .ok⟩,a.laterExtthr) := by
  obtain ⟨hmem,h⟩ := not_or.1 h
  obtain ⟨hq,hthr⟩ := not_or.1 h
  refine ⟨Nat.lt_of_not_le hthr,?_⟩
  rw [initExtthr, if_neg hmem]
  dsimp only
  rw [if_neg hq, CoreMap.initExtthr, if_neg hthr]
  exact if_neg (not_not.2 rfl)

/-- `em_init_local` of a thread that does not get into the map -/
theorem emInitLocal_early (hn : s.map.currentCoreCount ≤ 65536) {odpType : OdpThreadType}
    (h : s.FailsEarly cfg t odpType conf a) : (s.emInitLocal cfg t odpType conf a).2 ≠ .ok ∧
      ((s.emInitLocal cfg t odpType conf a).1 = s ∨ (s.locm t).isCoreLocalInited = false ∧
        ∃ locm : Locm, locm.isCoreLocalInited = false ∧
          (s.emInitLocal cfg t odpType conf a).1 = s.setLocm t s.map locm) := by
  rw [FailsEarly] at h
  rw [emInitLocal]
  split
  · exact ⟨(by decide : Status.badArg ≠ .ok),.inl rfl⟩
  · rename_i hid
    split
    · exact ⟨(by decide : Status.badState ≠ .ok),.inl rfl⟩
    · rename_i hin
      have h := (h.resolve_left hid).resolve_left hin
      have hin := Bool.of_not_eq_true hin
      cases hty : conf.coreType with
      | worker =>
        dsimp only
        split
        · exact ⟨(by decide : Status.badType ≠ .ok),.inl rfl⟩
        · rename_i hodp
          rw [hty] at h
          obtain ⟨hstat,hlocm⟩ := initLocal_early hn
            (h.resolve_left fun hc => (hc.1 (not_not.1 hodp)) rfl)
          exact ⟨hstat,.inr ⟨hin,hlocm⟩⟩
      | control =>
        dsimp only
        split
        · exact ⟨(by decide : Status.badType ≠ .ok),.inl rfl⟩
        · rename_i hodp
          rw [hty] at h
          have hworker : ¬(odpType = .worker ↔ CoreType.control ≠ .worker) := by
            rw [not_not.1 hodp]
            decide
          obtain ⟨hstat,hlocm⟩ := initLocal_early hn (h.resolve_left hworker)
          exact ⟨hstat,.inr ⟨hin,hlocm⟩⟩
      | external =>
        dsimp only
        split
        · exact ⟨(by decide : Status.badType ≠ .ok),.inl rfl⟩
        · rename_i hodp
          rw [hty] at h
          have hworker : ¬(odpType = .worker ↔ CoreType.external ≠ .worker) := by
            rw [not_not.1 hodp]
            decide
          obtain ⟨hstat,hlocm⟩ := initExtthr_early conf (h.resolve_left hworker)
          exact ⟨hstat,.inr ⟨hin,hlocm⟩⟩

/-- `em_init_local` of a thread that gets into the map -/
theorem emInitLocal_entered {odpType : OdpThreadType} (h : ¬s.FailsEarly cfg t odpType conf a) :
    (s.locm t).isCoreLocalInited = false ∧ t < cfg.thrMax ∧
      (conf.coreType = .external ∧ s.emInitLocal cfg t odpType conf a = (s.setLocm t { s.map with
        externalThreadCount := incU32 s.map.externalThreadCount
        thrmaskExtthrs := insert t s.map.thrmaskExtthrs
        thrmaskAll := insert t s.map.thrmaskAll }
        ⟨-1,some .external,a.laterExtthr = .ok⟩,a.laterExtthr) ∨
      (conf.coreType = .worker ∨ conf.coreType = .control) ∧
        ∃ c, s.map.determineCoreId cfg conf.coreId = some c ∧
          s.emInitLocal cfg t odpType conf a = (s.setLocm t (s.map.addCore t c conf.coreType)
            ⟨c,some conf.coreType,a.laterLocal = .ok⟩,a.laterLocal)) := by
  obtain ⟨hid,h⟩ := not_or.1 h
  obtain ⟨hin,h⟩ := not_or.1 h
  obtain ⟨hodp,h⟩ := not_or.1 h
  rw [emInitLocal, if_neg hid, if_neg hin]
  refine ⟨Bool.of_not_eq_true hin,?_⟩
  cases hty : conf.coreType with
  | worker =>
    rw [hty] at hodp h
    have hodp : ¬odpType ≠ .worker := fun hc => hodp (iff_of_false hc (not_not.2 rfl))
    obtain ⟨hthr,c,hc,heq⟩ := initLocal_entered h
    rw [hty] at heq
    exact ⟨hthr,.inr ⟨.inl rfl,c,hc,(if_neg hodp).trans heq⟩⟩
  | control =>
    rw [hty] at hodp h
    have hodp : ¬odpType ≠ .control := by
      rintro hc
      cases odpType with
      | worker => exact hodp (iff_of_true rfl (by decide))
      | control => exact hc rfl
    obtain ⟨hthr,c,hc,heq⟩ := initLocal_entered h
    rw [hty] at heq
    exact ⟨hthr,.inr ⟨.inr rfl,c,hc,(if_neg hodp).trans heq⟩⟩
  | external =>
    rw [hty] at hodp h
    have hodp : ¬odpType ≠ .control := by
      rintro hc
      cases odpType with
      | worker => exact hodp (iff_of_true rfl (by decide))
      | control => exact hc rfl
    obtain ⟨hthr,heq⟩ := initExtthr_entered conf h
    rw [hty] at heq
    exact ⟨hthr,.inl ⟨rfl,(if_neg hodp).trans heq⟩⟩

theorem Inv.currentCoreCount_le (h : s.Inv cfg) : s.map.currentCoreCount ≤ 65536 := by
  rw [h.map.currentCoreCount]
  exact h.card_le

/-- A local initialisation that is not failed by a step after the map -/
theorem Inv.emInitLocal (h : s.Inv cfg) {odpType : OdpThreadType}
    (hclean : s.Clean cfg (.init t odpType conf a)) : (s.emInitLocal cfg t odpType conf a).1.Inv cfg := by
  by_cases hearly : s.FailsEarly cfg t odpType conf a
  · obtain ⟨-,heq | ⟨hin,locm,hlocm,heq⟩⟩ := emInitLocal_early h.currentCoreCount_le hearly
    · rw [heq]
      exact h
    · rw [heq]
      exact h.writeLocm hin hlocm
  · have hlater := hclean.resolve_left hearly
    obtain ⟨hin,hthr,⟨hty,heq⟩ | ⟨hty,c,hc,heq⟩⟩ := emInitLocal_entered hearly
    · rw [if_pos hty] at hlater
      rw [heq, hlater]
      exact h.addExtthr hin hthr
    · have hne : conf.coreType ≠ .external := by rcases hty with hty | hty <;> rw [hty] <;> decide
      rw [if_neg hne] at hlater
      rw [heq, hlater]
      obtain ⟨hlt,hnot⟩ := CoreMap.determineCoreId_some hc
      exact h.addCore hin hthr hlt hnot hty

theorem Inv.call (h : s.Inv cfg) {l : Label} (hclean : s.Clean cfg l) : (s.call cfg l).1.Inv cfg := by
  cases l with
  | init t odpType conf a => exact h.emInitLocal hclean
  | term t later => exact h.emTermLocal

/-- A call that fails after the map has been entered leaves it changed. -/
theorem Inv.failsCleanly_iff (h : s.Inv cfg) (l : Label) : s.FailsCleanly cfg l ↔ s.Clean cfg l := by
  cases l with
  | term t later => exact Iff.rfl
  | init t odpType conf a =>
    by_cases hearly : s.FailsEarly cfg t odpType conf a
    · obtain ⟨-,heq | ⟨-,locm,-,heq⟩⟩ := emInitLocal_early h.currentCoreCount_le hearly
      · exact iff_of_true (fun _ => congrArg State.map heq) (.inl hearly)
      · refine iff_of_true (fun _ => ?_) (.inl hearly)
        rw [heq]
        rfl
    · rw [FailsCleanly, Clean, or_iff_right hearly]
      obtain ⟨-,-,⟨hty,heq⟩ | ⟨hty,c,hc,heq⟩⟩ := emInitLocal_entered hearly
      · rw [heq, if_pos hty]
        refine ⟨fun hfail => ?_,fun hok hbad => absurd hok hbad⟩
        by_contra hbad
        exact incU32_ne _ (congrArg CoreMap.externalThreadCount (hfail hbad))
      · have hne : conf.coreType ≠ .external := by rcases hty with hty | hty <;> rw [hty] <;> decide
        rw [heq, if_neg hne]
        refine ⟨fun hfail => ?_,fun hok hbad => absurd hok hbad⟩
        by_contra hbad
        have hmap := congrArg CoreMap.currentCoreCount (hfail hbad)
        rw [State.setLocm, CoreMap.addCore_eq] at hmap
        exact incU32_ne _ hmap

/-- A thread that is not initialised gets an EM core as long as one is left. -/
theorem Inv.starts (h : s.Inv cfg) (ht : (s.locm t).isCoreLocalInited = false) (hthr : t < cfg.thrMax)
    (hleft : s.map.currentCoreCount < cfg.coreCount) :
    let u := (s.call cfg (.init t .worker ⟨.worker,-1⟩ {})).1
    u.map.currentCoreCount = s.map.currentCoreCount + 1 ∧ (u.locm t).isCoreLocalInited = true ∧
      ∀ v, v ≠ t → u.locm v = s.locm v := by
  have hcount := hleft
  rw [h.map.currentCoreCount] at hleft
  obtain ⟨c,hc⟩ := CoreMap.determineCoreId_free hleft
  have hearly : ¬s.FailsEarly cfg t .worker ⟨.worker,-1⟩ {} := by
    rintro (hlt | hin | hodp | hmem | hq | hrej)
    · exact Int.lt_irrefl (-1) hlt
    · exact Bool.false_ne_true (ht.symm.trans hin)
    · exact hodp.1 rfl rfl
    · exact hmem rfl
    · exact hq rfl
    · rcases hrej with hphys | haff | hle | hpath | hid | hfull
      · cases hphys
      · exact haff rfl
      · exact Nat.not_lt_of_le hle hthr
      · cases hpath
      · exact Option.some_ne_none c (hc.symm.trans hid)
      · rw [incU32_eq h.currentCoreCount_le] at hfull
        exact Nat.not_lt_of_le hcount hfull
  obtain ⟨-,-,⟨hty,-⟩ | ⟨-,d,-,heq⟩⟩ := emInitLocal_entered hearly
  · cases hty
  · rw [State.call, heq]
    refine ⟨?_,?_,fun v hv => Function.update_of_ne hv ..⟩
    · rw [State.setLocm, CoreMap.addCore_eq]
      exact incU32_eq h.currentCoreCount_le
    · exact congrArg Locm.isCoreLocalInited (Function.update_self t _ s.locm)

private theorem Inv.start_all (h : s.Inv cfg) (thrs : List Nat) (hnodup : thrs.Nodup)
    (hout : ∀ t ∈ thrs, t < cfg.thrMax ∧ (s.locm t).isCoreLocalInited = false)
    (hleft : s.map.currentCoreCount + thrs.length ≤ cfg.coreCount) :
    ∃ u, (system cfg).Path s (thrs.map fun t => .init t .worker ⟨.worker,-1⟩ {}) u ∧
      u.map.currentCoreCount = s.map.currentCoreCount + thrs.length ∧
        (∀ t ∈ thrs, (u.locm t).isCoreLocalInited = true) ∧ ∀ t, t ∉ thrs → u.locm t = s.locm t := by
  induction thrs generalizing s with
  | nil => exact ⟨s,.nil s,rfl,fun _ ht => absurd ht List.not_mem_nil,fun _ _ => rfl⟩
  | cons t thrs ih =>
    obtain ⟨htnot,hnodup⟩ := List.nodup_cons.1 hnodup
    obtain ⟨hthr,hin⟩ := hout t List.mem_cons_self
    rw [List.length_cons] at hleft
    obtain ⟨hcount,hstarted,hother⟩ := h.starts hin hthr (by omega)
    have hinv := h.call (l := .init t .worker ⟨.worker,-1⟩ {}) (.inr rfl)
    obtain ⟨u,hpath,hu,hall,hsame⟩ := ih hinv hnodup (fun v hv => by
      rw [hother v (ne_of_mem_of_not_mem hv htnot)]
      exact hout v (List.mem_cons_of_mem _ hv)) (by omega)
    refine ⟨u,.cons rfl hpath,?_,fun v hv => ?_,fun v hv => ?_⟩
    · rw [hu, hcount, List.length_cons]
      omega
    · rcases List.mem_cons.1 hv with rfl | hv
      · rw [hsame v htnot]
        exact hstarted
      · exact hall v hv
    · obtain ⟨hvt,hv⟩ := not_or.1 fun hc => hv (List.mem_cons.2 hc)
      exact (hsame v hv).trans (hother v hvt)

theorem Inv.startable (h : s.Inv cfg) : s.Startable cfg := by
  intro thrs hnodup hout hleft
  obtain ⟨u,hpath,hu,hall,-⟩ := h.start_all thrs hnodup hout hleft
  exact ⟨u,hpath,hu,hall⟩

end State

/-- In every run of local initialisations and terminations of any number of threads, the map is
consistent as long as no initialisation fails after it has entered the map; and these are the failures
that leave it changed. -/
theorem core_map_consistent {cfg : Config} {s : State}
    (h : (system cfg).ReachableVia (fun s l _ => s.Clean cfg l) s) :
    s.map.Consistent ∧ s.NoSharing ∧ s.Startable cfg ∧
      ∀ l, s.FailsCleanly cfg l ↔ s.Clean cfg l := by
  have hinv : s.Inv cfg := System.ReachableVia.invariant (I := fun s => s.Inv cfg)
    (fun _ => State.Initial.inv) (fun _ _ _ hinv hst hclean => Option.some.inj hst ▸ hinv.call hclean) h
  exact ⟨hinv.map,hinv.noSharing,hinv.startable,hinv.failsCleanly_iff⟩

private def fourCores : Config := ⟨4,8,by decide,by decide,by decide,by decide⟩

private def notStarted : State := ⟨{},fun _ => {}⟩

/-- Two EM cores and an external thread start, a fourth thread fails early, and the first one leaves. -/
private def someStarted : Option State :=
  System.exec (fun s l => some (s.call fourCores l).1) (fun s l _ => decide (s.Clean fourCores l))
    notStarted
    [.init 3 .worker ⟨.worker,-1⟩ {}, .init 5 .control ⟨.control,2⟩ {}, .init 1 .control ⟨.external,-1⟩ {},
      .init 0 .worker ⟨.worker,2⟩ { timer := .libFailed }, .term 3 true]

private theorem someStarted_isSome : someStarted.isSome = true := by decide

theorem core_map_consistent_started : (someStarted.get someStarted_isSome).map.Consistent ∧
    (someStarted.get someStarted_isSome).NoSharing ∧
      (someStarted.get someStarted_isSome).Startable fourCores ∧
        ∀ l, (someStarted.get someStarted_isSome).FailsCleanly fourCores l ↔
          (someStarted.get someStarted_isSome).Clean fourCores l :=
  core_map_consistent (System.ReachableVia.exec (fun _ _ _ => of_decide_eq_true) (.start rfl)
    (Option.some_get someStarted_isSome).symm)

/-- The EM timer cannot be initialised on a thread: the thread stays in the map, with another core id
for each further try. -/
theorem failed_init_keeps_core : ¬∀ (cfg : Config) (s : State), (system cfg).Reachable s →
    s.map.Consistent ∧ ∀ l, s.FailsCleanly cfg l := by
  intro hall
  have hfails := (hall fourCores notStarted (.start rfl)).2
    (.init 0 .worker ⟨.worker,-1⟩ { timer := .libFailed })
  have hcount := congrArg CoreMap.currentCoreCount (hfails (by decide))
  exact absurd hcount (by decide)

end EmOdp.Threads
