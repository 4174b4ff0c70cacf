import Mathlib.Data.Finset.Image
import EmOdp.Threads.Machine

/-! What a consistent core map is, and what is asked of a failing local initialisation. Adding and
removing a thread keeps the map consistent. -/
namespace EmOdp.Threads
open Lib

/-- The tables and counters of the map agree with each other. -/
structure CoreMap.Consistent (m : CoreMap) : Prop where
  logic_odpThr : ∀ c ∈ m.logicMask, m.logic (m.odpThr c) = c
  odpThr_logic : ∀ t ∈ m.thrmaskEmcores, m.odpThr (m.logic t) = t
  thrmaskEmcores : m.thrmaskEmcores = m.logicMask.image m.odpThr
  logicMask : m.logicMask = m.workerMask ∪ m.controlMask
  disjoint : Disjoint m.workerMask m.controlMask
  thrmaskAll : m.thrmaskAll = m.thrmaskEmcores ∪ m.thrmaskExtthrs
  currentCoreCount : m.currentCoreCount = m.logicMask.card
  workerCoreCount : m.workerCoreCount = m.workerMask.card
  controlCoreCount : m.controlCoreCount = m.controlMask.card
  externalThreadCount : m.externalThreadCount = m.thrmaskExtthrs.card

namespace State
variable (s : State) (cfg : Config)

/-- The thread is an EM core with this id. -/
def Holds (t c : Nat) : Prop :=
  (s.locm t).isCoreLocalInited = true ∧ (s.locm t).coreId = c ∧
    ((s.locm t).coreType = some .worker ∨ (s.locm t).coreType = some .control)

/-- No core id is held by two threads. -/
def NoSharing : Prop := ∀ t u c, s.Holds t c → s.Holds u c → t = u

/-- As many threads as there are EM cores left can be initialised, one after the other. -/
def Startable : Prop :=
  ∀ thrs : List Nat, thrs.Nodup → (∀ t ∈ thrs, t < cfg.thrMax ∧ (s.locm t).isCoreLocalInited = false) →
    s.map.currentCoreCount + thrs.length ≤ cfg.coreCount →
      ∃ u, (system cfg).Path s (thrs.map fun t => .init t .worker ⟨.worker,-1⟩ {}) u ∧
        u.map.currentCoreCount = s.map.currentCoreCount + thrs.length ∧
          ∀ t ∈ thrs, (u.locm t).isCoreLocalInited = true

/-- A local initialisation that returns an error leaves the map. -/
def FailsCleanly : Label → Prop
  | .init thr odpType conf a => (s.emInitLocal cfg thr odpType conf a).2 ≠ .ok →
    (s.emInitLocal cfg thr odpType conf a).1.map = s.map
  | .term _ _ => True

/-- The thread cannot be added to the map as an EM core. -/
def Rejected (thr : Nat) (conf : ConfLocal) (a : Answers) : Prop :=
  a.physCore = false ∨ a.schedAffinity ≠ .ok ∨ cfg.thrMax ≤ thr ∨ a.path = false ∨
    s.map.determineCoreId cfg conf.coreId = none ∨ cfg.coreCount < incU32 s.map.currentCoreCount

/-- The initialisation fails before it has entered the map. -/
def FailsEarly (thr : Nat) (odpType : OdpThreadType) (conf : ConfLocal) (a : Answers) : Prop :=
  conf.coreId < -1 ∨ (s.locm thr).isCoreLocalInited = true ∨
    (odpType = .worker ↔ conf.coreType ≠ .worker) ∨ a.thrMem ≠ .ok ∨ a.ctrlQueue ≠ .ok ∨
      if conf.coreType = .external then cfg.thrMax ≤ thr else s.Rejected cfg thr conf a

instance (thr : Nat) (conf : ConfLocal) (a : Answers) : Decidable (s.Rejected cfg thr conf a) :=
  inferInstanceAs (Decidable (_ ∨ _ ∨ _ ∨ _ ∨ _ ∨ _))

instance (thr : Nat) (odpType : OdpThreadType) (conf : ConfLocal) (a : Answers) :
    Decidable (s.FailsEarly cfg thr odpType conf a) :=
  inferInstanceAs (Decidable (_ ∨ _ ∨ _ ∨ _ ∨ _ ∨ _))

/-- A local initialisation does not fail after it has entered the map. -/
def Clean : Label → Prop
  | .init thr odpType conf a => s.FailsEarly cfg thr odpType conf a ∨
    (if conf.coreType = .external then a.laterExtthr else a.laterLocal) = .ok
  | .term _ _ => True

instance : ∀ l, Decidable (s.Clean cfg l)
  | .init _ _ _ _ => inferInstanceAs (Decidable (_ ∨ _))
  | .term _ _ => .isTrue trivial

end State

theorem incU32_ne (n : Nat) : incU32 n ≠ n := by
  rw [incU32]
  split <;> omega

theorem incU32_eq {n : Nat} (h : n ≤ 65536) : incU32 n = n + 1 := if_neg (by omega)

theorem decU32_eq {n : Nat} (h : 0 < n) : decU32 n = n - 1 := if_neg (Nat.ne_of_gt h)

theorem decU32_incU32 {n : Nat} (h : n ≤ 65536) : decU32 (incU32 n) = n := by
  rw [incU32_eq h, decU32_eq (Nat.succ_pos n), Nat.succ_sub_one]

namespace CoreMap
variable {m : CoreMap} {cfg : Config} {t c : Nat} {coreType : CoreType} {req : Int}

theorem determineCoreId_some (h : m.determineCoreId cfg req = some c) :
    c < cfg.coreCount ∧ c ∉ m.logicMask := by
  rw [determineCoreId] at h
  split at h
  · cases h
  · split at h
    · have hnot := List.find?_some h
      exact ⟨List.mem_range.1 (List.mem_of_find?_eq_some h),of_decide_eq_true hnot⟩
    · split at h
      · cases h
      · rename_i hlt
        split at h
        · cases h
        · rename_i hnot
          obtain rfl := Option.some.inj h
          exact ⟨Nat.lt_of_not_le hlt,hnot⟩

/-- An id is free as long as not all of them are in use. -/
theorem determineCoreId_free (h : m.logicMask.card < cfg.coreCount) :
    ∃ c, m.determineCoreId cfg (-1) = some c := by
  rw [determineCoreId, if_neg (Int.lt_irrefl (-1)), if_pos rfl]
  refine Option.isSome_iff_exists.1 (List.find?_isSome.2 ?_)
  by_contra hall
  refine Nat.not_lt_of_le (Finset.card_le_card ?_) ((Finset.card_range cfg.coreCount).symm ▸ h)
  intro c hc
  by_contra hnot
  exact hall ⟨c,List.mem_range.2 (Finset.mem_range.1 hc),decide_eq_true hnot⟩

theorem addCore_eq : m.addCore t c coreType = { m with
    currentCoreCount := incU32 m.currentCoreCount
    logic := Function.update m.logic t (c % 256)
    odpThr := Function.update m.odpThr c (t % 65536)
    logicMask := insert c m.logicMask
    thrmaskEmcores := insert t m.thrmaskEmcores
    thrmaskAll := insert t m.thrmaskAll
    workerCoreCount := if coreType = .worker then incU32 m.workerCoreCount else m.workerCoreCount
    workerMask := if coreType = .worker then insert c m.workerMask else m.workerMask
    controlCoreCount := if coreType = .worker then m.controlCoreCount else incU32 m.controlCoreCount
    controlMask := if coreType = .worker then m.controlMask else insert c m.controlMask } := by
  by_cases hw : coreType = .worker
  · simp only [addCore, hw, if_true]
  · simp only [addCore, hw, if_false]

theorem termLocal_eq {locm : Locm} : m.termLocal t locm = { m with
    currentCoreCount := decU32 m.currentCoreCount
    logic := Function.update m.logic t 0
    odpThr := Function.update m.odpThr locm.coreId.toNat 0
    logicMask := m.logicMask.erase locm.coreId.toNat
    thrmaskEmcores := m.thrmaskEmcores.erase t
    thrmaskAll := m.thrmaskAll.erase t
    workerCoreCount :=
      if locm.coreType = some .worker then decU32 m.workerCoreCount else m.workerCoreCount
    workerMask :=
      if locm.coreType = some .worker then m.workerMask.erase locm.coreId.toNat else m.workerMask
    controlCoreCount :=
      if locm.coreType = some .worker then m.controlCoreCount else decU32 m.controlCoreCount
    controlMask :=
      if locm.coreType = some .worker then m.controlMask
      else m.controlMask.erase locm.coreId.toNat } := by
  by_cases hw : locm.coreType = some .worker
  · simp only [termLocal, hw, if_true]
  · simp only [termLocal, hw, if_false]

theorem Consistent.mem_emcores (h : m.Consistent) : t ∈ m.thrmaskEmcores ↔ ∃ c ∈ m.logicMask, m.odpThr c = t := by
  rw [h.thrmaskEmcores, Finset.mem_image]

theorem Consistent.logic_mem (h : m.Consistent) (ht : t ∈ m.thrmaskEmcores) : m.logic t ∈ m.logicMask := by
  obtain ⟨c,hc,rfl⟩ := h.mem_emcores.1 ht
  rw [h.logic_odpThr c hc]
  exact hc

theorem Consistent.odpThr_mem (h : m.Consistent) (hc : c ∈ m.logicMask) : m.odpThr c ∈ m.thrmaskEmcores :=
  h.mem_emcores.2 ⟨c,hc,rfl⟩

theorem Consistent.mem_logicMask (h : m.Consistent) :
    c ∈ m.logicMask ↔ c ∈ m.workerMask ∨ c ∈ m.controlMask := by
  rw [h.logicMask, Finset.mem_union]

theorem Consistent.card_emcores (h : m.Consistent) : m.thrmaskEmcores.card = m.logicMask.card := by
  rw [h.thrmaskEmcores]
  refine Finset.card_image_of_injOn fun c hc d hd hcd => ?_
  rw [← h.logic_odpThr c hc, hcd, h.logic_odpThr d hd]

theorem Consistent.card (h : m.Consistent) :
    m.workerMask.card + m.controlMask.card = m.logicMask.card := by
  rw [h.logicMask, Finset.card_union_of_disjoint h.disjoint]

variable (coreType) in
/-- An EM core is added with an id and an ODP thread that are not in use. -/
theorem Consistent.addCore (h : m.Consistent) (hc : c ∉ m.logicMask) (ht : t ∉ m.thrmaskEmcores)
    (hc' : c < 256) (ht' : t < 65536) (hcard : m.logicMask.card ≤ 65536) :
    (m.addCore t c coreType).Consistent := by
  have hodp {d : Nat} (hd : d ∈ m.logicMask) : Function.update m.odpThr c t d = m.odpThr d :=
    Function.update_of_ne (ne_of_mem_of_not_mem hd hc) ..
  have hlogic {u : Nat} (hu : u ∈ m.thrmaskEmcores) : Function.update m.logic t c u = m.logic u :=
    Function.update_of_ne (ne_of_mem_of_not_mem hu ht) ..
  have hsum := h.card
  obtain ⟨hcw,hcc⟩ := not_or.1 (fun hor => hc (h.mem_logicMask.2 hor))
  rw [addCore_eq, Nat.mod_eq_of_lt hc', Nat.mod_eq_of_lt ht']
  refine ⟨fun d hd => ?_,fun u hu => ?_,?_,?_,?_,?_,?_,?_,?_,h.externalThreadCount⟩
  · dsimp only
    rcases Finset.mem_insert.1 hd with rfl | hd
    · rw [Function.update_self, Function.update_self]
    · rw [hodp hd, hlogic (h.odpThr_mem hd), h.logic_odpThr d hd]
  · dsimp only
    rcases Finset.mem_insert.1 hu with rfl | hu
    · rw [Function.update_self, Function.update_self]
    · rw [hlogic hu, hodp (h.logic_mem hu), h.odpThr_logic u hu]
  · dsimp only
    rw [Finset.image_insert, Function.update_self, h.thrmaskEmcores]
    exact congrArg _ (Finset.image_congr fun d hd => (hodp hd).symm)
  · dsimp only
    split
    · rw [Finset.insert_union, h.logicMask]
    · rw [Finset.union_insert, h.logicMask]
  · dsimp only
    split
    · exact Finset.disjoint_insert_left.2 ⟨hcc,h.disjoint⟩
    · exact Finset.disjoint_insert_right.2 ⟨hcw,h.disjoint⟩
  · dsimp only
    rw [Finset.insert_union, h.thrmaskAll]
  · dsimp only
    rw [Finset.card_insert_of_notMem hc, h.currentCoreCount, incU32_eq hcard]
  · dsimp only
    split
    · rw [Finset.card_insert_of_notMem hcw, h.workerCoreCount, incU32_eq (by omega)]
    · exact h.workerCoreCount
  · dsimp only
    split
    · exact h.controlCoreCount
    · rw [Finset.card_insert_of_notMem hcc, h.controlCoreCount, incU32_eq (by omega)]

/-- An EM core is removed by the thread that has its id. -/
theorem Consistent.termLocal (h : m.Consistent) {locm : Locm} (hlocm : locm.coreId = c)
    (hc : c ∈ m.logicMask) (ht : m.odpThr c = t) (htype : locm.coreType = some .worker ↔ c ∈ m.workerMask)
    (hext : t ∉ m.thrmaskExtthrs) : (m.termLocal t locm).Consistent := by
  have hid : locm.coreId.toNat = c := by rw [hlocm, Int.toNat_natCast]
  have hodp {d : Nat} (hd : d ∈ m.logicMask.erase c) : Function.update m.odpThr c 0 d = m.odpThr d :=
    Function.update_of_ne (Finset.ne_of_mem_erase hd) ..
  have hlogic {u : Nat} (hu : u ∈ m.thrmaskEmcores.erase t) : Function.update m.logic t 0 u = m.logic u :=
    Function.update_of_ne (Finset.ne_of_mem_erase hu) ..
  have hmem {d : Nat} (hd : d ∈ m.logicMask.erase c) : m.odpThr d ∈ m.thrmaskEmcores.erase t := by
    obtain ⟨hdc,hd⟩ := Finset.mem_erase.1 hd
    refine Finset.mem_erase.2 ⟨fun hdt => hdc ?_,h.odpThr_mem hd⟩
    rw [← h.logic_odpThr d hd, hdt, ← ht, h.logic_odpThr c hc]
  have hsum := h.card
  have hpos := Finset.card_pos.2 ⟨c,hc⟩
  have hwc (hw : locm.coreType = some .worker) : c ∈ m.workerMask ∧ c ∉ m.controlMask :=
    ⟨htype.1 hw,Finset.disjoint_left.1 h.disjoint (htype.1 hw)⟩
  have hcw (hw : ¬locm.coreType = some .worker) : c ∉ m.workerMask ∧ c ∈ m.controlMask :=
    ⟨fun hw' => hw (htype.2 hw'),(h.mem_logicMask.1 hc).resolve_left fun hw' => hw (htype.2 hw')⟩
  rw [termLocal_eq, hid]
  refine ⟨fun d hd => ?_,fun u hu => ?_,?_,?_,?_,?_,?_,?_,?_,h.externalThreadCount⟩
  · dsimp only at hd ⊢
    rw [hodp hd, hlogic (hmem hd), h.logic_odpThr d (Finset.mem_of_mem_erase hd)]
  · dsimp only at hu ⊢
    obtain ⟨hut,hu'⟩ := Finset.mem_erase.1 hu
    have hmem : m.logic u ∈ m.logicMask.erase c := by
      refine Finset.mem_erase.2 ⟨fun huc => hut ?_,h.logic_mem hu'⟩
      rw [← h.odpThr_logic u hu', huc, ht]
    rw [hlogic hu, hodp hmem, h.odpThr_logic u hu']
  · dsimp only
    ext u
    rw [Finset.mem_image]
    constructor
    · intro hu
      obtain ⟨hut,hu'⟩ := Finset.mem_erase.1 hu
      obtain ⟨d,hd,rfl⟩ := h.mem_emcores.1 hu'
      have hdc : d ∈ m.logicMask.erase c := by
        refine Finset.mem_erase.2 ⟨?_,hd⟩
        rintro rfl
        exact hut ht
      exact ⟨d,hdc,hodp hdc⟩
    · rintro ⟨d,hd,rfl⟩
      rw [hodp hd]
      exact hmem hd
  · dsimp only
    split
    · rename_i hw
      rw [h.logicMask, Finset.erase_union_distrib, Finset.erase_eq_of_notMem (hwc hw).2]
    · rename_i hw
      rw [h.logicMask, Finset.erase_union_distrib, Finset.erase_eq_of_notMem (hcw hw).1]
  · dsimp only
    split
    · exact h.disjoint.mono_left (Finset.erase_subset ..)
    · exact h.disjoint.mono_right (Finset.erase_subset ..)
  · dsimp only
    rw [h.thrmaskAll, Finset.erase_union_distrib, Finset.erase_eq_of_notMem hext]
  · dsimp only
    rw [Finset.card_erase_of_mem hc, h.currentCoreCount, decU32_eq hpos]
  · dsimp only
    split
    · rename_i hw
      have hpos := Finset.card_pos.2 ⟨c,(hwc hw).1⟩
      rw [Finset.card_erase_of_mem (hwc hw).1, h.workerCoreCount, decU32_eq hpos]
    · exact h.workerCoreCount
  · dsimp only
    split
    · exact h.controlCoreCount
    · rename_i hw
      have hpos := Finset.card_pos.2 ⟨c,(hcw hw).2⟩
      rw [Finset.card_erase_of_mem (hcw hw).2, h.controlCoreCount, decU32_eq hpos]

theorem Consistent.addExtthr (h : m.Consistent) (ht : t ∉ m.thrmaskExtthrs)
    (hcard : m.thrmaskExtthrs.card ≤ 65536) : Consistent { m with
      externalThreadCount := incU32 m.externalThreadCount
      thrmaskExtthrs := insert t m.thrmaskExtthrs
      thrmaskAll := insert t m.thrmaskAll } := by
  refine ⟨h.logic_odpThr,h.odpThr_logic,h.thrmaskEmcores,h.logicMask,h.disjoint,?_,h.currentCoreCount,
    h.workerCoreCount,h.controlCoreCount,?_⟩
  · dsimp only
    rw [Finset.union_insert, h.thrmaskAll]
  · dsimp only
    rw [Finset.card_insert_of_notMem ht, h.externalThreadCount, incU32_eq hcard]

theorem Consistent.termExtthr (h : m.Consistent) (ht : t ∈ m.thrmaskExtthrs)
    (hemcore : t ∉ m.thrmaskEmcores) : (m.termExtthr t).Consistent := by
  rw [CoreMap.termExtthr]
  refine ⟨h.logic_odpThr,h.odpThr_logic,h.thrmaskEmcores,h.logicMask,h.disjoint,?_,h.currentCoreCount,
    h.workerCoreCount,h.controlCoreCount,?_⟩
  · dsimp only
    rw [h.thrmaskAll, Finset.erase_union_distrib, Finset.erase_eq_of_notMem hemcore]
  · dsimp only
    rw [Finset.card_erase_of_mem ht, h.externalThreadCount, decU32_eq (Finset.card_pos.2 ⟨t,ht⟩)]

end CoreMap

end EmOdp.Threads
