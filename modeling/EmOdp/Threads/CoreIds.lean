import Mathlib.Data.Finset.Max
import EmOdp.Lib.Cursor
import EmOdp.Threads.InitRuns

/-! Iterations over the ids of the EM cores, while EM cores are added and removed. -/
namespace EmOdp.Threads
open Lib

/-- `em_core_mask_next`, `odp_cpumask_next`: the first one with -1 -/
def maskNext (mask : Finset Nat) (cpu : Int) : Int :=
  let above := mask.filter fun c : Nat => cpu < c
  if h : above.Nonempty then above.min' h else -1

/-- `_core_id_iter`. The type stands for the mask that `src_core_mask` points to. -/
structure CoreIdIter where
  idx : Int := -1
  src : Option CoreType := none

namespace CoreMap
variable (m : CoreMap)

/-- `em_core_type_count`, none is `EM_CORE_TYPE_UNDEF` -/
def typeCount : Option CoreType → Nat
  | some .worker => m.workerCoreCount
  | some .control => m.controlCoreCount
  | some .external => m.externalThreadCount
  | none => m.currentCoreCount

/-- `src_core_mask` of a core type that has one -/
def typeMask : Option CoreType → Finset Nat
  | some .worker => m.workerMask
  | some .control => m.controlMask
  | some .external => ∅
  | none => m.logicMask

/-- `em_core_id_first`: the id, `*num` and the iteration -/
def emCoreIdFirst (coreType : Option CoreType) (it : CoreIdIter) : Int × Nat × CoreIdIter :=
  if coreType = some .external then (-1,0,{ it with idx := -1 })
  else
    let count := m.typeCount coreType
    if count = 0 then (-1,count,{ it with idx := -1 })
    else
      let idx := maskNext (m.typeMask coreType) (-1)
      (idx,count,⟨idx,coreType⟩)

/-- `em_core_id_next` -/
def emCoreIdNext (it : CoreIdIter) : Int × CoreIdIter :=
  if it.idx < 0 then (-1,it)
  else
    let idx := maskNext (m.typeMask it.src) it.idx
    if idx < 0 then (-1,{ it with idx := -1 }) else (idx,{ it with idx })

/-- `em_core_ids_available` -/
def emCoreIdsAvailable (coreType : Option CoreType) : Nat × Finset Nat :=
  if coreType = some .external then (0,∅) else (m.typeCount coreType,m.typeMask coreType)

end CoreMap

/-- The iteration of a thread, and the number of its calls that read the map -/
structure Reader where
  it : CoreIdIter
  reads : Nat

/-- A loop over ids goes on while they are not negative. -/
def idOf (idx : Int) : Option Nat := if idx < 0 then none else some idx.toNat

namespace Reader
variable (w : Nat → State) (coreType : Option CoreType) (c : Reader)

def first : Int × Nat × Reader :=
  let (idx,num,it) := (w c.reads).map.emCoreIdFirst coreType c.it
  (idx,num,⟨it,c.reads+1⟩)

def next : Int × Reader :=
  let (idx,it) := (w c.reads).map.emCoreIdNext c.it
  (idx,⟨it,c.reads+1⟩)

/-- Where the iteration is among `size` ids -/
def cursor (size : Nat) : Cursor := ⟨if c.it.idx < 0 then size else c.it.idx.toNat,c.reads⟩

/-- `for (id = em_core_id_first(); id >= 0; id = em_core_id_next()) body(id)`: the ids with the reads that found
them -/
def coreIds (cfg : Config) (body : Nat → Reader → Reader) : Option (List (Nat × Nat) × Reader) :=
  let (idx,_,c) := first w coreType c
  Cursor.visitsWith (cursor · cfg.coreCount) (fun c => (idOf (next w c).1,(next w c).2)) body cfg.coreCount
    (idOf idx,c)

end Reader

theorem maskNext_spec (mask : Finset Nat) (cpu : Int) : (maskNext mask cpu = -1 ∧ ∀ c ∈ mask, ¬cpu < c) ∨
    ∃ c ∈ mask, maskNext mask cpu = c ∧ cpu < c ∧ ∀ d ∈ mask, cpu < d → c ≤ d := by
  rw [maskNext]
  split
  · rename_i h
    have hm := Finset.mem_filter.1 (Finset.min'_mem _ h)
    exact .inr ⟨_,hm.1,rfl,hm.2,fun d hd hlt => Finset.min'_le _ d (Finset.mem_filter.2 ⟨hd,hlt⟩)⟩
  · rename_i h
    exact .inl ⟨rfl,fun c hc hlt => h ⟨c,Finset.mem_filter.2 ⟨hc,hlt⟩⟩⟩

namespace CoreMap
variable {m : CoreMap} {cfg : Config} {t c : Nat} {coreType : CoreType}

/-- The masks are of the ids that are counted. -/
structure Counted (m : CoreMap) (cfg : Config) : Prop where
  current : m.currentCoreCount = m.logicMask.card
  worker : m.workerCoreCount = m.workerMask.card
  control : m.controlCoreCount = m.controlMask.card
  logicMask : m.logicMask = m.workerMask ∪ m.controlMask
  disjoint : Disjoint m.workerMask m.controlMask
  cores : ∀ c ∈ m.logicMask, c < cfg.coreCount

namespace Counted

theorem card_le (h : m.Counted cfg) : m.logicMask.card ≤ 65536 := by
  refine Nat.le_trans ?_ (Nat.le_trans cfg.coreCount_thr cfg.thrMax_le)
  rw [← Finset.card_range cfg.coreCount]
  exact Finset.card_le_card fun c hc => Finset.mem_range.2 (h.cores c hc)

theorem mem (h : m.Counted cfg) : c ∈ m.logicMask ↔ c ∈ m.workerMask ∨ c ∈ m.controlMask := by
  rw [h.logicMask, Finset.mem_union]

theorem card (h : m.Counted cfg) : m.workerMask.card + m.controlMask.card = m.logicMask.card := by
  rw [h.logicMask, Finset.card_union_of_disjoint h.disjoint]

theorem addCore (h : m.Counted cfg) (hc : c < cfg.coreCount) (hnot : c ∉ m.logicMask) :
    (m.addCore t c coreType).Counted cfg := by
  obtain ⟨hw,hcl⟩ := not_or.1 fun hor => hnot (h.mem.2 hor)
  have hle := h.card_le
  have hsum := h.card
  have hcores : ∀ d ∈ insert c m.logicMask, d < cfg.coreCount := (Finset.forall_mem_insert ..).2 ⟨hc,h.cores⟩
  rw [addCore_eq]
  cases coreType with
  | worker =>
    refine ⟨?_,?_,h.control,?_,Finset.disjoint_insert_left.2 ⟨hcl,h.disjoint⟩,hcores⟩
    · exact (congrArg incU32 h.current).trans ((incU32_eq hle).trans (Finset.card_insert_of_notMem hnot).symm)
    · exact (congrArg incU32 h.worker).trans
        ((incU32_eq (by omega)).trans (Finset.card_insert_of_notMem hw).symm)
    · exact (congrArg (insert c) h.logicMask).trans (Finset.insert_union ..).symm
  | control | external =>
    refine ⟨?_,h.worker,?_,?_,Finset.disjoint_insert_right.2 ⟨hw,h.disjoint⟩,hcores⟩
    · exact (congrArg incU32 h.current).trans ((incU32_eq hle).trans (Finset.card_insert_of_notMem hnot).symm)
    · exact (congrArg incU32 h.control).trans
        ((incU32_eq (by omega)).trans (Finset.card_insert_of_notMem hcl).symm)
    · exact (congrArg (insert c) h.logicMask).trans (Finset.union_insert ..).symm

theorem termLocal (h : m.Counted cfg) {locm : Locm} (hid : locm.coreId = c)
    (hty : locm.coreType = some .worker ∧ c ∈ m.workerMask ∨
      locm.coreType = some .control ∧ c ∈ m.controlMask) :
    (m.termLocal t locm).Counted cfg := by
  have hc : locm.coreId.toNat = c := by rw [hid, Int.toNat_natCast]
  have hmem : c ∈ m.logicMask := h.mem.2 (hty.imp And.right And.right)
  have hcores : ∀ d ∈ m.logicMask.erase c, d < cfg.coreCount := fun d hd => h.cores d (Finset.mem_of_mem_erase hd)
  rw [termLocal_eq, hc]
  rcases hty with ⟨hty,hw⟩ | ⟨hty,hcl⟩
  · have hnot := Finset.disjoint_left.1 h.disjoint hw
    rw [hty]
    refine ⟨?_,?_,h.control,?_,h.disjoint.mono_left (Finset.erase_subset ..),hcores⟩
    · exact (congrArg decU32 h.current).trans
        ((decU32_eq (Finset.card_pos.2 ⟨c,hmem⟩)).trans (Finset.card_erase_of_mem hmem).symm)
    · exact (congrArg decU32 h.worker).trans
        ((decU32_eq (Finset.card_pos.2 ⟨c,hw⟩)).trans (Finset.card_erase_of_mem hw).symm)
    · refine (congrArg (Finset.erase · c) h.logicMask).trans ?_
      rw [Finset.erase_union_distrib, Finset.erase_eq_of_notMem hnot]
      rfl
  · have hnot := Finset.disjoint_right.1 h.disjoint hcl
    rw [hty]
    refine ⟨?_,h.worker,?_,?_,h.disjoint.mono_right (Finset.erase_subset ..),hcores⟩
    · exact (congrArg decU32 h.current).trans
        ((decU32_eq (Finset.card_pos.2 ⟨c,hmem⟩)).trans (Finset.card_erase_of_mem hmem).symm)
    · exact (congrArg decU32 h.control).trans
        ((decU32_eq (Finset.card_pos.2 ⟨c,hcl⟩)).trans (Finset.card_erase_of_mem hcl).symm)
    · refine (congrArg (Finset.erase · c) h.logicMask).trans ?_
      rw [Finset.erase_union_distrib, Finset.erase_eq_of_notMem hnot]
      rfl

/-- No id is listed when none is counted. -/
theorem typeCount (h : m.Counted cfg) {ty : Option CoreType} (hty : ty ≠ some .external) :
    m.typeCount ty = (m.typeMask ty).card := by
  rcases ty with _ | _ | _ | _
  · exact h.current
  · exact h.worker
  · exact h.control
  · exact absurd rfl hty

theorem typeMask_lt (h : m.Counted cfg) {ty : Option CoreType} (hc : c ∈ m.typeMask ty) : c < cfg.coreCount := by
  rcases ty with _ | _ | _ | _
  · exact h.cores c hc
  · exact h.cores c (h.mem.2 (.inl hc))
  · exact h.cores c (h.mem.2 (.inr hc))
  · exact absurd hc (Finset.notMem_empty c)

end Counted
end CoreMap

namespace State
variable {s : State} {cfg : Config} {t c : Nat} {conf : ConfLocal} {a : Answers}

/-- Each EM core has an id of its own in the mask of its type. A failed initialisation may leave others there. -/
structure Counted (s : State) (cfg : Config) : Prop where
  map : s.map.Counted cfg
  holds : ∀ t, (s.locm t).isCoreLocalInited = true → (s.locm t).coreType ≠ some .external →
    ∃ c : Nat, (s.locm t).coreId = c ∧ ((s.locm t).coreType = some .worker ∧ c ∈ s.map.workerMask ∨
      (s.locm t).coreType = some .control ∧ c ∈ s.map.controlMask)
  distinct : s.NoSharing

theorem Initial.counted (hs : s.Initial) : s.Counted cfg := by
  obtain rfl := hs
  exact ⟨⟨rfl,rfl,rfl,rfl,Finset.disjoint_empty_left _,fun _ hc => absurd hc (Finset.notMem_empty _)⟩,
    fun _ h => absurd h Bool.false_ne_true,fun _ _ _ h => absurd h.1 Bool.false_ne_true⟩

theorem Counted.mem (h : s.Counted cfg) (hc : s.Holds t c) :
    (s.locm t).coreType = some .worker ∧ c ∈ s.map.workerMask ∨
      (s.locm t).coreType = some .control ∧ c ∈ s.map.controlMask := by
  obtain ⟨hin,hid,hty⟩ := hc
  obtain ⟨d,hd,hmem⟩ := h.holds t hin (by rcases hty with hty | hty <;> rw [hty] <;> decide)
  obtain rfl := Int.ofNat_inj.1 (hd.symm.trans hid)
  exact hmem

/-- A thread writes the map and its local memory: the ids of the others stay, and its own is none of them. -/
theorem Counted.setLocm (h : s.Counted cfg) {m : CoreMap} {locm : Locm} (map : m.Counted cfg)
    (others : ∀ u c, u ≠ t → s.Holds u c → (c ∈ s.map.workerMask → c ∈ m.workerMask) ∧
      (c ∈ s.map.controlMask → c ∈ m.controlMask))
    (own : locm.isCoreLocalInited = true → locm.coreType ≠ some .external →
      ∃ c : Nat, locm.coreId = c ∧ (∀ u, ¬s.Holds u c) ∧
        (locm.coreType = some .worker ∧ c ∈ m.workerMask ∨
          locm.coreType = some .control ∧ c ∈ m.controlMask)) :
    (s.setLocm t m locm).Counted cfg := by
  have hself : (s.setLocm t m locm).locm t = locm := Function.update_self ..
  have hother {u : Nat} (hu : u ≠ t) : (s.setLocm t m locm).locm u = s.locm u := Function.update_of_ne hu ..
  have hsame {u c : Nat} (hu : u ≠ t) : (s.setLocm t m locm).Holds u c ↔ s.Holds u c := by
    rw [Holds, Holds, hother hu]
  have hapart {u c : Nat} (ht : (s.setLocm t m locm).Holds t c) : ¬s.Holds u c := by
    rw [Holds, hself] at ht
    obtain ⟨d,hd,hout,-⟩ := own ht.1 (by rcases ht.2.2 with hty | hty <;> rw [hty] <;> decide)
    obtain rfl := Int.ofNat_inj.1 (hd.symm.trans ht.2.1)
    exact hout u
  refine ⟨map,fun u hin hty => ?_,fun u v c hu hv => ?_⟩
  · by_cases hu : u = t
    · obtain rfl := hu
      rw [hself] at hin hty ⊢
      obtain ⟨c,hc,-,hmem⟩ := own hin hty
      exact ⟨c,hc,hmem⟩
    · rw [hother hu] at hin hty ⊢
      obtain ⟨c,hc,hmem⟩ := h.holds u hin hty
      obtain ⟨hw,hcl⟩ := others u c hu ⟨hin,hc,hmem.imp And.left And.left⟩
      exact ⟨c,hc,hmem.imp (And.imp_right hw) (And.imp_right hcl)⟩
  · by_cases hut : u = t
    · obtain rfl := hut
      by_contra huv
      exact hapart hu ((hsame (Ne.symm huv)).1 hv)
    · by_cases hvt : v = t
      · obtain rfl := hvt
        exact absurd ((hsame hut).1 hu) (hapart hv)
      · exact h.distinct u v c ((hsame hut).1 hu) ((hsame hvt).1 hv)

theorem Counted.emInitLocal (h : s.Counted cfg) {odpType : OdpThreadType} :
    (s.emInitLocal cfg t odpType conf a).1.Counted cfg := by
  have hn : s.map.currentCoreCount ≤ 65536 := h.map.current ▸ h.map.card_le
  by_cases hearly : s.FailsEarly cfg t odpType conf a
  · obtain ⟨-,heq | ⟨-,locm,hlocm,heq⟩⟩ := emInitLocal_early hn hearly
    · rwa [heq]
    · rw [heq]
      refine h.setLocm h.map (fun _ _ _ _ => ⟨id,id⟩) fun hin => ?_
      rw [hlocm] at hin
      cases hin
  · obtain ⟨-,-,⟨-,heq⟩ | ⟨hty,c,hc,heq⟩⟩ := emInitLocal_entered hearly
    · rw [heq]
      exact h.setLocm ⟨h.map.current,h.map.worker,h.map.control,h.map.logicMask,h.map.disjoint,h.map.cores⟩
        (fun _ _ _ _ => ⟨id,id⟩) fun _ hne => absurd rfl hne
    · obtain ⟨hlt,hnot⟩ := CoreMap.determineCoreId_some hc
      rw [heq]
      refine h.setLocm (h.map.addCore hlt hnot) (fun u d _ _ => ?_) fun _ _ => ⟨c,rfl,fun u hu => ?_,?_⟩
      · rw [CoreMap.addCore_eq]
        rcases hty with hty | hty <;> rw [hty]
        · exact ⟨Finset.mem_insert_of_mem,id⟩
        · exact ⟨id,Finset.mem_insert_of_mem⟩
      · exact hnot (h.map.mem.2 ((h.mem hu).imp And.right And.right))
      · rw [CoreMap.addCore_eq]
        rcases hty with hty | hty <;> rw [hty]
        · exact .inl ⟨rfl,Finset.mem_insert_self ..⟩
        · exact .inr ⟨rfl,Finset.mem_insert_self ..⟩

theorem Counted.emTermLocal (h : s.Counted cfg) {later : Bool} : (s.emTermLocal t later).1.Counted cfg := by
  have hnone {P : Prop} (hin : Locm.isCoreLocalInited {} = true) : P := absurd hin Bool.false_ne_true
  rw [State.emTermLocal]
  split
  · exact h
  · rename_i hin
    have hin := Bool.of_not_eq_false hin
    have hcore (hty : (s.locm t).coreType ≠ some .external) :
        (s.setLocm t (s.map.termLocal t (s.locm t)) {}).Counted cfg := by
      obtain ⟨c,hid,hmem⟩ := h.holds t hin hty
      refine h.setLocm (h.map.termLocal hid hmem) (fun u d hu hd => ?_) hnone
      have hne : d ≠ c := by
        rintro rfl
        exact hu (h.distinct u t d hd ⟨hin,hid,hmem.imp And.left And.left⟩)
      rw [CoreMap.termLocal_eq, hid, Int.toNat_natCast]
      rcases hmem with ⟨hty,-⟩ | ⟨hty,-⟩ <;> rw [hty]
      · exact ⟨fun hw => Finset.mem_erase.2 ⟨hne,hw⟩,id⟩
      · exact ⟨id,fun hcl => Finset.mem_erase.2 ⟨hne,hcl⟩⟩
    cases hty : (s.locm t).coreType with
    | none => exact h
    | some ty =>
      cases ty with
      | external =>
        exact h.setLocm ⟨h.map.current,h.map.worker,h.map.control,h.map.logicMask,h.map.disjoint,h.map.cores⟩
          (fun _ _ _ _ => ⟨id,id⟩) hnone
      | worker => exact hcore (by rw [hty]; decide)
      | control => exact hcore (by rw [hty]; decide)

theorem reachable_counted (h : (system cfg).ReachableVia (fun _ _ _ => True) s) : s.Counted cfg := by
  refine h.invariant (I := fun s => s.Counted cfg) (fun _ => Initial.counted) fun s l t hs hst _ => ?_
  obtain rfl := Option.some.inj hst
  cases l with
  | init t odpType conf a => exact hs.emInitLocal
  | term t later => exact hs.emTermLocal

end State

namespace Reader
variable {w : Nat → State} {cfg : Config} {ty : Option CoreType} {body : Nat → Reader → Reader}

/-- The id is in the mask of the type. -/
def listed (ty : Option CoreType) (s : State) (c : Nat) : Bool := c ∈ s.map.typeMask ty

theorem cursor_ended {c : Reader} {size : Nat} (h : c.it.idx < 0) : c.cursor size = ⟨size,c.reads⟩ := by
  rw [cursor, if_pos h]

theorem cursor_at {c : Reader} {size : Nat} (h : ¬c.it.idx < 0) : c.cursor size = ⟨c.it.idx.toNat,c.reads⟩ := by
  rw [cursor, if_neg h]

variable (ty) in
/-- A call that searches the mask after `cpu` -/
theorem maskNext_seeks (hw : ∀ k, (w k).Counted cfg) (c : Reader) {cpu : Int} (hcpu : -1 ≤ cpu) (it : CoreIdIter)
    (hidx : it.idx = maskNext ((w c.reads).map.typeMask ty) cpu) :
    Cursor.Seeks w (listed ty) cfg.coreCount (cpu+1).toNat (c.cursor cfg.coreCount)
      (idOf it.idx,cursor ⟨it,c.reads+1⟩ cfg.coreCount) := by
  have hmissed {j : Nat} (hj : j ∉ (w c.reads).map.typeMask ty) :
      Cursor.Missed w (listed ty) c.reads (c.reads+1) j :=
    ⟨c.reads,Nat.le_refl _,Nat.lt_succ_self _,decide_eq_false hj⟩
  rcases maskNext_spec ((w c.reads).map.typeMask ty) cpu with ⟨heq,hnot⟩ | ⟨d,hd,heq,hlt,hmin⟩
  · rw [heq] at hidx
    have hneg : it.idx < 0 := hidx ▸ (by decide)
    rw [idOf, if_pos hneg, cursor_ended (c := ⟨it,_⟩) hneg]
    refine ⟨Nat.le_succ _,fun k hk => (by cases hk),fun _ => Nat.le_succ _,fun j hj _ _ => hmissed fun hjm => ?_⟩
    exact hnot j hjm (by omega)
  · rw [heq] at hidx
    have hneg : ¬it.idx < 0 := by omega
    rw [idOf, if_neg hneg, cursor_at (c := ⟨it,_⟩) hneg, hidx, Int.toNat_natCast]
    refine ⟨Nat.le_succ _,fun k hk => ?_,fun hn => (by cases hn),fun j hj _ hbefore => hmissed fun hjm => ?_⟩
    · obtain rfl := Option.some.inj hk
      exact ⟨rfl,by omega,(hw _).map.typeMask_lt hd,Nat.lt_succ_self _,decide_eq_true hd⟩
    · exact absurd (hmin j hjm (by omega)) (Nat.not_le_of_lt (hbefore d rfl))

theorem next_seeks (hw : ∀ k, (w k).Counted cfg) (c : Reader) (hsrc : c.it.src = ty) : (next w c).2.it.src = ty ∧
    Cursor.Seeks w (listed ty) cfg.coreCount ((c.cursor cfg.coreCount).idx+1) (c.cursor cfg.coreCount)
      (idOf (next w c).1,(next w c).2.cursor cfg.coreCount) := by
  by_cases hneg : c.it.idx < 0
  · have hnext : next w c = (-1,⟨c.it,c.reads+1⟩) := by rw [next, CoreMap.emCoreIdNext, if_pos hneg]
    rw [hnext, cursor_ended hneg]
    dsimp only
    rw [cursor_ended (c := ⟨c.it,c.reads+1⟩) hneg]
    exact ⟨hsrc,Nat.le_succ _,fun k hk => (by cases hk),fun _ => Nat.le_succ _,fun j hj hlt _ => (by omega)⟩
  · have hnext : ∃ it : CoreIdIter, next w c = (it.idx,⟨it,c.reads+1⟩) ∧ it.src = ty ∧
        it.idx = maskNext ((w c.reads).map.typeMask ty) c.it.idx := by
      rw [next, CoreMap.emCoreIdNext, if_neg hneg, hsrc]
      dsimp only
      rcases maskNext_spec ((w c.reads).map.typeMask ty) c.it.idx with ⟨heq,-⟩ | ⟨d,-,heq,-⟩
      · rw [heq]
        exact ⟨⟨-1,ty⟩,rfl,rfl,rfl⟩
      · rw [heq, if_neg (by omega)]
        exact ⟨⟨d,ty⟩,rfl,rfl,rfl⟩
    obtain ⟨it,hnext,hty,hidx⟩ := hnext
    have hs := maskNext_seeks ty hw c (by omega) it hidx
    rw [hnext]
    refine ⟨hty,?_⟩
    rw [cursor_at hneg] at hs ⊢
    rwa [show (c.it.idx+1).toNat = c.it.idx.toNat+1 by omega] at hs

theorem first_seeks (hw : ∀ k, (w k).Counted cfg) (hty : ty ≠ some .external) (c : Reader)
    (hcount : (w c.reads).map.typeCount ty ≠ 0) : (first w ty c).2.2.it.src = ty ∧
      Cursor.Seeks w (listed ty) cfg.coreCount 0 (c.cursor cfg.coreCount)
        (idOf (first w ty c).1,(first w ty c).2.2.cursor cfg.coreCount) := by
  have hs := maskNext_seeks ty hw c (Int.le_refl (-1))
    ⟨maskNext ((w c.reads).map.typeMask ty) (-1),ty⟩ rfl
  rw [first, CoreMap.emCoreIdFirst, if_neg hty, if_neg hcount]
  exact ⟨rfl,hs⟩

/-- The body of a loop leaves the iteration alone and may read the map. -/
def Keeps (body : Nat → Reader → Reader) : Prop := ∀ i c, (body i c).it = c.it ∧ c.reads ≤ (body i c).reads

/-- What a loop from `c` to `d` has visited -/
structure Looped (w : Nat → State) (ty : Option CoreType) (cfg : Config) (c : Reader) (l : List (Nat × Nat))
    (d : Reader) : Prop where
  reads : c.reads < d.reads
  sorted : l.Pairwise fun a b => a.1 < b.1
  hits : ∀ a ∈ l, c.reads ≤ a.2 ∧ a.2 < d.reads ∧ a.1 ∈ (w a.2).map.typeMask ty
  complete : ∀ i, (∀ k, c.reads ≤ k → k < d.reads → i ∈ (w k).map.typeMask ty) → i ∈ l.map Prod.fst
  ended : (next w d).1 < 0

theorem next_ended (hw : ∀ k, (w k).Counted cfg) (c : Reader) (hsrc : c.it.src = ty)
    (h : cfg.coreCount ≤ (c.cursor cfg.coreCount).idx+1) : (next w c).1 < 0 := by
  obtain ⟨-,hs⟩ := next_seeks hw c hsrc
  by_contra hneg
  obtain ⟨-,hle,hlt,-⟩ := hs.found _ (if_neg hneg)
  omega

theorem missed_false {m n i : Nat} (h : Cursor.Missed w (listed ty) m n i)
    (hall : ∀ k, m ≤ k → k < n → i ∈ (w k).map.typeMask ty) : False := by
  obtain ⟨k,hm,hn,hk⟩ := h
  exact of_decide_eq_false hk (hall k hm hn)

theorem Keeps.cursor (hbody : Keeps body) (i : Nat) (c : Reader) (hsrc : c.it.src = ty) :
    (body i c).it.src = ty ∧ ((body i c).cursor cfg.coreCount).idx = (c.cursor cfg.coreCount).idx ∧
      (c.cursor cfg.coreCount).reads ≤ ((body i c).cursor cfg.coreCount).reads := by
  obtain ⟨hit,hreads⟩ := hbody i c
  refine ⟨(congrArg CoreIdIter.src hit).trans hsrc,?_,hreads⟩
  rw [Reader.cursor, Reader.cursor, hit]

variable {c d : Reader} {l : List (Nat × Nat)}

theorem ids_looped (hw : ∀ k, (w k).Counted cfg) (hty : ty ≠ some .external) (hbody : Keeps body) (c : Reader) :
    ∃ l d, coreIds w ty c cfg body = some (l,d) ∧ Looped w ty cfg c l d := by
  by_cases hcount : (w c.reads).map.typeCount ty = 0
  · have hmask : (w c.reads).map.typeMask ty = ∅ := by
      rwa [(hw c.reads).map.typeCount hty, Finset.card_eq_zero] at hcount
    have hfirst : first w ty c = (-1,0,⟨{ c.it with idx := -1 },c.reads+1⟩) := by
      rw [first, CoreMap.emCoreIdFirst, if_neg hty, hcount]
      rfl
    refine ⟨[],⟨{ c.it with idx := -1 },c.reads+1⟩,?_,Nat.lt_succ_self _,.nil,
      fun a ha => absurd ha List.not_mem_nil,fun i hi => ?_,?_⟩
    · rw [coreIds, hfirst]
      exact Cursor.visitsWith_none ..
    · have hi := hi c.reads (Nat.le_refl _) (Nat.lt_succ_self _)
      rw [hmask] at hi
      exact absurd hi (Finset.notMem_empty i)
    · exact (by decide : (-1 : Int) < 0)
  · obtain ⟨hsrc,hs⟩ := first_seeks hw hty c hcount
    have hreads : (first w ty c).2.2.reads = c.reads+1 := rfl
    rw [coreIds]
    generalize first w ty c = f at hsrc hs hreads ⊢
    obtain ⟨idx,num,e⟩ := f
    dsimp only at hsrc hs hreads ⊢
    cases hid : idOf idx with
    | none =>
      rw [hid] at hs
      refine ⟨[],e,Cursor.visitsWith_none .., hreads ▸ Nat.lt_succ_self _,.nil,
        fun a ha => absurd ha List.not_mem_nil,fun i hi => ?_,next_ended hw e hsrc (hs.ended rfl)⟩
      have hlt := (hw c.reads).map.typeMask_lt (hi c.reads (Nat.le_refl _) (hreads ▸ Nat.lt_succ_self _))
      exact (missed_false (hs.missed i (Nat.zero_le i) hlt fun k hk => (by cases hk)) hi).elim
    | some i =>
      rw [hid] at hs
      obtain ⟨hidx,-,hi,-,hhit⟩ := hs.found i rfl
      obtain ⟨l,d,hl,hd,hv⟩ := Cursor.visitsWith_some w (listed ty) (cursor · cfg.coreCount)
        (fun c => (idOf (next w c).1,(next w c).2)) (fun c => c.it.src = ty) (fun c hc => next_seeks hw c hc)
        (fun i c hc => hbody.cursor i c hc) (r := (some i,e)) hsrc rfl hidx hi (Nat.sub_le ..)
      have hdr : e.reads ≤ d.reads := hv.reads
      refine ⟨_,d,hl,by omega,?_,?_,fun j hj => ?_,next_ended hw d hd hv.ended⟩
      · refine List.pairwise_cons.2 ⟨fun a ha => ?_,hv.sorted.imp And.left⟩
        exact hidx ▸ (hv.hits a ha).1
      · refine List.forall_mem_cons.2 ⟨⟨?_,?_,of_decide_eq_true hhit⟩,fun a ha => ?_⟩
        · show c.reads ≤ e.reads-1
          omega
        · show e.reads-1 < d.reads
          omega
        · obtain ⟨-,-,hlo,hlt,hhit⟩ := hv.hits a ha
          have hlo : e.reads ≤ a.2 := hlo
          exact ⟨by omega,hlt,of_decide_eq_true hhit⟩
      · have hlt := (hw c.reads).map.typeMask_lt (hj c.reads (Nat.le_refl _) (by omega))
        rw [List.map_cons, List.mem_cons]
        rcases Nat.lt_trichotomy j i with hji | rfl | hij
        · refine (missed_false ((hs.missed j (Nat.zero_le j) hlt ?_).mono (Nat.le_refl _) hdr) hj).elim
          rintro k ⟨⟩
          exact hji
        · exact .inl rfl
        · refine .inr ((hv.complete j (hidx ▸ hij) hlt).resolve_right fun hm => ?_)
          exact missed_false (hm.mono (show c.reads ≤ e.reads by omega) (Nat.le_refl _)) hj

theorem Looped.toFinset (h : Looped w ty cfg c l d)
    (hsame : ∀ k, c.reads ≤ k → k < d.reads → (w k).map.typeMask ty = (w c.reads).map.typeMask ty) :
    (l.map Prod.fst).toFinset = (w c.reads).map.typeMask ty := by
  ext i
  rw [List.mem_toFinset]
  constructor
  · intro hi
    obtain ⟨a,ha,rfl⟩ := List.mem_map.1 hi
    obtain ⟨hlo,hlt,hmem⟩ := h.hits a ha
    rwa [hsame a.2 hlo hlt] at hmem
  · intro hi
    refine h.complete i fun k hlo hlt => ?_
    rwa [hsame k hlo hlt]

theorem first_num (hw : ∀ k, (w k).Counted cfg) (hty : ty ≠ some .external) (c : Reader) :
    (first w ty c).2.1 = ((w c.reads).map.typeMask ty).card := by
  rw [first, CoreMap.emCoreIdFirst, if_neg hty, ← (hw c.reads).map.typeCount hty]
  dsimp only
  split <;> rfl

/-- However EM cores are added and removed during an iteration, it ends, returns ids in ascending order, each of a
core that is there when it is found, and returns every id that is there all the time. The number from
`em_core_id_first` is that of the ids if none comes or goes. -/
theorem core_ids_exact (hw : (system cfg).Sampled (fun _ _ _ => True) w) (hty : ty ≠ some .external)
    (hbody : Keeps body) (c : Reader) : ∃ l d, coreIds w ty c cfg body = some (l,d) ∧
      (l.Pairwise fun a b => a.1 < b.1) ∧
      (∀ a ∈ l, c.reads ≤ a.2 ∧ a.2 < d.reads ∧ a.1 ∈ (w a.2).map.typeMask ty) ∧
      (∀ i, (∀ k, c.reads ≤ k → k < d.reads → i ∈ (w k).map.typeMask ty) → i ∈ l.map Prod.fst) ∧
      ((∀ k, c.reads ≤ k → k < d.reads → (w k).map.typeMask ty = (w c.reads).map.typeMask ty) →
        l.length = (first w ty c).2.1) ∧
      (next w d).1 < 0 := by
  have hw k : (w k).Counted cfg := State.reachable_counted (hw.reachable k)
  obtain ⟨l,d,hl,h⟩ := ids_looped hw hty hbody c
  refine ⟨l,d,hl,h.sorted,h.hits,h.complete,fun hsame => ?_,h.ended⟩
  have hnodup : (l.map Prod.fst).Nodup := List.pairwise_map.2 (h.sorted.imp fun hab => hab.ne)
  rw [first_num hw hty, ← h.toFinset hsame, List.toFinset_card_of_nodup hnodup, List.length_map]

end Reader

private theorem threeCores_pos : 0 < 3 := by decide
private theorem threeCores_le : 3 ≤ 256 := by decide
private theorem threeCores_thr : 3 ≤ 8 := by decide
private theorem threeCores_thrMax : 8 ≤ 65536 := by decide

private def threeCores : Config := ⟨3,8,threeCores_pos,threeCores_le,threeCores_thr,threeCores_thrMax⟩

/-- The third EM core stays in the map although its initialisation fails in the end. -/
private def allIn : State :=
  let s := (State.emInitLocal ⟨{},fun _ => {}⟩ threeCores 4 .worker ⟨.worker,-1⟩ {}).1
  let s := (s.emInitLocal threeCores 5 .worker ⟨.worker,-1⟩ {}).1
  (s.emInitLocal threeCores 6 .worker ⟨.worker,-1⟩ { timer := .libFailed }).1

/-- The second EM core leaves between the first two reads. -/
private def left (k : Nat) : State := if k = 0 then allIn else (allIn.emTermLocal 5 true).1

private theorem left_sampled : (system threeCores).Sampled (fun _ _ _ => True) left where
  start := .step (.step (.step (.start rfl) (l := .init 4 .worker ⟨.worker,-1⟩ {}) rfl trivial)
    (l := .init 5 .worker ⟨.worker,-1⟩ {}) rfl trivial)
    (l := .init 6 .worker ⟨.worker,-1⟩ { timer := .libFailed }) rfl trivial
  next k := by
    cases k with
    | zero => exact .single ⟨.term 5 true,rfl,trivial⟩
    | succ k => exact .refl

private theorem first_stays (k : Nat) : 0 ∈ (left k).map.typeMask (some .worker) := by
  cases k with
  | zero => exact (by decide : 0 ∈ allIn.map.workerMask)
  | succ k => exact (by decide : 0 ∈ (allIn.emTermLocal 5 true).1.map.workerMask)

theorem core_ids_exact_left : ∃ l d,
    Reader.coreIds left (some .worker) ⟨{},0⟩ threeCores (fun _ c => c) = some (l,d) ∧ 0 ∈ l.map Prod.fst := by
  have hbody : Reader.Keeps fun _ c => c := fun _ _ => ⟨rfl,Nat.le_refl _⟩
  have hty : some CoreType.worker ≠ some .external := by decide
  obtain ⟨l,d,hl,-,-,hall,-⟩ := Reader.core_ids_exact left_sampled hty hbody ⟨{},0⟩
  exact ⟨l,d,hl,hall 0 fun k _ _ => first_stays k⟩

example : (Reader.coreIds left (some .worker) ⟨{},0⟩ threeCores fun _ c => c).map (fun r => r.1) =
    some [(0,0),(2,1)] := by
  decide

end EmOdp.Threads
