import EmOdp.QueueGroup.Convergence
import EmOdp.Threads.InitRuns

/-! Which threads are in the ODP schedule groups, while cores leave and come back. Each operation is one step, taken
when all cores have handled its requests. -/
namespace EmOdp.QueueGroup.LifeCycles
open Lib Threads

/-- The queue groups by the names that `em_queue_group_find` looks for -/
inductive Name where
  | default
  /-- `core_queue_grp_name` -/
  | core (c : Nat)
  | user (i : Nat)
  deriving DecidableEq

/-- `core_mask` of a `queue_group_elem_t`, and the threads in its `odp_sched_group` -/
structure Group where
  coreMask : Finset Nat
  schedGroup : Finset Nat
  deriving DecidableEq

namespace Group
variable (e : Group) (thr : Nat → Nat)

/-- A step of `queue_group_leave_all`, with `q_grp_rem_core` -/
def leave (c t : Nat) : Group := if c ∈ e.coreMask then ⟨e.coreMask.erase c,e.schedGroup.erase t⟩ else e

/-- The cores that `queue_group_modify` sends requests to -/
def asked (newMask : Finset Nat) : Finset Nat := addMask e.coreMask newMask ∪ remMask e.coreMask newMask

/-- `queue_group_modify`, with the requests handled by the threads they are sent to -/
def modify (newMask : Finset Nat) : Group :=
  ⟨newMask,(e.schedGroup \ (remMask e.coreMask newMask).image thr) ∪ (addMask e.coreMask newMask).image thr⟩

end Group

/-- `core_map_t`, the allocated queue groups, and for each of them the threads that a core has joined on its
return. -/
structure State where
  threads : Threads.State
  group : Name → Option Group
  /-- since then no request has been sent to the thread -/
  rejoined : Name → Finset Nat

namespace State
variable (s : State)

/-- the running cores -/
def logicMask : Finset Nat := s.threads.map.logicMask

def odpThr : Nat → Nat := s.threads.map.odpThr

def put (g : Name) (e : Option Group) (rejoined : Finset Nat) : State :=
  { s with group := Function.update s.group g e, rejoined := Function.update s.rejoined g rejoined }

/-- `default_queue_group_join` -/
def defaultQueueGroupJoin (e : Group) (c t : Nat) : State :=
  s.put .default (some ⟨insert c e.coreMask,insert t e.schedGroup⟩) (s.rejoined .default)

/-- `core_queue_group_create` and `core_queue_group_join`: a group of that name is used as it is -/
def coreQueueGroup (c t : Nat) : State :=
  match s.group (.core c) with
  | some e => s.put (.core c) (some { e with schedGroup := insert t e.schedGroup }) (insert t (s.rejoined (.core c)))
  | none => s.put (.core c) (some ⟨{c},insert t ∅⟩) ∅

/-- `queue_group_init_local`, with the option `create_core_queue_groups` -/
def queueGroupInitLocal (createCore : Bool) (c t : Nat) : Option State :=
  (s.group .default).map fun e =>
    let s := s.defaultQueueGroupJoin e c t
    if createCore then s.coreQueueGroup c t else s

/-- `queue_group_leave_all` -/
def queueGroupLeaveAll (c t : Nat) : State := { s with group := fun g => (s.group g).map (·.leave c t) }

end State

inductive Label where
  /-- `em_init_local`, and `em_init_core` with its own configuration -/
  | init (thr : Nat) (odpType : OdpThreadType) (conf : ConfLocal) (a : Answers)
  /-- `em_term_local` and `em_term_core` -/
  | term (thr : Nat)
  /-- `em_queue_group_create` and `em_queue_group_create_sync` -/
  | create (g : Name) (mask : Finset Nat)
  /-- `em_queue_group_modify` and `em_queue_group_modify_sync` -/
  | modify (g : Name) (newMask : Finset Nat)
  /-- `em_queue_group_delete` and `em_queue_group_delete_sync` of a group without queues -/
  | delete (g : Name)

/-- The calls that succeed -/
def State.step (s : State) (cfg : Config) (createCore : Bool) : Label → Option State
  | .init t odpType conf a =>
    let (threads,stat) := s.threads.emInitLocal cfg t odpType conf a
    if stat ≠ .ok then none
    else if conf.coreType = .external then some { s with threads }
    else { s with threads }.queueGroupInitLocal createCore (threads.locm t).coreId.toNat t
  | .term t =>
    let (threads,stat) := s.threads.emTermLocal t true
    if stat ≠ .ok then none
    else if (s.threads.locm t).coreType = some .external then some { s with threads }
    else some ({ s with threads }.queueGroupLeaveAll (s.threads.locm t).coreId.toNat t)
  | .create g mask =>
    -- `queue_group_check_mask`
    if g ≠ .default ∧ s.group g = none ∧ mask ⊆ s.logicMask then
      some (s.put g (some ⟨mask,mask.image s.odpThr⟩) ∅)
    else none
  | .modify g newMask =>
    match s.group g with
    | some e =>
      if newMask ⊆ s.logicMask then
        some (s.put g (some (e.modify s.odpThr newMask)) (s.rejoined g \ (e.asked newMask).image s.odpThr))
      else none
    | none => none
  | .delete g => (s.group g).map fun _ => s.put g none ∅

/-- `em_init` has created the default group, with `default_queue_group_create`. -/
structure State.Initial (s : State) : Prop where
  threads : s.threads.Initial
  group : s.group = Function.update (fun _ => none) .default (some ⟨∅,∅⟩)
  rejoined : s.rejoined = fun _ => ∅

def machine (cfg : Config) (createCore : Bool) : System State Label :=
  System.ofFn State.Initial (State.step · cfg createCore)

/-- The requests of `queue_group_modify` are for the cores whose membership has to change. -/
def Group.AsksRight (e : Group) (logicMask : Finset Nat) (thr : Nat → Nat) : Prop :=
  ∀ newMask ⊆ logicMask, addMask e.coreMask newMask = newMask.filter (thr · ∉ e.schedGroup) ∧
    remMask e.coreMask newMask = (logicMask.filter (thr · ∈ e.schedGroup)) \ newMask

/-- The threads in the schedule group are those of the cores in the mask, which are running, and others. -/
structure Group.Exact (e : Group) (logicMask : Finset Nat) (thr : Nat → Nat) (rejoined : Finset Nat) : Prop where
  coreMask : e.coreMask ⊆ logicMask
  schedGroup : e.schedGroup = e.coreMask.image thr ∪ rejoined
  disjoint : Disjoint (e.coreMask.image thr) rejoined

namespace Group
variable {e : Group} {logicMask : Finset Nat} {thr thr' : Nat → Nat} {rejoined newMask : Finset Nat} {c t : Nat}

/-- Other cores come and go. -/
theorem Exact.congr (h : e.Exact logicMask thr rejoined) {logicMask' : Finset Nat}
    (hmask : ∀ c ∈ e.coreMask, c ∈ logicMask' ∧ thr' c = thr c) : e.Exact logicMask' thr' rejoined := by
  have heq : e.coreMask.image thr' = e.coreMask.image thr := Finset.image_congr fun c hc => (hmask c hc).2
  exact ⟨fun c hc => (hmask c hc).1,heq ▸ h.schedGroup,heq ▸ h.disjoint⟩

theorem exact_image {mask : Finset Nat} (h : mask ⊆ logicMask) : Exact ⟨mask,mask.image thr⟩ logicMask thr ∅ :=
  ⟨h,(Finset.union_empty _).symm,Finset.disjoint_empty_right _⟩

theorem mem_image (hinj : Set.InjOn thr logicMask) {mask : Finset Nat} (hmask : mask ⊆ logicMask)
    (hc : c ∈ logicMask) : thr c ∈ mask.image thr ↔ c ∈ mask := by
  rw [Finset.mem_image]
  refine ⟨?_,fun h => ⟨c,h,rfl⟩⟩
  rintro ⟨d,hd,heq⟩
  exact hinj (hmask hd) hc heq ▸ hd

theorem mem_asked {d : Nat} : d ∈ e.asked newMask ↔ (d ∈ e.coreMask ↔ d ∉ newMask) := by
  rw [asked, Finset.mem_union, mem_addMask, mem_remMask]
  tauto

theorem asked_subset (h : e.coreMask ⊆ logicMask) (hnew : newMask ⊆ logicMask) : e.asked newMask ⊆ logicMask := by
  intro d hd
  rw [mem_asked] at hd
  by_cases hdn : d ∈ newMask
  · exact hnew hdn
  · exact h (hd.2 hdn)

theorem Exact.modify (h : e.Exact logicMask thr rejoined) (hinj : Set.InjOn thr logicMask)
    (hnew : newMask ⊆ logicMask) :
    (e.modify thr newMask).Exact logicMask thr (rejoined \ (e.asked newMask).image thr) := by
  have hasked := asked_subset h.coreMask hnew
  have hadd : addMask e.coreMask newMask ⊆ logicMask := Finset.union_subset_left hasked
  have hrem : remMask e.coreMask newMask ⊆ logicMask := Finset.union_subset_right hasked
  have hdisj {d : Nat} (hd : d ∈ e.coreMask) : thr d ∉ rejoined :=
    Finset.disjoint_left.1 h.disjoint (Finset.mem_image_of_mem _ hd)
  refine ⟨hnew,?_,?_⟩
  · ext t
    simp only [Group.modify, h.schedGroup, Finset.mem_union, Finset.mem_sdiff]
    by_cases ht : t ∈ logicMask.image thr
    · obtain ⟨d,hd,rfl⟩ := Finset.mem_image.1 ht
      simp only [mem_image hinj _ hd, hnew, hasked, hadd, hrem, h.coreMask, mem_asked, mem_addMask, mem_remMask]
      have hno := @hdisj d
      tauto
    · have hout {mask : Finset Nat} (hmask : mask ⊆ logicMask) : t ∉ mask.image thr :=
        fun hm => ht (Finset.image_subset_image hmask hm)
      simp only [hout hnew, hout hasked, hout hadd, hout hrem, hout h.coreMask, false_or, or_false,
        not_false_eq_true, and_true]
  · rw [Finset.disjoint_left]
    intro t ht hre
    obtain ⟨hre,hnot⟩ := Finset.mem_sdiff.1 hre
    obtain ⟨d,hd,rfl⟩ := Finset.mem_image.1 ht
    rw [mem_image hinj hasked (hnew hd), mem_asked] at hnot
    by_cases hdc : d ∈ e.coreMask
    · exact hdisj hdc hre
    · exact hnot (iff_of_false hdc (not_not.2 hd))

theorem Exact.leave (h : e.Exact logicMask thr rejoined) (hinj : Set.InjOn thr logicMask) (hc : c ∈ logicMask) :
    (e.leave c (thr c)).Exact (logicMask.erase c) thr rejoined := by
  rw [Group.leave]
  split
  · rename_i hmem
    have hnot : thr c ∉ rejoined := Finset.disjoint_left.1 h.disjoint (Finset.mem_image_of_mem _ hmem)
    have himage : (e.coreMask.erase c).image thr = (e.coreMask.image thr).erase (thr c) := by
      ext t
      simp only [Finset.mem_image, Finset.mem_erase]
      constructor
      · rintro ⟨d,⟨hne,hd⟩,rfl⟩
        exact ⟨fun heq => hne (hinj (h.coreMask hd) hc heq),d,hd,rfl⟩
      · rintro ⟨hne,d,hd,rfl⟩
        exact ⟨d,⟨fun heq => hne (congrArg thr heq),hd⟩,rfl⟩
    refine ⟨Finset.erase_subset_erase _ h.coreMask,?_,?_⟩
    · dsimp only
      rw [himage, h.schedGroup, Finset.erase_union_distrib, Finset.erase_eq_of_notMem hnot]
    · exact h.disjoint.mono_left (Finset.image_subset_image (Finset.erase_subset ..))
  · rename_i hmem
    exact h.congr fun d hd => ⟨Finset.mem_erase.2 ⟨ne_of_mem_of_not_mem hd hmem,h.coreMask hd⟩,rfl⟩

theorem Exact.matches_iff (h : e.Exact logicMask thr rejoined) :
    e.schedGroup = e.coreMask.image thr ↔ rejoined = ∅ := by
  rw [h.schedGroup, Finset.union_eq_left]
  refine ⟨fun hsub => ?_,fun hempty => hempty ▸ Finset.empty_subset _⟩
  rw [← Finset.disjoint_self_iff_empty]
  exact h.disjoint.mono_left hsub

/-- What a modify asks for is right when the mask tells of all members that run. -/
theorem Exact.asksRight_iff (h : e.Exact logicMask thr rejoined) (hinj : Set.InjOn thr logicMask) :
    e.AsksRight logicMask thr ↔ Disjoint (logicMask.image thr) rejoined := by
  have hmem {d : Nat} (hd : d ∈ logicMask) : thr d ∈ e.schedGroup ↔ d ∈ e.coreMask ∨ thr d ∈ rejoined := by
    rw [h.schedGroup, Finset.mem_union, mem_image hinj h.coreMask hd]
  constructor
  · intro hright
    rw [Finset.disjoint_left]
    intro t ht hre
    obtain ⟨d,hd,rfl⟩ := Finset.mem_image.1 ht
    -- a modify to the mask as it is asks nothing of the thread
    have hrem := (hright e.coreMask h.coreMask).2
    have hdc : d ∈ e.coreMask := by
      by_contra hdc
      have hin : d ∈ logicMask.filter (thr · ∈ e.schedGroup) \ e.coreMask :=
        Finset.mem_sdiff.2 ⟨Finset.mem_filter.2 ⟨hd,(hmem hd).2 (.inr hre)⟩,hdc⟩
      rw [← hrem, mem_remMask] at hin
      exact hdc hin.1
    exact Finset.disjoint_left.1 h.disjoint (Finset.mem_image_of_mem _ hdc) hre
  · intro hdisj newMask hnew
    have hmem {d : Nat} (hd : d ∈ logicMask) : thr d ∈ e.schedGroup ↔ d ∈ e.coreMask :=
      (hmem hd).trans (or_iff_left (Finset.disjoint_left.1 hdisj (Finset.mem_image_of_mem _ hd)))
    constructor
    · ext d
      rw [mem_addMask, Finset.mem_filter]
      exact and_congr_right fun hd => not_congr (hmem (hnew hd)).symm
    · ext d
      rw [mem_remMask, Finset.mem_sdiff, Finset.mem_filter]
      refine and_congr_left' ⟨fun hd => ⟨h.coreMask hd,(hmem (h.coreMask hd)).2 hd⟩,fun hd => (hmem hd.1).1 hd.2⟩

/-- The core joins with its bit in the mask. -/
theorem Exact.join (h : e.Exact logicMask thr rejoined) (hc : c ∈ logicMask) (hnot : thr c ∉ rejoined) :
    Exact ⟨insert c e.coreMask,insert (thr c) e.schedGroup⟩ logicMask thr rejoined := by
  refine ⟨Finset.insert_subset hc h.coreMask,?_,?_⟩
  · dsimp only
    rw [h.schedGroup, Finset.image_insert, Finset.insert_union]
  · dsimp only
    rw [Finset.image_insert]
    exact Finset.disjoint_insert_left.2 ⟨hnot,h.disjoint⟩

/-- The core joins without it. -/
theorem Exact.rejoin (h : e.Exact logicMask thr rejoined) (hnot : thr c ∉ e.coreMask.image thr) :
    Exact { e with schedGroup := insert (thr c) e.schedGroup } logicMask thr (insert (thr c) rejoined) := by
  refine ⟨h.coreMask,?_,Finset.disjoint_insert_right.2 ⟨hnot,h.disjoint⟩⟩
  dsimp only
  rw [h.schedGroup, Finset.union_insert]

end Group

namespace State
variable {s u : State} {cfg : Config} {createCore : Bool} {t c : Nat} {g : Name} {e : Group}

structure Inv (s : State) (cfg : Config) : Prop where
  threads : s.threads.Inv cfg
  exact : ∀ g e, s.group g = some e → e.Exact s.logicMask s.odpThr (s.rejoined g)
  rejoined : ∀ g, (s.rejoined g).Nonempty → ∃ c, g = .core c

theorem Inv.injOn (h : s.Inv cfg) : Set.InjOn s.odpThr s.logicMask := by
  intro c hc d hd heq
  have hback := h.threads.map.logic_odpThr
  exact (hback c hc).symm.trans ((congrArg s.threads.map.logic heq).trans (hback d hd))

theorem put_self {e : Option Group} {rejoined : Finset Nat} :
    (s.put g e rejoined).group g = e ∧ (s.put g e rejoined).rejoined g = rejoined :=
  ⟨Function.update_self ..,Function.update_self ..⟩

theorem put_of_ne {e : Option Group} {rejoined : Finset Nat} {g' : Name} (hne : g' ≠ g) :
    (s.put g e rejoined).group g' = s.group g' ∧ (s.put g e rejoined).rejoined g' = s.rejoined g' :=
  ⟨Function.update_of_ne hne ..,Function.update_of_ne hne ..⟩

theorem Inv.put (h : s.Inv cfg) {e : Option Group} {rejoined : Finset Nat}
    (hexact : ∀ e', e = some e' → e'.Exact s.logicMask s.odpThr rejoined)
    (hcore : rejoined.Nonempty → ∃ c, g = .core c) : (s.put g e rejoined).Inv cfg := by
  have hpoint (g' : Name) : (∀ e', (s.put g e rejoined).group g' = some e' →
      e'.Exact s.logicMask s.odpThr ((s.put g e rejoined).rejoined g')) ∧
        (((s.put g e rejoined).rejoined g').Nonempty → ∃ c, g' = .core c) := by
    by_cases hg : g' = g
    · obtain rfl := hg
      rw [put_self.1, put_self.2]
      exact ⟨hexact,hcore⟩
    · rw [(put_of_ne hg).1, (put_of_ne hg).2]
      exact ⟨h.exact g',h.rejoined g'⟩
  exact ⟨h.threads,fun g' => (hpoint g').1,fun g' => (hpoint g').2⟩

/-- The map changes, but not for the cores in the masks. -/
theorem Inv.withThreads (h : s.Inv cfg) {threads : Threads.State} (hthreads : threads.Inv cfg)
    (hkept : ∀ g e, s.group g = some e → ∀ c ∈ e.coreMask, c ∈ threads.map.logicMask ∧
      threads.map.odpThr c = s.odpThr c) : State.Inv { s with threads } cfg :=
  ⟨hthreads,fun g e he => (h.exact g e he).congr (hkept g e he),h.rejoined⟩

/-- A running core, of which no mask tells yet, joins its groups. -/
theorem Inv.queueGroupInitLocal (h : s.Inv cfg) (hc : c ∈ s.logicMask) (ht : s.odpThr c = t)
    (hnot : ∀ g e, s.group g = some e → c ∉ e.coreMask)
    (hu : s.queueGroupInitLocal createCore c t = some u) : u.Inv cfg := by
  obtain rfl := ht
  obtain ⟨e,he,hu⟩ := Option.map_eq_some_iff.1 hu
  have hempty : s.rejoined .default = ∅ := by
    by_contra hne
    obtain ⟨c,hc⟩ := h.rejoined .default (Finset.nonempty_iff_ne_empty.2 hne)
    cases hc
  have hjoined : (s.defaultQueueGroupJoin e c (s.odpThr c)).Inv cfg := by
    refine h.put (fun e' he' => ?_) fun hne => h.rejoined _ hne
    obtain rfl := Option.some.inj he'
    exact (h.exact .default e he).join hc (hempty ▸ Finset.notMem_empty _)
  dsimp only at hu
  split at hu
  · obtain rfl := hu
    have hsame : (s.defaultQueueGroupJoin e c (s.odpThr c)).group (.core c) = s.group (.core c) :=
      (put_of_ne fun hn => by cases hn).1
    rw [coreQueueGroup, hsame]
    split
    · rename_i e' he'
      refine hjoined.put (fun e'' he'' => ?_) fun _ => ⟨c,rfl⟩
      obtain rfl := Option.some.inj he''
      have hex := hjoined.exact (.core c) e' (hsame.trans he')
      refine hex.rejoin fun hmem => hnot _ _ he' ?_
      exact (Group.mem_image hjoined.injOn hex.coreMask hc).1 hmem
    · refine hjoined.put (fun e' he' => ?_) fun hne => absurd hne Finset.not_nonempty_empty
      obtain rfl := Option.some.inj he'
      exact Group.exact_image (Finset.singleton_subset_iff.2 hc)
  · obtain rfl := hu
    exact hjoined

/-- A thread that `em_init_local` has made an EM core, or an external thread -/
theorem emInitLocal_ok {s : Threads.State} (h : s.Inv cfg) {odpType : OdpThreadType} {conf : ConfLocal}
    {a : Answers} (hok : (s.emInitLocal cfg t odpType conf a).2 = .ok) :
    let u := (s.emInitLocal cfg t odpType conf a).1
    u.Inv cfg ∧ (conf.coreType = .external ∧ u.map.logicMask = s.map.logicMask ∧ u.map.odpThr = s.map.odpThr ∨
      conf.coreType ≠ .external ∧ ∃ c : Nat, (u.locm t).coreId = c ∧ c ∉ s.map.logicMask ∧
        u.map.logicMask = insert c s.map.logicMask ∧ u.map.odpThr = Function.update s.map.odpThr c t) := by
  have hearly : ¬s.FailsEarly cfg t odpType conf a := fun hearly =>
    (Threads.State.emInitLocal_early h.currentCoreCount_le hearly).1 hok
  obtain ⟨-,hthr,⟨hty,heq⟩ | ⟨hty,c,hc,heq⟩⟩ := Threads.State.emInitLocal_entered hearly
  · have hclean : s.Clean cfg (.init t odpType conf a) := by
      refine .inr ?_
      rw [if_pos hty]
      rwa [heq] at hok
    refine ⟨h.emInitLocal hclean,.inl ⟨hty,?_⟩⟩
    rw [heq]
    exact ⟨rfl,rfl⟩
  · have hne : conf.coreType ≠ .external := by rcases hty with hty | hty <;> rw [hty] <;> decide
    have hclean : s.Clean cfg (.init t odpType conf a) := by
      refine .inr ?_
      rw [if_neg hne]
      rwa [heq] at hok
    refine ⟨h.emInitLocal hclean,.inr ⟨hne,c,?_,(CoreMap.determineCoreId_some hc).2,?_⟩⟩
    · rw [heq]
      exact congrArg Locm.coreId (Function.update_self t _ s.locm)
    · rw [heq, Threads.State.setLocm, CoreMap.addCore_eq, Nat.mod_eq_of_lt (Nat.lt_of_lt_of_le hthr cfg.thrMax_le)]
      exact ⟨rfl,rfl⟩

theorem emTermLocal_ok {s : Threads.State} (h : s.Inv cfg) (hok : (s.emTermLocal t true).2 = .ok) :
    let u := (s.emTermLocal t true).1
    u.Inv cfg ∧ ((s.locm t).coreType = some .external ∧ u.map.logicMask = s.map.logicMask ∧
      u.map.odpThr = s.map.odpThr ∨
      (s.locm t).coreType ≠ some .external ∧ ∃ c : Nat, (s.locm t).coreId = c ∧ c ∈ s.map.logicMask ∧
        s.map.odpThr c = t ∧ u.map.logicMask = s.map.logicMask.erase c ∧
          u.map.odpThr = Function.update s.map.odpThr c 0) := by
  refine ⟨h.emTermLocal,?_⟩
  have hin : (s.locm t).isCoreLocalInited = true := by
    by_contra hin
    rw [Threads.State.emTermLocal, if_pos (Bool.of_not_eq_true hin)] at hok
    cases hok
  rw [Threads.State.emTermLocal, if_neg (Bool.not_eq_false _ ▸ hin)]
  rcases h.inited t hin with hty | ⟨c,hc⟩
  · rw [hty]
    exact .inl ⟨rfl,rfl,rfl⟩
  · obtain ⟨hmem,hthr⟩ := (h.holds t c).1 hc
    obtain ⟨-,hid,hty⟩ := hc
    have hterm : (s.map.termLocal t (s.locm t)).logicMask = s.map.logicMask.erase c ∧
        (s.map.termLocal t (s.locm t)).odpThr = Function.update s.map.odpThr c 0 := by
      rw [CoreMap.termLocal_eq, hid, Int.toNat_natCast]
      exact ⟨rfl,rfl⟩
    refine .inr ⟨?_,c,hid,hmem,hthr,?_⟩
    · rcases hty with hty | hty <;> rw [hty] <;> decide
    · rcases hty with hty | hty <;> rw [hty] <;> exact hterm

theorem Initial.inv (hs : s.Initial) : s.Inv cfg := by
  refine ⟨Threads.State.Initial.inv hs.threads,fun g e he => ?_,fun g hne => ?_⟩
  · rw [hs.group] at he
    rw [hs.rejoined]
    by_cases hg : g = .default
    · obtain rfl := hg
      rw [Function.update_self] at he
      obtain rfl := Option.some.inj he
      exact Group.exact_image (Finset.empty_subset _)
    · rw [Function.update_of_ne hg] at he
      cases he
  · rw [hs.rejoined] at hne
    exact absurd hne Finset.not_nonempty_empty

theorem Inv.init (h : s.Inv cfg) {odpType : OdpThreadType} {conf : ConfLocal} {a : Answers}
    (hu : s.step cfg createCore (.init t odpType conf a) = some u) : u.Inv cfg := by
  rw [step] at hu
  dsimp only at hu
  split at hu
  · cases hu
  · rename_i hok
    obtain ⟨hthreads,⟨hty,hmask,hthr⟩ | ⟨hty,c,hid,hnot,hmask,hthr⟩⟩ := emInitLocal_ok h.threads (not_not.1 hok)
    · rw [if_pos hty] at hu
      obtain rfl := Option.some.inj hu
      refine h.withThreads hthreads fun g e he c hc => ?_
      rw [hmask, hthr]
      exact ⟨(h.exact g e he).coreMask hc,rfl⟩
    · rw [if_neg hty, hid, Int.toNat_natCast] at hu
      have hfresh (g : Name) (e : Group) (he : s.group g = some e) : c ∉ e.coreMask :=
        fun hc => hnot ((h.exact g e he).coreMask hc)
      have hinv := h.withThreads hthreads fun g e he d hd => by
        rw [hmask, hthr]
        exact ⟨Finset.mem_insert_of_mem ((h.exact g e he).coreMask hd),
          Function.update_of_ne (ne_of_mem_of_not_mem hd (hfresh g e he)) ..⟩
      have hmem : c ∈ (s.threads.emInitLocal cfg t odpType conf a).1.map.logicMask :=
        hmask ▸ Finset.mem_insert_self ..
      have hself : (s.threads.emInitLocal cfg t odpType conf a).1.map.odpThr c = t :=
        hthr ▸ Function.update_self ..
      exact hinv.queueGroupInitLocal hmem hself hfresh hu

theorem Inv.term (h : s.Inv cfg) (hu : s.step cfg createCore (.term t) = some u) : u.Inv cfg := by
  rw [step] at hu
  dsimp only at hu
  split at hu
  · cases hu
  · rename_i hok
    obtain ⟨hthreads,⟨hty,hmask,hthr⟩ | ⟨hty,c,hid,hc,hct,hmask,hthr⟩⟩ := emTermLocal_ok h.threads (not_not.1 hok)
    · rw [if_pos hty] at hu
      obtain rfl := Option.some.inj hu
      refine h.withThreads hthreads fun g e he c hc => ?_
      rw [hmask, hthr]
      exact ⟨(h.exact g e he).coreMask hc,rfl⟩
    · rw [if_neg hty, hid, Int.toNat_natCast] at hu
      obtain rfl := Option.some.inj hu
      refine ⟨hthreads,fun g e he => ?_,h.rejoined⟩
      obtain ⟨e',he',rfl⟩ := Option.map_eq_some_iff.1 he
      have hleft := (h.exact g e' he').leave h.injOn hc
      obtain rfl := hct
      refine hleft.congr fun d hd => ?_
      have hd := hleft.coreMask hd
      dsimp only [logicMask, odpThr, queueGroupLeaveAll]
      rw [hmask, hthr]
      exact ⟨hd,Function.update_of_ne (Finset.ne_of_mem_erase hd) ..⟩

theorem Inv.step (h : s.Inv cfg) {l : Label} (hu : s.step cfg createCore l = some u) : u.Inv cfg := by
  cases l with
  | init t odpType conf a => exact h.init hu
  | term t => exact h.term hu
  | create g mask =>
    rw [State.step] at hu
    split at hu
    · rename_i hok
      obtain rfl := Option.some.inj hu
      refine h.put (fun e he => ?_) fun hne => absurd hne Finset.not_nonempty_empty
      obtain rfl := Option.some.inj he
      exact Group.exact_image hok.2.2
    · cases hu
  | modify g newMask =>
    rw [State.step] at hu
    split at hu
    · rename_i e he
      split at hu
      · rename_i hnew
        obtain rfl := Option.some.inj hu
        refine h.put (fun e' he' => ?_) fun hne => h.rejoined g (hne.mono Finset.sdiff_subset)
        obtain rfl := Option.some.inj he'
        exact (h.exact g e he).modify h.injOn hnew
      · cases hu
    · cases hu
  | delete g =>
    obtain ⟨e,-,rfl⟩ := Option.map_eq_some_iff.1 hu
    exact h.put (fun e he => by cases he) fun hne => absurd hne Finset.not_nonempty_empty

end State

private theorem twoCores_le : 2 ≤ 256 := by decide
private theorem twoCores_thr : 2 ≤ 8 := by decide
private theorem twoCores_thrMax : 8 ≤ 65536 := by decide

private def twoCores : Config := ⟨2,8,Nat.two_pos,twoCores_le,twoCores_thr,twoCores_thrMax⟩

private def noCores : State :=
  ⟨⟨{},fun _ => {}⟩,Function.update (fun _ => none) .default (some ⟨∅,∅⟩),fun _ => ∅⟩

private theorem noCores_initial : noCores.Initial := ⟨rfl,rfl,rfl⟩

/-- The second core leaves and comes back, a group is created for both. -/
private def returned : Option State :=
  System.exec (State.step · twoCores true) (fun _ _ _ => true) noCores
    [.init 3 .worker ⟨.worker,-1⟩ {}, .init 5 .control ⟨.control,-1⟩ {}, .term 5,
      .init 5 .control ⟨.control,-1⟩ {}, .create (.user 0) {0,1}, .modify (.user 0) {1}]

private theorem returned_isSome : returned.isSome = true := by decide

end EmOdp.QueueGroup.LifeCycles
