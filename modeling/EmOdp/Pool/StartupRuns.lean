import Mathlib.Data.List.Nodup
import EmOdp.Lib.Batch
import EmOdp.Pool.Startup

/-! Which startup configurations are created as configured. -/
namespace EmOdp.Pool
open Lib
variable {π ι : Type} [DecidableEq π] [DecidableEq ι]

/-- What `create_subpools` does not change in an element -/
structure MpoolElem.Kept (e f : MpoolElem ι) : Prop where
  eventType : f.eventType = e.eventType
  alignOffset : f.alignOffset = e.alignOffset
  userAreaSize : f.userAreaSize = e.userAreaSize
  poolCfg : f.poolCfg = e.poolCfg
  name : f.name = e.name

omit [DecidableEq ι] in
theorem MpoolElem.Kept.trans {e f g : MpoolElem ι} (h : e.Kept f) (h' : f.Kept g) : e.Kept g :=
  ⟨h'.eventType.trans h.eventType,h'.alignOffset.trans h.alignOffset,
    h'.userAreaSize.trans h.userAreaSize,h'.poolCfg.trans h.poolCfg,h'.name.trans h.name⟩

namespace State
variable {s t : State π ι} {p : π} {env : Env} {name : Option (List UInt8)} {cfg : PoolCfg}
  {made : Nat → Made ι} {os : Nat → Unmade} {reqPool : Option (Option π)} {free : Option π}

theorem createSubpool_kept (s : State π ι) (p : π) (i : Nat) (o : Made ι) :
    (s.elem p).Kept ((s.createSubpool p i o).1.elem p) := by
  rw [createSubpool]
  split
  · simp only [setSize, setElem, Function.update_self]
    exact ⟨rfl,rfl,rfl,rfl,rfl⟩
  · dsimp only
    split
    · simp only [setMap, addSubpool, setSize, setElem, Function.update_self]
      exact ⟨rfl,rfl,rfl,rfl,rfl⟩
    · simp only [addSubpool, setSize, setElem, Function.update_self]
      exact ⟨rfl,rfl,rfl,rfl,rfl⟩

theorem createSubpools_kept (s : State π ι) (p : π) (made : Nat → Made ι) :
    (s.elem p).Kept ((s.createSubpools p made).1.elem p) := by
  rw [createSubpools]
  generalize List.range (s.elem p).poolCfg.length = is
  induction is generalizing s with
  | nil => exact ⟨rfl,rfl,rfl,rfl,rfl⟩
  | cons i is ih =>
    rw [forEach]
    split
    · exact (createSubpool_kept s p i (made i)).trans (ih _)
    · exact createSubpool_kept s p i (made i)

omit [DecidableEq ι] in
/-- What a valid configuration makes of the element. -/
theorem configure_elem (h : (s.configure env p name cfg).2 = true) :
    let e := (s.configure env p name cfg).1.elem p
    e.eventType = some cfg.eventType ∧ e.alignOffset = env.alignOffsetGet cfg ∧
      (env.setUareaSize cfg).map (· % 65536) = some e.userAreaSize ∧
      e.poolCfg = env.setPoolcacheSize cfg (sortPoolCfg cfg.subpool) ∧
      e.name = (name.getD []).take (emPoolNameLen - 1) := by
  rw [configure] at h ⊢
  split at h
  · cases h
  · rename_i size hsize
    dsimp only at h
    split at h
    · cases h
    · rename_i hvalid
      simp only [hsize, if_neg hvalid, setElem, Function.update_self, Option.map_some, and_self]

/-- A create that returns a pool -/
structure Created (s t : State π ι) (p : π) (env : Env) (name : Option (List UInt8)) (cfg : PoolCfg) :
    Prop where
  free : (s.elem p).allocated = false
  inv : t.Inv
  has : (t.elem p).Has env cfg
  name : (t.elem p).name = (name.getD []).take (emPoolNameLen - 1)
  elem : ∀ q, q ≠ p → t.elem q = s.elem q

theorem Inv.poolCreate_some (h : s.Inv) (hposs : s.Possible cfg free made)
    (hres : (s.poolCreate env name reqPool cfg free made os).2 = some p) :
    s.poolAlloc reqPool free = some p ∧
      s.Created (s.poolCreate env name reqPool cfg free made os).1 p env name cfg := by
  obtain ⟨hfree,hf⟩ := hposs
  rw [poolCreate] at hres ⊢
  cases halloc : s.poolAlloc reqPool free with
  | none =>
    rw [halloc] at hres
    cases hres
  | some q =>
    rw [halloc] at hres
    have ha := poolAlloc_free hfree halloc
    have hc := @configure_configured _ _ _ s q cfg env name
    have helem := @configure_elem _ _ _ s q env name cfg
    dsimp only at hres ⊢
    rcases hcfg : s.configure env q name cfg with ⟨t,_ | _⟩
    · rw [hcfg] at hres
      cases hres
    · rw [hcfg] at hres hc helem
      dsimp only at hres ⊢
      rcases hc.createSubpools h.ok hf with ⟨hzero,-,hbuilt⟩ | ⟨hbad,-⟩
      · rw [if_pos hzero] at hres ⊢
        obtain rfl := Option.some.inj hres
        obtain ⟨htype,halign,huarea,hpool,hname⟩ := helem rfl
        have hkept := createSubpools_kept t q made
        refine ⟨rfl,ha,h.built ha hbuilt hf,⟨hbuilt.allocated,hkept.eventType.trans htype,
          hkept.alignOffset.trans halign,?_,hkept.poolCfg.trans hpool,hbuilt.numSubpools⟩,
          hkept.name.trans hname,hbuilt.elem⟩
        rw [hkept.userAreaSize]
        exact huarea
      · rw [if_neg hbad] at hres
        cases hres

/-- The reserved element has no subpools when it is put back. -/
theorem Inv.poolFree (h : s.Inv) (hn : (s.elem p).numSubpools = 0) : (s.poolFree p).Inv := by
  have hself : (s.poolFree p).elem p = { s.elem p with allocated := false } := Function.update_self ..
  have hother {q : π} (hq : q ≠ p) : (s.poolFree p).elem q = s.elem q := Function.update_of_ne hq ..
  have hne {q : π} (hq : ((s.poolFree p).elem q).allocated = true) : q ≠ p := by
    rintro rfl
    rw [hself] at hq
    cases hq
  have hne' {q : π} {i : Nat} (hi : i < (s.elem q).numSubpools) : q ≠ p := by
    rintro rfl
    exact Nat.not_lt_zero i (hn ▸ hi)
  refine ⟨h.ok,fun r hr q i hp => ?_,fun q hq i hi => ?_,fun k q i => ?_,h.map_undef⟩
  · refine (h.once r hr q i hp).imp_left fun ⟨halive,ha,hi,hk⟩ => ?_
    rw [hother (hne' hi)]
    exact ⟨halive,ha,hi,hk⟩
  · have hqp := hne hq
    rw [hother hqp] at hq hi ⊢
    exact h.held q hq i hi
  · refine (h.map_iff k q i).trans ⟨fun ⟨ha,hi,hk⟩ => ?_,fun ⟨ha,hi,hk⟩ => ?_⟩
    · rw [hother (hne' hi)]
      exact ⟨ha,hi,hk⟩
    · have hqp := hne ha
      rw [hother hqp] at ha hi hk
      exact ⟨ha,hi,hk⟩

omit [DecidableEq π] in
theorem Inv.live (h : s.Inv) (hp : (s.elem p).Has env cfg) : s.Live p :=
  ⟨hp.allocated,hp.numSubpools ▸ cfg.num_pos,h.ready hp.allocated⟩

omit [DecidableEq π] in
theorem Live.owns (h : s.Live p) : s.Owns p := by
  obtain ⟨k,r,hk,hr,hp,halive⟩ := h.ready.held 0 h.pos
  refine ⟨0,h.pos,k,hk,?_⟩
  rw [Resources.live_of_alive hr halive, hp]

theorem Inv.emPoolCreate_some (h : s.Inv) {capa : Limits} {name : List UInt8} {pool : Option π}
    {cfg : Option PoolCfg} {a : Answers π ι} (hposs : ∀ c ∈ cfg, s.Possible c a.free a.made)
    (hres : (s.emPoolCreate env capa name pool cfg a).2 = some p) : ∃ c ∈ cfg,
      s.Created (s.emPoolCreate env capa name pool cfg a).1 p env (some name) c ∧ ∀ q ∈ pool, p = q := by
  cases cfg with
  | none => cases hres
  | some cfg =>
    rw [emPoolCreate] at hres ⊢
    dsimp only at hres ⊢
    split at hres
    · rename_i hvalid
      rw [if_pos hvalid]
      split at hres
      · cases hres
      · rename_i hgot
        rw [if_neg hgot]
        refine ⟨cfg,rfl,(h.poolCreate_some (hposs cfg rfl) hres).2,fun q hq => ?_⟩
        obtain rfl := Option.mem_def.1 hq
        have hq' : some q = _ := not_not.1 fun hc => hgot (.inr ⟨Option.some_ne_none q,hc⟩)
        exact Option.some.inj (hres.symm.trans hq'.symm)
    · cases hres

end State

/-- The pool has been created for the entry. -/
structure StartupPoolConf.MadeAs (env : Env) (dflt : π) (s : State π ι) (c : StartupPoolConf π) (p : π) :
    Prop where
  has : (s.elem p).Has env c.cfg
  name : (s.elem p).name = if c.IsDefault dflt then emPoolDefaultName else c.name
  dflt_iff : p = dflt ↔ c.IsDefault dflt
  pool : ¬c.IsDefault dflt → ∀ q ∈ c.pool, p = q

omit [DecidableEq ι] in
theorem StartupPoolConf.MadeAs.congr {env : Env} {dflt : π} {s t : State π ι} {c : StartupPoolConf π}
    {p : π} (h : c.MadeAs env dflt s p) (hp : t.elem p = s.elem p) : c.MadeAs env dflt t p :=
  ⟨hp ▸ h.has,hp ▸ h.name,h.dflt_iff,h.pool⟩

namespace Startup
variable {env : Env} {capa : Limits} {dflt p : π} {t u : Startup π ι} {confs : List (StartupPoolConf π)}
  {c : StartupPoolConf π} {x : StartupPoolConf π × Answers π ι}
  {xs : List (StartupPoolConf π × Answers π ι)} {cfg : Option PoolCfg} {a : Answers π ι}

/-- Each entry has a pool of its own, and there are no other pools but the default pool. -/
def EachMade (env : Env) (dflt : π) (confs : List (StartupPoolConf π)) (s : State π ι) : Prop :=
  ∃ pools : List π, pools.Nodup ∧ confs.Forall₂ (fun c p => c.MadeAs env dflt s p) pools ∧
    ∀ q, (s.elem q).allocated = true → q ∈ pools ∨ q = dflt

/-- After the rounds for the entries, of which one at most has been for the default pool -/
structure Started (env : Env) (dflt : π) (confs : List (StartupPoolConf π)) (t : Startup π ι) : Prop where
  inv : t.tbl.Inv
  reserved : (t.tbl.elem dflt).allocated = true
  unset : t.defaultPoolSet = false → (t.tbl.elem dflt).numSubpools = 0
  set_iff : t.defaultPoolSet = true ↔ ∃ c ∈ confs, c.IsDefault dflt
  pairwise : confs.Pairwise fun c d => c.IsDefault dflt → ¬d.IsDefault dflt
  made : EachMade env dflt confs t.tbl
  freed : ∀ x ∈ t.freed, ¬x.1.Owns x.2

/-- A create leaves the pools that there are. -/
theorem EachMade.created {s u : State π ι} {name : Option (List UInt8)} {cfg : PoolCfg}
    (h : EachMade env dflt confs s) (hu : s.Created u p env name cfg) :
    ∃ pools : List π, (pools ++ [p]).Nodup ∧ confs.Forall₂ (fun c p => c.MadeAs env dflt u p) pools ∧
      ∀ q, (u.elem q).allocated = true → q ∈ pools ++ [p] ∨ q = dflt := by
  obtain ⟨pools,hnodup,hmade,hall⟩ := h
  have hne {c : StartupPoolConf π} {q : π} (hq : c.MadeAs env dflt s q) : q ≠ p := by
    rintro rfl
    exact Bool.false_ne_true (hu.free.symm.trans hq.has.allocated)
  refine ⟨pools,?_,hmade.imp fun c q hq => hq.congr (hu.elem q (hne hq)),fun q hq => ?_⟩
  · refine List.Nodup.append hnodup (List.nodup_singleton p) (List.disjoint_singleton.2 fun hp => ?_)
    obtain ⟨c,-,hc⟩ := Batch.forall₂_mem_right hmade hp
    exact hne hc rfl
  · by_cases hqp : q = p
    · exact .inl (List.mem_append_right _ (List.mem_singleton.2 hqp))
    · rw [hu.elem q hqp] at hq
      exact (hall q hq).imp_left (List.mem_append_left _)

omit [DecidableEq ι] in
/-- The reserved element is put back. -/
theorem EachMade.poolFree {s : State π ι} (h : EachMade env dflt confs s)
    (hno : ∀ c ∈ confs, ¬c.IsDefault dflt) : EachMade env dflt confs (s.poolFree dflt) := by
  obtain ⟨pools,hnodup,hmade,hall⟩ := h
  have hother {q : π} (hq : q ≠ dflt) : (s.poolFree dflt).elem q = s.elem q := Function.update_of_ne hq ..
  refine ⟨pools,hnodup,?_,fun q hq => ?_⟩
  · refine ((List.forall₂_and_left _ _).2 ⟨hno,hmade⟩).imp fun c p ⟨hc,hp⟩ => hp.congr (hother fun he => ?_)
    exact hc (hp.dflt_iff.1 he)
  · by_cases he : q = dflt
    · exact .inr he
    · rw [hother he] at hq
      exact hall q hq

/-- A pool that has been created for the entry. -/
private theorem madeAs_created {s u : State π ι} {name : List UInt8} (hu : s.Created u p env (some name) c.cfg)
    (hname : name = if c.IsDefault dflt then emPoolDefaultName else c.name)
    (hdflt : p = dflt ↔ c.IsDefault dflt) (hpool : ¬c.IsDefault dflt → ∀ q ∈ c.pool, p = q) :
    c.MadeAs env dflt u p := by
  have hle : name.length ≤ emPoolNameLen - 1 := by
    rw [hname]
    split
    · decide
    · exact Nat.le_sub_one_of_lt c.name_lt
  refine ⟨hu.has,?_,hdflt,hpool⟩
  rw [hu.name, Option.getD_some, List.take_of_length_le hle, hname]

theorem Started.createStartupPool (h : Started env dflt confs t) (hposs : t.Possible dflt x)
    (hone : x.1.IsDefault dflt → t.defaultPoolSet = false)
    (hres : (t.createStartupPool env capa dflt x).2 = some p) :
    Started env dflt (confs ++ [x.1]) (t.createStartupPool env capa dflt x).1 := by
  obtain ⟨c,a⟩ := x
  rw [Possible] at hposs
  dsimp only at hposs hone
  rw [Startup.createStartupPool] at hres ⊢
  dsimp only at hres ⊢
  by_cases hd : c.IsDefault dflt
  · have hset := hone hd
    have hno : ∀ b ∈ confs, ¬b.IsDefault dflt := fun b hb hbd =>
      Bool.false_ne_true (hset.symm.trans (h.set_iff.2 ⟨b,hb,hbd⟩))
    have hzero := h.unset hset
    rw [if_pos hd] at hposs hres ⊢
    rw [createDefault, emPoolCreate] at hres ⊢
    obtain ⟨cfg,hcfg,hu,hdflt⟩ := (h.inv.poolFree hzero).emPoolCreate_some
      (fun b hb => Option.some.inj hb ▸ hposs) hres
    obtain rfl := Option.some.inj hcfg
    obtain rfl := hdflt dflt rfl
    obtain ⟨pools,hnodup,hmade,hall⟩ := (h.made.poolFree hno).created hu
    refine ⟨hu.inv,hu.has.allocated,nofun,iff_of_true rfl ⟨c,by simp,hd⟩,?_,
      ⟨_,hnodup,List.rel_append hmade (.cons ?_ .nil),hall⟩,fun y hy => ?_⟩
    · refine List.pairwise_append.2 ⟨h.pairwise,List.pairwise_singleton _ _,fun b hb _ _ hbd => ?_⟩
      exact absurd hbd (hno b hb)
    · exact madeAs_created hu (if_pos hd).symm (iff_of_true rfl hd) (absurd hd)
    · rcases List.mem_append.1 hy with hy | hy
      · exact h.freed y hy
      · obtain rfl := List.mem_singleton.1 hy
        rintro ⟨i,hi,-⟩
        exact Nat.not_lt_zero i (hzero ▸ hi)
  · rw [if_neg hd] at hposs hres ⊢
    rw [emPoolCreate] at hres ⊢
    obtain ⟨cfg,hcfg,hu,hpool⟩ := h.inv.emPoolCreate_some (fun b hb => Option.some.inj hb ▸ hposs) hres
    obtain rfl := Option.some.inj hcfg
    have hne : p ≠ dflt := by
      rintro rfl
      exact Bool.false_ne_true (hu.free.symm.trans h.reserved)
    have hdflt := hu.elem dflt (Ne.symm hne)
    obtain ⟨pools,hnodup,hmade,hall⟩ := h.made.created hu
    refine ⟨hu.inv,?_,fun hset => ?_,h.set_iff.trans ?_,?_,
      ⟨_,hnodup,List.rel_append hmade (.cons ?_ .nil),hall⟩,h.freed⟩
    · exact (congrArg MpoolElem.allocated hdflt).trans h.reserved
    · exact (congrArg MpoolElem.numSubpools hdflt).trans (h.unset hset)
    · constructor
      · rintro ⟨b,hb,hbd⟩
        exact ⟨b,List.mem_append_left _ hb,hbd⟩
      · rintro ⟨b,hb,hbd⟩
        rcases List.mem_append.1 hb with hb | hb
        · exact ⟨b,hb,hbd⟩
        · exact absurd (List.mem_singleton.1 hb ▸ hbd) hd
    · refine List.pairwise_append.2 ⟨h.pairwise,List.pairwise_singleton _ _,fun _ _ b hb _ => ?_⟩
      rw [List.mem_singleton.1 hb]
      exact hd
    · exact madeAs_created hu (if_neg hd).symm (iff_of_false hne hd) fun _ => hpool

theorem freed_createStartupPool (env : Env) (capa : Limits) (dflt : π) (t : Startup π ι)
    (x : StartupPoolConf π × Answers π ι) : ∀ y ∈ t.freed, y ∈ (t.createStartupPool env capa dflt x).1.freed := by
  intro y hy
  rw [Startup.createStartupPool]
  split
  · exact List.mem_append_left _ hy
  · exact hy

theorem freed_createStartupPools (t : Startup π ι) :
    ∀ y ∈ t.freed, y ∈ (createStartupPools env capa dflt xs t).1.freed := by
  induction xs generalizing t with
  | nil => exact fun _ hy => hy
  | cons x xs ih =>
    intro y hy
    have hround := freed_createStartupPool env capa dflt t x y hy
    rw [Startup.createStartupPools]
    split
    · rename_i u hu
      rw [hu] at hround
      exact hround
    · rename_i u q hu
      rw [hu] at hround
      exact ih u y hround

theorem freed_createMissing (t : Startup π ι) :
    ∀ y ∈ t.freed, y ∈ (t.createMissing env capa dflt cfg a).1.freed := by
  intro y hy
  have hdefault : y ∈ (t.createDefault env capa dflt cfg a).1.freed := List.mem_append_left _ hy
  rw [Startup.createMissing]
  split
  · exact hy
  · split
    · rename_i u hu
      rw [hu] at hdefault
      exact hdefault
    · rename_i u p hu
      rw [hu] at hdefault
      split
      · exact hdefault
      · exact hdefault

theorem Started.live (h : Started env dflt confs t) (hset : t.defaultPoolSet = true) :
    t.tbl.Live dflt ∧ (t.tbl.elem dflt).name = emPoolDefaultName := by
  obtain ⟨c,hc,hd⟩ := h.set_iff.1 hset
  obtain ⟨pools,-,hmade,-⟩ := h.made
  obtain ⟨p,-,hp⟩ := Batch.forall₂_mem_left hmade hc
  obtain rfl := hp.dflt_iff.2 hd
  exact ⟨h.inv.live hp.has,hp.name.trans (if_pos hd)⟩

/-- The loop creates a pool for each entry, or puts back the default pool with its ODP pools. -/
theorem Started.createStartupPools (h : Started env dflt confs t)
    (hposs : AllPossible env capa dflt xs t) (hok : (createStartupPools env capa dflt xs t).2 = .ok) :
    Started env dflt (confs ++ xs.map Prod.fst) (createStartupPools env capa dflt xs t).1 ∨
      (¬(confs ++ xs.map Prod.fst).Pairwise fun c d => c.IsDefault dflt → ¬d.IsDefault dflt) ∧
        ∃ y ∈ (createStartupPools env capa dflt xs t).1.freed, y.1.Owns y.2 := by
  induction xs generalizing confs t with
  | nil =>
    rw [List.map_nil, List.append_nil]
    exact .inl h
  | cons x xs ih =>
    by_cases hone : x.1.IsDefault dflt → t.defaultPoolSet = false
    · rw [Startup.createStartupPools] at hok ⊢
      obtain ⟨hx,hposs⟩ := hposs
      split at hok
      · cases hok
      · rename_i u p hu
        have hstarted := h.createStartupPool hx hone (congrArg Prod.snd hu)
        rw [hu] at hstarted hposs
        have hrest := ih hstarted hposs hok
        rwa [List.append_assoc] at hrest
    · obtain ⟨hd,hset⟩ := Classical.not_imp.1 hone
      have hset : t.defaultPoolSet = true := Bool.of_not_eq_false hset
      refine .inr ⟨fun hpairwise => ?_,(t.tbl,dflt),?_,(h.live hset).1.owns⟩
      · obtain ⟨c,hc,hcd⟩ := h.set_iff.1 hset
        exact (List.pairwise_append.1 hpairwise).2.2 c hc x.1 List.mem_cons_self hcd hd
      · have hround : (t.tbl,dflt) ∈ (t.createStartupPool env capa dflt x).1.freed := by
          rw [Startup.createStartupPool, if_pos hd]
          exact List.mem_append_right _ List.mem_cons_self
        rw [Startup.createStartupPools]
        split
        · rename_i u hu
          rw [hu] at hround
          exact hround
        · rename_i u q hu
          rw [hu] at hround
          exact freed_createStartupPools u _ hround

/-- When `pool_init` returns, with one entry for the default pool at most -/
structure Finished (env : Env) (dflt : π) (confs : List (StartupPoolConf π)) (t : Startup π ι) : Prop where
  inv : t.tbl.Inv
  live : t.tbl.Live dflt
  name : (t.tbl.elem dflt).name = emPoolDefaultName
  made : EachMade env dflt confs t.tbl
  freed : ∀ x ∈ t.freed, ¬x.1.Owns x.2

theorem Started.createMissing (h : Started env dflt confs t)
    (hposs : t.defaultPoolSet = false → ∀ c ∈ cfg, (t.tbl.poolFree dflt).Possible c a.free a.made)
    (hok : (t.createMissing env capa dflt cfg a).2 = .ok) :
    Finished env dflt confs (t.createMissing env capa dflt cfg a).1 := by
  rw [Startup.createMissing] at hok ⊢
  by_cases hset : t.defaultPoolSet = true
  · rw [if_pos hset]
    exact ⟨h.inv,(h.live hset).1,(h.live hset).2,h.made,h.freed⟩
  · have hunset := Bool.of_not_eq_true hset
    have hzero := h.unset hunset
    have hno : ∀ b ∈ confs, ¬b.IsDefault dflt := fun b hb hbd => hset (h.set_iff.2 ⟨b,hb,hbd⟩)
    rw [if_neg hset] at hok ⊢
    split at hok
    · cases hok
    · rename_i u p hcreate
      rw [createDefault, emPoolCreate] at hcreate
      obtain ⟨hu,hp⟩ := Prod.mk.inj hcreate
      obtain ⟨c,hc,hcreated,hdflt⟩ := (h.inv.poolFree hzero).emPoolCreate_some (hposs hunset) hp
      obtain rfl := hdflt dflt rfl
      rw [if_pos rfl]
      obtain ⟨pools,hnodup,hmade,hall⟩ := (h.made.poolFree hno).created hcreated
      have hname : emPoolDefaultName.take (emPoolNameLen - 1) = emPoolDefaultName := by decide
      rw [← hu]
      refine ⟨hcreated.inv,hcreated.inv.live hcreated.has,hcreated.name.trans hname,
        ⟨pools,(List.nodup_append.1 hnodup).1,hmade,fun q hq => ?_⟩,fun y hy => ?_⟩
      · rcases hall q hq with hq | hq
        · exact (List.mem_append.1 hq).imp_right List.mem_singleton.1
        · exact .inr hq
      · rcases List.mem_append.1 hy with hy | hy
        · exact h.freed y hy
        · obtain rfl := List.mem_singleton.1 hy
          rintro ⟨i,hi,-⟩
          exact Nat.not_lt_zero i (hzero ▸ hi)

theorem start_inv {odpPools : Resources ι (Option (π × Nat)) (Option π)} (hok : odpPools.Ok)
    (hothers : ∀ r ∈ odpPools, r.payload = none) : Started env dflt [] (start dflt odpPools) := by
  have hself : (start dflt odpPools).tbl.elem dflt = { allocated := true } := Function.update_self ..
  have hother {q : π} (hq : q ≠ dflt) : (start dflt odpPools).tbl.elem q = {} := Function.update_of_ne hq ..
  have hzero (q : π) : ((start dflt odpPools).tbl.elem q).numSubpools = 0 := by
    by_cases hq : q = dflt
    · rw [hq, hself]
    · rw [hother hq]
  refine ⟨⟨hok,fun r hr q i hp => ?_,fun q _ i hi => ?_,fun k q i => ?_,fun _ _ => rfl⟩,?_,fun _ => hzero dflt,
    iff_of_false Bool.false_ne_true nofun,.nil,⟨[],.nil,.nil,fun q hq => ?_⟩,nofun⟩
  · cases (hothers r hr).symm.trans hp
  · exact absurd (hzero q ▸ hi) (Nat.not_lt_zero i)
  · exact iff_of_false (fun hc => Option.some_ne_none q (PoolSubpool.mk.inj hc).1.symm) fun hc =>
      Nat.not_lt_zero i (hzero q ▸ hc.2.1)
  · exact congrArg MpoolElem.allocated hself
  · by_contra hne
    rw [hother fun he => hne (.inr he)] at hq
    cases hq

theorem madeAs_createdAs {s : State π ι} (hinv : s.Inv) (hp : c.MadeAs env dflt s p)
    (hc : c.IsDefault dflt →
      (c.name = [] ∨ c.name = emPoolDefaultName) ∧ (c.pool = none ∨ c.pool = some dflt)) :
    c.CreatedAs env dflt s p := by
  refine ⟨hp.has,hinv.live hp.has,fun hname => ?_,fun q hq => ?_,fun he => ?_⟩
  · rw [hp.name]
    split
    · exact ((hc ‹_›).1.resolve_left hname).symm
    · rfl
  · by_cases hcd : c.IsDefault dflt
    · rcases (hc hcd).2 with hnone | hpool
      · rw [hnone] at hq
        cases hq
      · rw [hpool] at hq
        exact (hp.dflt_iff.2 hcd).trans (Option.some.inj hq)
    · exact hp.pool hcd q hq
  · have hcd := hp.dflt_iff.1 he
    refine hcd.symm.imp_right fun hname => (hc hcd).1.resolve_left fun hnil => ?_
    rw [hnil] at hname
    exact absurd (List.infix_nil.1 hname) (by decide)

theorem Finished.configured (h : Finished env dflt confs t) (hd : DefaultOnce dflt confs) :
    t.CreatedAsConfigured env dflt confs := by
  obtain ⟨pools,hnodup,hmade,-⟩ := h.made
  have hentries := ((List.forall₂_and_left _ _).2 ⟨hd.2,hmade⟩).imp fun c p ⟨hc,hp⟩ =>
    madeAs_createdAs h.inv hp hc
  refine ⟨⟨pools,hnodup,hentries⟩,h.live,fun r hr i hpay halive => ?_,h.freed⟩
  rcases h.inv.once r hr dflt i hpay with hrec | hby
  · exact hrec.2.2
  · rw [halive] at hby
    cases hby

/-- The name of a pool has the name of the default pool in it if and only if it is the default pool. -/
private theorem Finished.name_iff (h : Finished env dflt confs t) (hp : (t.tbl.elem p).allocated = true) :
    emPoolDefaultName <:+: (t.tbl.elem p).name ↔ p = dflt := by
  refine ⟨fun hname => ?_,fun he => ?_⟩
  · obtain ⟨pools,-,hmade,hall⟩ := h.made
    refine (hall p hp).elim (fun hmem => ?_) id
    obtain ⟨c,-,hc⟩ := Batch.forall₂_mem_right hmade hmem
    by_contra hne
    have hcd : ¬c.IsDefault dflt := fun hcd => hne (hc.dflt_iff.2 hcd)
    rw [hc.name, if_neg hcd] at hname
    exact hcd (.inl hname)
  · rw [he, h.name]

theorem Finished.defaultOnce (h : Finished env dflt confs t)
    (hpairwise : confs.Pairwise fun c d => c.IsDefault dflt → ¬d.IsDefault dflt)
    (hcreated : t.CreatedAsConfigured env dflt confs) : DefaultOnce dflt confs := by
  refine ⟨hpairwise,fun c hc hcd => ?_⟩
  obtain ⟨pools,-,hentries⟩ := hcreated.entries
  obtain ⟨p,-,hp⟩ := Batch.forall₂_mem_left hentries hc
  have hiff := h.name_iff hp.cfg.allocated
  have he : p = dflt := by
    rcases hcd with hname | hpool
    · have hne : c.name ≠ [] := by
        intro hnil
        rw [hnil] at hname
        exact absurd (List.infix_nil.1 hname) (by decide)
      exact hiff.1 ((hp.name hne).symm ▸ hname)
    · exact hp.pool dflt hpool
  subst he
  refine ⟨or_iff_not_imp_left.2 fun hne => (hp.name hne).symm.trans h.name,?_⟩
  cases hpool : c.pool with
  | none => exact .inl rfl
  | some q => exact .inr (congrArg some (hp.pool q hpool).symm)

end Startup

open Startup in
/-- The startup pools are as configured if and only if one entry at most is taken for the default pool,
and it has the name and the handle of the default pool where it has any. -/
theorem startup_pools_as_configured_iff {env : Env} {capa : Limits} {dflt : π}
    {odpPools : Resources ι (Option (π × Nat)) (Option π)} {defaultPoolCfg : Option PoolCfg}
    {startupPools : List (StartupPoolConf π × Answers π ι)} {a : Answers π ι}
    (h : Answered env capa dflt odpPools defaultPoolCfg startupPools a)
    (hok : (poolInit env capa dflt odpPools defaultPoolCfg startupPools a).2 = .ok) :
    (poolInit env capa dflt odpPools defaultPoolCfg startupPools a).1.CreatedAsConfigured env dflt
      (startupPools.map Prod.fst) ↔ DefaultOnce dflt (startupPools.map Prod.fst) := by
  have hstart : Started env dflt [] (start dflt odpPools) := start_inv h.ok h.others
  have hdefault := h.default
  rw [poolInit] at hok ⊢
  split at hok
  · rename_i t hloop
    have hrun := hstart.createStartupPools h.startup (congrArg Prod.snd hloop)
    rw [hloop, List.nil_append] at hrun
    rw [hloop] at hdefault
    rcases hrun with hrun | ⟨hnot,y,hy,howns⟩
    · have hfinished := hrun.createMissing hdefault hok
      exact ⟨hfinished.defaultOnce hrun.pairwise,hfinished.configured⟩
    · refine iff_of_false (fun hc => hc.freed y ?_ howns) fun hc => hnot hc.1
      exact freed_createMissing t y hy
  · cases hok

private def startupEnv : Env := ⟨⟨64,64,64,64⟩,⟨0,0,0,0⟩,0,0,0,0,.event⟩

private def startupLimits : Limits where
  align := ⟨128,64,64,by decide⟩
  hdr := ⟨64,by decide⟩
  maxPools := ⟨16,16,16,16⟩
  minCacheSize := ⟨0,0,0,0⟩
  uareaPersistence := ⟨1,1,1,1⟩

private def startedSubpool : PoolCfg where
  eventType := .sw
  subpool := [⟨256,8,0⟩]
  num_pos := by decide
  num_le := by decide

/-- ODP gives out this index. -/
private def answer (free : Option (Fin 3)) (k : Nat) : Answers (Fin 3) Nat where
  free := free
  made i := ⟨some (k+i),true⟩

private def defaultEntry : StartupPoolConf (Fin 3) where
  name := "default".toUTF8.data.toList
  cfg := startedSubpool
  name_lt := by decide

private def namedEntry : StartupPoolConf (Fin 3) where
  name := "pkt-default".toUTF8.data.toList
  cfg := startedSubpool
  name_lt := by decide

private def handleEntry : StartupPoolConf (Fin 3) where
  pool := some 2
  cfg := startedSubpool

private def startupPools := [(handleEntry,answer none 0),(defaultEntry,answer none 1)]

private theorem startupPools_answered :
    Startup.Answered startupEnv startupLimits 0 [] none startupPools (answer none 2) where
  ok := Resources.ok_nil
  others := nofun
  startup := ⟨by decide,by decide,trivial⟩
  default _ _ hcfg := absurd hcfg (Option.not_mem_none _)

theorem startup_pools_as_configured_two :
    (Startup.poolInit startupEnv startupLimits 0 [] none startupPools (answer none 2)).1.CreatedAsConfigured
      startupEnv 0 (startupPools.map Prod.fst) :=
  (startup_pools_as_configured_iff startupPools_answered (by decide)).2 (by decide)

private def twoDefaults := [(defaultEntry,answer none 0),(namedEntry,answer none 1)]

private theorem twoDefaults_answered :
    Startup.Answered startupEnv startupLimits 0 [] none twoDefaults (answer none 2) where
  ok := Resources.ok_nil
  others := nofun
  startup := ⟨by decide,by decide,trivial⟩
  default _ _ hcfg := absurd hcfg (Option.not_mem_none _)

private def freedPools :=
  (Startup.poolInit startupEnv startupLimits 0 [] none twoDefaults (answer none 2)).1.freed

private theorem freedPools_length : 1 < freedPools.length := by decide

/-- The second entry whose name has the name of the default pool in it puts the live default pool back,
and takes its element over. -/
theorem default_pool_freed_alive : ¬∀ (env : Env) (capa : Limits) (dflt : Fin 3)
    (odpPools : Resources Nat (Option (Fin 3 × Nat)) (Option (Fin 3))) (defaultPoolCfg : Option PoolCfg)
    (startupPools : List (StartupPoolConf (Fin 3) × Answers (Fin 3) Nat)) (a : Answers (Fin 3) Nat),
    Startup.Answered env capa dflt odpPools defaultPoolCfg startupPools a →
      (Startup.poolInit env capa dflt odpPools defaultPoolCfg startupPools a).2 = .ok →
        (Startup.poolInit env capa dflt odpPools defaultPoolCfg startupPools a).1.CreatedAsConfigured env dflt
          (startupPools.map Prod.fst) := by
  intro hall
  have h := hall startupEnv startupLimits 0 [] none twoDefaults (answer none 2)
    twoDefaults_answered (by decide)
  exact h.freed _ (List.get_mem freedPools ⟨1,freedPools_length⟩)
    ⟨0,by decide,0,by decide,by decide⟩

end EmOdp.Pool
