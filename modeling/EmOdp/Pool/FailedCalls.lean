import EmOdp.Pool.Calls

/-! What failing calls of `pool_create` and `pool_delete` leave behind. -/
namespace EmOdp.Pool
open Lib
variable {π ι : Type} [DecidableEq π] [DecidableEq ι]

/-- `set_uarea_size` and `set_pkt_headroom` accept the configuration. -/
def Env.Valid (env : Env) (cfg : PoolCfg) : Prop :=
  env.setUareaSize cfg ≠ none ∧ (cfg.eventType = .packet → env.setPktHeadroom cfg ≠ none)

instance (env : Env) (cfg : PoolCfg) : Decidable (env.Valid cfg) :=
  inferInstanceAs (Decidable (env.setUareaSize cfg ≠ none ∧
    (cfg.eventType = .packet → env.setPktHeadroom cfg ≠ none)))

/-- Subpool `i` is created. -/
def Made.Good (o : Made ι) : Prop := o.odpPool.isSome = true ∧ o.index = true

instance (o : Made ι) : Decidable o.Good :=
  inferInstanceAs (Decidable (o.odpPool.isSome = true ∧ o.index = true))

def Unmade.Good (o : Unmade) : Prop := o.destroyed = true ∧ o.index = true

instance (o : Unmade) : Decidable o.Good :=
  inferInstanceAs (Decidable (o.destroyed = true ∧ o.index = true))

/-- `create_subpools` creates an ODP pool for subpool `i`. -/
def Reached (os : Nat → Made ι) (i : Nat) : Prop := (∀ j < i, (os j).Good) ∧ (os i).odpPool.isSome = true

instance (os : Nat → Made ι) (i : Nat) : Decidable (Reached os i) :=
  inferInstanceAs (Decidable ((∀ j < i, (os j).Good) ∧ (os i).odpPool.isSome = true))

/-- `odp_pool_destroy` succeeds in the error path of `pool_create`. -/
def Label.CleanupDestroys : Label π ι → Prop
  | .create _ _ _ _ _ cleanup => ∀ i < emMaxSubpools, (cleanup i).destroyed = true
  | _ => True

instance (l : Label π ι) : Decidable l.CleanupDestroys :=
  match l with
  | .create _ _ _ _ _ cleanup =>
    inferInstanceAs (Decidable (∀ i < emMaxSubpools, (cleanup i).destroyed = true))
  | .delete .. | .otherCreate .. | .otherDestroy .. => isTrue trivial

namespace State
variable (s t : State π ι)

/-- The remaining subpools of a pool are destroyed once each and unmapped, and its element is freed. -/
structure Deleted (p : π) : Prop where
  freed : (t.elem p).allocated = false
  elem : ∀ q, q ≠ p → t.elem q = s.elem q
  destroyed : ∀ i < (s.elem p).numSubpools, ∀ h, (s.elem p).odpPool i = some h →
    t.map h = {} ∧ ∃ r, t.odpPools.behind h = some r ∧ r.destroyedBy = [some p]
  others : ∀ r ∈ t.odpPools, r ∈ s.odpPools ∨ (∃ i, r.payload = some (p,i)) ∧ r.destroyedBy = [some p]

/-- Once ODP no longer fails, `pool_delete` deletes the pool. -/
def Deletable (p : π) : Prop := ∀ os : Nat → Unmade, (∀ i, (os i).Good) →
  (s.poolDelete (some p) os).2 = .ok ∧ s.Deleted (s.poolDelete (some p) os).1 p

/-- No ODP pool is alive and no map entry is set that was not so before, and every element is in
the pool of free pools as before. -/
structure NothingLeft : Prop where
  pool : ∀ q, (t.elem q).allocated = (s.elem q).allocated
  map : t.map = s.map
  kept : ∀ r ∈ s.odpPools, r ∈ t.odpPools
  destroyed : ∀ r ∈ t.odpPools, r ∈ s.odpPools ∨ ∃ p i, r.payload = some (p,i) ∧ r.destroyedBy = [some p]

/-- The ODP pool of a subpool is alive and recorded in the element of an allocated pool, or has
been destroyed once, and every allocated pool can be deleted. -/
structure Managed : Prop where
  once : ∀ r ∈ s.odpPools, ∀ p i, r.payload = some (p,i) → r.destroyedBy = [] ∧
    (s.elem p).allocated = true ∧ i < (s.elem p).numSubpools ∧ (s.elem p).odpPool i = some r.handle ∨
      r.destroyedBy = [some p]
  deletable : ∀ p, (s.elem p).allocated = true → s.Deletable p

/-- A call fails cleanly. -/
def FailsCleanly (env : Env) : Label π ι → Prop
  | .create name reqPool cfg free os cleanup =>
    let r := s.poolCreate env name reqPool cfg free os cleanup
    r.2 = none → s.NothingLeft r.1
  | .delete (some p) os => (s.elem p).allocated = true →
    let r := s.poolDelete (some p) os
    if r.2 = .ok then s.Deleted r.1 p else r.1.Deletable p
  | _ => True

/-- No call of `odp_pool_index` fails in a delete that destroys ODP pools, and
`odp_pool_destroy` fails for the first subpool or for none. -/
def Clean (env : Env) : Label π ι → Prop
  | .create _ reqPool cfg free os cleanup => s.poolAlloc reqPool free ≠ none → env.Valid cfg →
    (¬∀ i < cfg.subpool.length, (os i).Good) →
      ∀ i < cfg.subpool.length, Reached os i → (cleanup i).index = true
  | .delete (some p) os => (s.elem p).allocated = true → 0 < (s.elem p).numSubpools →
    (os 0).destroyed = false ∨ ∀ i < (s.elem p).numSubpools, (os i).Good
  | _ => True

instance (env : Env) (l : Label π ι) : Decidable (s.Clean env l) :=
  match l with
  | .create _ reqPool cfg free os cleanup => inferInstanceAs (Decidable (
      s.poolAlloc reqPool free ≠ none → env.Valid cfg → (¬∀ i < cfg.subpool.length, (os i).Good) →
        ∀ i < cfg.subpool.length, Reached os i → (cleanup i).index = true))
  | .delete (some p) os => inferInstanceAs (Decidable ((s.elem p).allocated = true →
      0 < (s.elem p).numSubpools →
        (os 0).destroyed = false ∨ ∀ i < (s.elem p).numSubpools, (os i).Good))
  | .delete none _ | .otherCreate _ | .otherDestroy _ => isTrue trivial

structure Inv : Prop where
  ok : s.odpPools.Ok
  once : ∀ r ∈ s.odpPools, ∀ p i, r.payload = some (p,i) → r.destroyedBy = [] ∧
    (s.elem p).allocated = true ∧ i < (s.elem p).numSubpools ∧ (s.elem p).odpPool i = some r.handle ∨
      r.destroyedBy = [some p]
  held : ∀ p, (s.elem p).allocated = true → ∀ i < (s.elem p).numSubpools, ∃ h r,
    (s.elem p).odpPool i = some h ∧ s.odpPools.behind h = some r ∧ r.payload = some (p,i) ∧
      r.destroyedBy = []
  map_iff : ∀ h p i, s.map h = ⟨some p,i⟩ ↔ (s.elem p).allocated = true ∧
    i < (s.elem p).numSubpools ∧ (s.elem p).odpPool i = some h
  map_undef : ∀ h, (s.map h).pool = none → s.map h = {}

/-- Each subpool of the pool has a live ODP pool of its own. -/
structure Ready (p : π) : Prop where
  ok : s.odpPools.Ok
  held : ∀ i < (s.elem p).numSubpools, ∃ h r, (s.elem p).odpPool i = some h ∧
    s.odpPools.behind h = some r ∧ r.payload = some (p,i) ∧ r.destroyedBy = []

/-- `pool_delete` has passed the first `i` subpools. -/
structure Passed (p : π) (i : Nat) : Prop where
  elem : ∀ q, q ≠ p → t.elem q = s.elem q
  allocated : (t.elem p).allocated = (s.elem p).allocated
  numSubpools : (t.elem p).numSubpools = (s.elem p).numSubpools
  odpPool : ∀ j, (t.elem p).odpPool j = if j < i then none else (s.elem p).odpPool j
  odpPools : Resources.Destroys id s.odpPools t.odpPools
    (fun h => ∃ j < i, (s.elem p).odpPool j = some h) (some p)
  unmapped : ∀ h, (∃ j < i, (s.elem p).odpPool j = some h) → t.map h = {}
  map : ∀ h, (∀ j < i, (s.elem p).odpPool j ≠ some h) → t.map h = s.map h
  same : i = 0 → t = s

variable {s t} {p : π} {i : Nat} {os : Nat → Unmade}

omit [DecidableEq π] in
theorem Ready.injective (h : s.Ready p) {j : Nat} {k : ι} (hi : i < (s.elem p).numSubpools)
    (hj : j < (s.elem p).numSubpools) (hki : (s.elem p).odpPool i = some k)
    (hkj : (s.elem p).odpPool j = some k) : i = j := by
  obtain ⟨k₁,r₁,hk₁,hr₁,hp₁,-⟩ := h.held i hi
  obtain ⟨k₂,r₂,hk₂,hr₂,hp₂,-⟩ := h.held j hj
  obtain rfl := Option.some.inj (hk₁.symm.trans hki)
  obtain rfl := Option.some.inj (hk₂.symm.trans hkj)
  obtain rfl := Option.some.inj (hr₁.symm.trans hr₂)
  exact congrArg Prod.snd (Option.some.inj (hp₁.symm.trans hp₂))

omit [DecidableEq π] in
theorem Passed.start (h : s.Ready p) : Passed s s p 0 := by
  refine ⟨fun _ _ => rfl,rfl,rfl,fun j => (if_neg (Nat.not_lt_zero j)).symm,.none h.ok ?_,?_,
    fun _ _ => rfl,fun _ => rfl⟩
  · rintro k ⟨j,hj,-⟩
    exact absurd hj (Nat.not_lt_zero j)
  · rintro k ⟨j,hj,-⟩
    exact absurd hj (Nat.not_lt_zero j)

/-- What ODP's answers make of a round of the loop. -/
theorem Passed.deleteSubpool (h : s.Ready p) (ht : Passed s t p i) (hi : i < (s.elem p).numSubpools)
    (o : Unmade) : ∃ k, (s.elem p).odpPool i = some k ∧ t.deleteSubpool p i o =
      if o.destroyed then
        if o.index then ((t.remSubpool p i k).setMap k {},.ok) else (t.remSubpool p i k,.badId)
      else (t,.libFailed) := by
  obtain ⟨k,-,hk,-⟩ := h.held i hi
  have hkt : (t.elem p).odpPool i = some k := by rw [ht.odpPool, if_neg (Nat.lt_irrefl i), hk]
  refine ⟨k,hk,?_⟩
  rw [State.deleteSubpool, hkt]

theorem Passed.next (h : s.Ready p) (ht : Passed s t p i) (hi : i < (s.elem p).numSubpools) {k : ι}
    (hk : (s.elem p).odpPool i = some k) : Passed s ((t.remSubpool p i k).setMap k {}) p (i+1) := by
  have hfresh (j : Nat) (hj : j < i) : (s.elem p).odpPool j ≠ some k := fun hc =>
    Nat.ne_of_lt hj (h.injective (Nat.lt_trans hj hi) hi hc hk)
  obtain ⟨k',r,hk',hr,hp,halive⟩ := h.held i hi
  obtain rfl := Option.some.inj (hk'.symm.trans hk)
  have hrt : t.odpPools.behind k' = some r := by
    rw [ht.odpPools.other k' fun ⟨j,hj,hc⟩ => hfresh j hj hc]
    exact hr
  have hone := Resources.Destroys.one id (d := some p) ht.odpPools.ok hrt halive
    (f := fun r => { r with destroyedBy := r.destroyedBy ++ [some p] }) (fun _ => rfl) (fun _ => rfl)
    fun _ => rfl
  have hhandles : (fun h => (∃ j < i, (s.elem p).odpPool j = some h) ∨ k' = h) =
      fun h => ∃ j < i+1, (s.elem p).odpPool j = some h := by
    funext h
    refine propext ⟨?_,?_⟩
    · rintro (⟨j,hj,hc⟩ | rfl)
      · exact ⟨j,Nat.lt_succ_of_lt hj,hc⟩
      · exact ⟨i,Nat.lt_succ_self i,hk⟩
    · rintro ⟨j,hj,hc⟩
      rcases Nat.lt_succ_iff_lt_or_eq.1 hj with hj | rfl
      · exact .inl ⟨j,hj,hc⟩
      · exact .inr (Option.some.inj (hk.symm.trans hc))
  refine ⟨fun q hq => ?_,?_,?_,fun j => ?_,?_,fun h' hh' => ?_,fun h' hh' => ?_,fun hc => ?_⟩
  · simp only [setMap, remSubpool, setElem, Function.update_of_ne hq]
    exact ht.elem q hq
  · simp only [setMap, remSubpool, setElem, Function.update_self]
    exact ht.allocated
  · simp only [setMap, remSubpool, setElem, Function.update_self]
    exact ht.numSubpools
  · simp only [setMap, remSubpool, setElem, Function.update_self]
    by_cases hj : j = i
    · rw [hj, Function.update_self, if_pos (Nat.lt_succ_self i)]
    · rw [Function.update_of_ne hj, ht.odpPool]
      exact if_congr (by omega) rfl rfl
  · refine hhandles ▸ ht.odpPools.trans hone ?_
    rintro h' ⟨j,hj,hc⟩ rfl
    exact hfresh j hj hc
  · obtain ⟨j,hj,hc⟩ := hh'
    by_cases hkh : h' = k'
    · exact (congrArg _ hkh).trans (Function.update_self ..)
    · refine (Function.update_of_ne hkh ..).trans (ht.unmapped h' ⟨j,?_,hc⟩)
      refine (Nat.lt_succ_iff_lt_or_eq.1 hj).resolve_right ?_
      rintro rfl
      exact hkh (Option.some.inj (hc.symm.trans hk))
  · have hkh : h' ≠ k' := fun hc => hh' i (Nat.lt_succ_self i) (hc ▸ hk)
    exact (Function.update_of_ne hkh ..).trans (ht.map h' fun j hj => hh' j (Nat.lt_succ_of_lt hj))
  · exact absurd hc (Nat.succ_ne_zero i)

variable (os) in
/-- The loop passes every subpool and ODP has not failed, or stops at the first subpool without a
change, or leaves the first subpool without its ODP pool. -/
theorem Ready.deleteSubpools (h : s.Ready p) :
    (s.deleteSubpools p os).2 = .ok ∧ Passed s (s.deleteSubpools p os).1 p (s.elem p).numSubpools ∧
      (∀ i < (s.elem p).numSubpools, (os i).Good) ∨
    (s.deleteSubpools p os).2 ≠ .ok ∧ 0 < (s.elem p).numSubpools ∧
      (¬∀ i < (s.elem p).numSubpools, (os i).Good) ∧
        ((os 0).destroyed = false ∧ (s.deleteSubpools p os).1 = s ∨ (os 0).destroyed = true ∧
          ((s.deleteSubpools p os).1.elem p).odpPool 0 = none ∧
            ((s.deleteSubpools p os).1.elem p).allocated = (s.elem p).allocated ∧
              ((s.deleteSubpools p os).1.elem p).numSubpools = (s.elem p).numSubpools) := by
  have hloop := forEach_range Status.ok (f := fun s i => State.deleteSubpool s p i (os i))
    (n := (s.elem p).numSubpools) (s := s) (I := fun i t => Passed s t p i ∧ ∀ j < i, (os j).Good)
    ⟨.start h,fun j hj => absurd hj (Nat.not_lt_zero j)⟩ fun i hi t ht hgood => ?_
  · rcases hloop with ⟨hok,ht,hgood⟩ | ⟨i,hi,t,⟨ht,hgood⟩,hbad,hres⟩
    · exact .inl ⟨hok,ht,hgood⟩
    · refine .inr ?_
      obtain ⟨k,hk,heq⟩ := ht.deleteSubpool h hi (os i)
      rw [State.deleteSubpools, hres]
      refine ⟨hbad,Nat.zero_lt_of_lt hi,fun hall => hbad ?_,?_⟩
      · rw [heq, if_pos (hall i hi).1, if_pos (hall i hi).2]
      · rw [heq]
        by_cases hzero : i = 0
        · obtain rfl := hzero
          obtain rfl := ht.same rfl
          split
          · rename_i hdestroyed
            refine .inr ⟨hdestroyed,?_⟩
            split <;> simp only [setMap, remSubpool, setElem, Function.update_self, and_self]
          · rename_i hdestroyed
            exact .inl ⟨Bool.of_not_eq_true hdestroyed,rfl⟩
        · have hpos := Nat.pos_of_ne_zero hzero
          have hnone : (t.elem p).odpPool 0 = none := by rw [ht.odpPool, if_pos hpos]
          refine .inr ⟨(hgood 0 hpos).1,?_⟩
          split
          · split <;>
            · simp only [setMap, remSubpool, setElem, Function.update_self,
                Function.update_of_ne (Ne.symm hzero), hnone, ht.allocated, ht.numSubpools, and_self]
          · exact ⟨hnone,ht.allocated,ht.numSubpools⟩
  · obtain ⟨k,hk,heq⟩ := ht.1.deleteSubpool h hi (os i)
    rw [heq] at hgood ⊢
    split at hgood
    · rename_i hdestroyed
      split at hgood
      · rename_i hindex
        rw [if_pos hdestroyed, if_pos hindex]
        refine ⟨ht.1.next h hi hk,fun j hj => ?_⟩
        rcases Nat.lt_succ_iff_lt_or_eq.1 hj with hj | rfl
        · exact ht.2 j hj
        · exact ⟨hdestroyed,hindex⟩
      · contradiction
    · contradiction

theorem poolDelete_eq (ha : (s.elem p).allocated = true) : s.poolDelete (some p) os =
    if (s.deleteSubpools p os).2 = .ok then ((s.deleteSubpools p os).1.finishDelete p,.ok)
    else s.deleteSubpools p os := by
  rw [poolDelete, if_pos ha]

theorem Passed.deleted (h : s.Ready p) (ht : Passed s t p (s.elem p).numSubpools) :
    s.Deleted (t.finishDelete p) p := by
  refine ⟨?_,fun q hq => ?_,fun i hi k hk => ?_,fun x hx => ?_⟩
  · simp only [finishDelete, setElem, Function.update_self]
  · simp only [finishDelete, setElem, Function.update_of_ne hq]
    exact ht.elem q hq
  · exact ⟨ht.unmapped k ⟨i,hi,hk⟩,ht.odpPools.self k ⟨i,hi,hk⟩⟩
  · rcases ht.odpPools.mem x hx with ⟨hx,-⟩ | ⟨⟨j,hj,hk⟩,hby,r,hr,hpayload⟩
    · exact .inl hx
    · obtain ⟨k,r',hk',hr',hp,-⟩ := h.held j hj
      obtain rfl := Option.some.inj (hk'.symm.trans hk)
      obtain rfl := Option.some.inj (hr'.symm.trans hr)
      exact .inr ⟨⟨j,hpayload.symm.trans hp⟩,hby⟩

theorem Ready.deletable (h : s.Ready p) (ha : (s.elem p).allocated = true) : s.Deletable p := by
  intro os hgood
  rw [poolDelete_eq ha]
  rcases h.deleteSubpools os with ⟨hok,ht,-⟩ | ⟨-,-,hbad,-⟩
  · rw [if_pos hok]
    exact ⟨rfl,ht.deleted h⟩
  · exact absurd (fun i _ => hgood i) hbad

/-- A pool whose first ODP pool is gone cannot be deleted any more. -/
theorem not_deletable (ha : (s.elem p).allocated = true) (hn : 0 < (s.elem p).numSubpools)
    (hnone : (s.elem p).odpPool 0 = none) : ¬s.Deletable p := by
  intro hdel
  have hok := (hdel (fun _ => {}) fun _ => ⟨rfl,rfl⟩).1
  have hloop : (s.deleteSubpools p fun _ => {}).2 = .notFound := by
    obtain ⟨n,hn⟩ := Nat.exists_eq_add_of_lt hn
    have hfirst : s.deleteSubpool p 0 {} = (s,.notFound) := by rw [State.deleteSubpool, hnone]
    rw [State.deleteSubpools, hn, Nat.zero_add, List.range_succ_eq_map, forEach, hfirst]
    rfl
  have hne : ¬(s.deleteSubpools p fun _ => {}).2 = .ok := by
    rw [hloop]
    exact Status.noConfusion
  rw [poolDelete_eq ha, if_neg hne, hloop] at hok
  cases hok

theorem Ready.delete_failsCleanly_iff (h : s.Ready p) (ha : (s.elem p).allocated = true) (env : Env) :
    s.FailsCleanly env (.delete (some p) os) ↔ s.Clean env (.delete (some p) os) := by
  rw [FailsCleanly, Clean, poolDelete_eq ha]
  rcases h.deleteSubpools os with ⟨hok,ht,hgood⟩ | ⟨hbad,hn,hnot,hend⟩
  · rw [if_pos hok, if_pos rfl]
    exact iff_of_true (fun _ => ht.deleted h) fun _ _ => .inr hgood
  · rw [if_neg hbad, if_neg hbad]
    rcases hend with ⟨hdestroyed,hs⟩ | ⟨hdestroyed,hnone,hall,hnum⟩
    · rw [hs]
      exact iff_of_true (fun _ => h.deletable ha) fun _ _ => .inl hdestroyed
    · refine iff_of_false (fun hdel => not_deletable (hall.trans ha) (hnum ▸ hn) hnone (hdel ha))
        fun hclean => ?_
      rcases hclean ha hn with hc | hc
      · exact Bool.false_ne_true (hc.symm.trans hdestroyed)
      · exact hnot hc

/-- The element that `pool_create` sets up before the first subpool. -/
structure Configured (s t : State π ι) (p : π) (cfg : PoolCfg) : Prop where
  elem : ∀ q, q ≠ p → t.elem q = s.elem q
  allocated : (t.elem p).allocated = true
  numSubpools : (t.elem p).numSubpools = 0
  poolCfg : (t.elem p).poolCfg.length = cfg.subpool.length
  map : t.map = s.map
  odpPools : t.odpPools = s.odpPools

variable {env : Env} {name : Option (List UInt8)} {cfg : PoolCfg}

omit [DecidableEq ι] in
private theorem Configured.setElem {e : MpoolElem ι} (ha : e.allocated = true) (hn : e.numSubpools = 0)
    (hlen : e.poolCfg.length = cfg.subpool.length) : Configured s (s.setElem p e) p cfg := by
  have hself : (s.setElem p e).elem p = e := Function.update_self ..
  exact ⟨fun q hq => Function.update_of_ne hq ..,(congrArg MpoolElem.allocated hself).trans ha,
    (congrArg MpoolElem.numSubpools hself).trans hn,
    (congrArg (fun e => e.poolCfg.length) hself).trans hlen,rfl,rfl⟩

omit [DecidableEq ι] in
theorem configure_configured (env : Env) (name : Option (List UInt8)) :
    Configured s (s.configure env p name cfg).1 p cfg := by
  have hlen : (env.setPoolcacheSize cfg (sortPoolCfg cfg.subpool)).length = cfg.subpool.length :=
    (List.length_map _).trans (sortPoolCfg_perm _).length_eq
  rw [configure]
  split
  · exact .setElem rfl rfl hlen
  · dsimp only
    split
    · exact .setElem rfl rfl hlen
    · exact .setElem rfl rfl hlen

omit [DecidableEq ι] in
theorem configure_valid : (s.configure env p name cfg).2 = true ↔ env.Valid cfg := by
  rw [configure, Env.Valid]
  split
  · rename_i hsize
    exact iff_of_false Bool.false_ne_true fun hc => hc.1 hsize
  · rename_i hsize
    dsimp only
    split
    · rename_i hbad
      exact iff_of_false Bool.false_ne_true fun hc => hc.2 hbad.1 hbad.2
    · rename_i hgood
      refine iff_of_true rfl ⟨?_,fun hp hc => hgood ⟨hp,hc⟩⟩
      rw [hsize]
      exact Option.some_ne_none _

/-- `create_subpools` has created `i` subpools and mapped `m` of them. -/
structure Built (s t : State π ι) (p : π) (n : Nat) (os : Nat → Made ι) (i m : Nat) : Prop where
  elem : ∀ q, q ≠ p → t.elem q = s.elem q
  allocated : (t.elem p).allocated = true
  numSubpools : (t.elem p).numSubpools = i
  isSome : ∀ j < i, (os j).odpPool.isSome = true
  odpPool : ∀ j < i, (t.elem p).odpPool j = (os j).odpPool
  odpPools : Resources.Creates s.odpPools t.odpPools (fun h => ∃ j < i, (os j).odpPool = some h)
    fun h owner => ∃ j < n, owner = some (p,j) ∧ (os j).odpPool = some h
  mapped : ∀ j < m, ∀ h, (os j).odpPool = some h → t.map h = ⟨some p,j⟩
  map : ∀ h, (∀ j < m, (os j).odpPool ≠ some h) → t.map h = s.map h

/-- The indexes that ODP gives out are free, and differ. -/
def Fresh (s : State π ι) (n : Nat) (os : Nat → Made ι) : Prop :=
  ∀ i < n, ∀ h ∈ (os i).odpPool, s.odpPools.Free h ∧ ∀ j < i, (os j).odpPool ≠ some h

variable {m n : Nat} {made : Nat → Made ι}

omit [DecidableEq π] in
theorem Fresh.injective (hf : Fresh s n made) {j : Nat} {h : ι} (hi : i < n) (hj : j < n)
    (hih : (made i).odpPool = some h) (hjh : (made j).odpPool = some h) : i = j := by
  rcases Nat.lt_trichotomy i j with hlt | heq | hlt
  · exact absurd hih ((hf j hj h hjh).2 i hlt)
  · exact heq
  · exact absurd hjh ((hf i hi h hih).2 j hlt)

omit [DecidableEq π] in
theorem Configured.built (h : Configured s t p cfg) (hok : s.odpPools.Ok) : Built s t p n made 0 0 := by
  refine ⟨h.elem,h.allocated,h.numSubpools,fun j hj => absurd hj (Nat.not_lt_zero j),
    fun j hj => absurd hj (Nat.not_lt_zero j),?_,fun j hj => absurd hj (Nat.not_lt_zero j),
    fun k _ => congrFun h.map k⟩
  rw [h.odpPools]
  refine .none hok ?_
  rintro k ⟨j,hj,-⟩
  exact absurd hj (Nat.not_lt_zero j)

/-- What ODP's answers make of a round of the loop. -/
theorem Built.setSize (h : Built s t p n made i m) : Built s (t.setSize p i) p n made i m := by
  refine ⟨fun q hq => ?_,?_,?_,h.isSome,fun j hj => ?_,h.odpPools,h.mapped,h.map⟩
  · exact (Function.update_of_ne hq ..).trans (h.elem q hq)
  · simp only [State.setSize, State.setElem, Function.update_self]
    exact h.allocated
  · simp only [State.setSize, State.setElem, Function.update_self]
    exact h.numSubpools
  · simp only [State.setSize, State.setElem, Function.update_self]
    exact h.odpPool j hj

theorem Built.addSubpool (h : Built s t p n made i i) (hf : Fresh s n made) (hi : i < n) {k : ι}
    (hk : (made i).odpPool = some k) : Built s (t.addSubpool p i k) p n made (i+1) i := by
  have hother (j : Nat) (hj : j < i) : (made j).odpPool ≠ some k := (hf i hi k hk).2 j hj
  have hfree : t.odpPools.Free k := by
    rw [Resources.Free, h.odpPools.other k (by rintro ⟨j,hj,hc⟩; exact hother j hj hc)]
    exact (hf i hi k hk).1
  have hone := Resources.Creates.one (p := some (p,i))
    (fun h owner => ∃ j < n, owner = some (p,j) ∧ (made j).odpPool = some h) h.odpPools.ok hfree
    ⟨i,hi,rfl,hk⟩
  have hhandles : (fun h => (∃ j < i, (made j).odpPool = some h) ∨ k = h) =
      fun h => ∃ j < i+1, (made j).odpPool = some h := by
    funext h
    refine propext ⟨?_,?_⟩
    · rintro (⟨j,hj,hc⟩ | rfl)
      · exact ⟨j,Nat.lt_succ_of_lt hj,hc⟩
      · exact ⟨i,Nat.lt_succ_self i,hk⟩
    · rintro ⟨j,hj,hc⟩
      rcases Nat.lt_succ_iff_lt_or_eq.1 hj with hj | rfl
      · exact .inl ⟨j,hj,hc⟩
      · exact .inr (Option.some.inj (hk.symm.trans hc))
  refine ⟨fun q hq => ?_,?_,?_,fun j hj => ?_,fun j hj => ?_,?_,h.mapped,h.map⟩
  · exact (Function.update_of_ne hq ..).trans (h.elem q hq)
  · simp only [State.addSubpool, State.setElem, Function.update_self]
    exact h.allocated
  · simp only [State.addSubpool, State.setElem, Function.update_self, h.numSubpools]
  · rcases Nat.lt_succ_iff_lt_or_eq.1 hj with hj | rfl
    · exact h.isSome j hj
    · exact Option.isSome_iff_exists.2 ⟨k,hk⟩
  · simp only [State.addSubpool, State.setElem, Function.update_self]
    by_cases hji : j = i
    · rw [hji, Function.update_self, hk]
    · rw [Function.update_of_ne hji]
      exact h.odpPool j (by omega)
  · refine hhandles ▸ h.odpPools.trans hone ?_
    rintro k' ⟨j,hj,hc⟩ rfl
    exact hother j hj hc

omit [DecidableEq π] in
theorem Built.setMap (h : Built s t p n made (i+1) i) (hf : Fresh s n made) (hi : i < n) {k : ι}
    (hk : (made i).odpPool = some k) : Built s (t.setMap k ⟨some p,i⟩) p n made (i+1) (i+1) := by
  refine ⟨h.elem,h.allocated,h.numSubpools,h.isSome,h.odpPool,h.odpPools,fun j hj k' hk' => ?_,
    fun k' hk' => ?_⟩
  · rcases Nat.lt_succ_iff_lt_or_eq.1 hj with hj | rfl
    · have hne : k' ≠ k := fun hc => (hf i hi k hk).2 j hj (hc ▸ hk')
      exact (Function.update_of_ne hne ..).trans (h.mapped j hj k' hk')
    · obtain rfl := Option.some.inj (hk.symm.trans hk')
      exact Function.update_self ..
  · have hne : k' ≠ k := fun hc => hk' i (Nat.lt_succ_self i) (hc ▸ hk)
    exact (Function.update_of_ne hne ..).trans (h.map k' fun j hj => hk' j (Nat.lt_succ_of_lt hj))

/-- The loop creates every subpool, or stops at one that ODP does not create or gives no index. -/
theorem Configured.createSubpools (hc : Configured s t p cfg) (hok : s.odpPools.Ok)
    (hf : Fresh s cfg.subpool.length made) :
    (t.createSubpools p made).2 = 0 ∧ (∀ i < cfg.subpool.length, (made i).Good) ∧
      Built s (t.createSubpools p made).1 p cfg.subpool.length made cfg.subpool.length cfg.subpool.length ∨
    (t.createSubpools p made).2 ≠ 0 ∧ (¬∀ i < cfg.subpool.length, (made i).Good) ∧ ∃ i m,
      Built s (t.createSubpools p made).1 p cfg.subpool.length made i m ∧ i ≤ cfg.subpool.length ∧
        m ≤ i ∧ ∀ j < cfg.subpool.length, Reached made j ↔ j < i := by
  have hloop := forEach_range (0 : Int) (n := cfg.subpool.length) (s := t)
    (f := fun s i => State.createSubpool s p i (made i))
    (I := fun i u => Built s u p cfg.subpool.length made i i ∧ ∀ j < i, (made j).Good)
    ⟨hc.built hok,fun j hj => absurd hj (Nat.not_lt_zero j)⟩ fun i hi u hu hgood => ?_
  · rw [State.createSubpools, hc.poolCfg]
    rcases hloop with ⟨hzero,hu,hgood⟩ | ⟨i,hi,u,⟨hu,hgood⟩,hbad,hres⟩
    · exact .inl ⟨hzero,hgood,hu⟩
    · refine .inr ?_
      have hbefore (j : Nat) (hj : j < i) : Reached made j :=
        ⟨fun l hl => hgood l (Nat.lt_trans hl hj),(hgood j hj).1⟩
      have hnot : ¬(made i).Good := by
        intro hgoodi
        obtain ⟨k,hk⟩ := Option.isSome_iff_exists.1 hgoodi.1
        refine hbad ?_
        simp only [State.createSubpool, hk, if_pos hgoodi.2]
      have hafter (j : Nat) (hj : Reached made j) : j ≤ i := by
        by_contra hlt
        exact hnot (hj.1 i (Nat.lt_of_not_le hlt))
      rw [hres]
      refine ⟨hbad,fun hall => hnot (hall i hi),?_⟩
      cases hk : (made i).odpPool with
      | none =>
        simp only [State.createSubpool, hk]
        refine ⟨i,i,hu.setSize,Nat.le_of_lt hi,Nat.le_refl i,fun j _ =>
          ⟨fun hj => Nat.lt_of_le_of_ne (hafter j hj) ?_,hbefore j⟩⟩
        rintro rfl
        have hsome := hj.2
        rw [hk] at hsome
        exact Bool.false_ne_true hsome
      | some k =>
        have hindex : (made i).index ≠ true := fun hc => hnot ⟨Option.isSome_iff_exists.2 ⟨k,hk⟩,hc⟩
        simp only [State.createSubpool, hk, if_neg hindex]
        refine ⟨i+1,i,hu.setSize.addSubpool hf hi hk,hi,Nat.le_succ i,fun j _ =>
          ⟨fun hj => Nat.lt_succ_of_le (hafter j hj),fun hj => ?_⟩⟩
        rcases Nat.lt_succ_iff_lt_or_eq.1 hj with hj | rfl
        · exact hbefore j hj
        · exact ⟨hgood,Option.isSome_iff_exists.2 ⟨k,hk⟩⟩
  · obtain ⟨hu,hbefore⟩ := hu
    cases hk : (made i).odpPool with
    | none =>
      simp only [State.createSubpool, hk] at hgood
      cases hgood
    | some k =>
      simp only [State.createSubpool, hk] at hgood ⊢
      split at hgood
      · rename_i hindex
        rw [if_pos hindex]
        refine ⟨(hu.setSize.addSubpool hf hi hk).setMap hf hi hk,fun j hj => ?_⟩
        rcases Nat.lt_succ_iff_lt_or_eq.1 hj with hj | rfl
        · exact hbefore j hj
        · exact ⟨Option.isSome_iff_exists.2 ⟨k,hk⟩,hindex⟩
      · cases hgood

omit [DecidableEq π] in
theorem Built.ready (h : Built s t p n made i m) (hf : Fresh s n made) (hi : i ≤ n) : t.Ready p := by
  refine ⟨h.odpPools.ok,fun j hj => ?_⟩
  rw [h.numSubpools] at hj
  obtain ⟨k,hk⟩ := Option.isSome_iff_exists.1 (h.isSome j hj)
  obtain ⟨r,hr,halive,j',hj',hp,hk'⟩ := h.odpPools.self k ⟨j,hj,hk⟩
  obtain rfl := hf.injective hj' (Nat.lt_of_lt_of_le hj hi) hk' hk
  exact ⟨k,r,(h.odpPool j' hj).trans hk,hr,hp,halive⟩

omit [DecidableEq π] in
/-- No EM pool has an ODP index that is free. -/
theorem Inv.map_of_free (h : s.Inv) {k : ι} (hfree : s.odpPools.Free k) : s.map k = {} := by
  cases hp : (s.map k).pool with
  | none => exact h.map_undef k hp
  | some q =>
    have hmap : s.map k = ⟨some q,(s.map k).subpool⟩ := by rw [← hp]
    obtain ⟨ha,hi,hk⟩ := (h.map_iff _ _ _).1 hmap
    obtain ⟨k',r,hk',hr,-,halive⟩ := h.held q ha _ hi
    obtain rfl := Option.some.inj (hk'.symm.trans hk)
    exact absurd halive (hfree r hr)

/-- The error path of `pool_create` undoes what has been built, as long as every index is found. -/
theorem Built.cleanup_iff (h : Built s t p n made i m) (hinv : s.Inv) (ha : (s.elem p).allocated = false)
    (hf : Fresh s n made) (hi : i ≤ n) (hm : m ≤ i) (hd : ∀ j < i, (os j).destroyed = true) :
    s.NothingLeft (t.poolDelete (some p) os).1 ↔ ∀ j < i, (os j).index = true := by
  have hready := h.ready hf hi
  rw [poolDelete_eq h.allocated]
  rcases hready.deleteSubpools os with ⟨hok,ht,hgood⟩ | ⟨hbad,-,hnot,hend⟩
  · rw [h.numSubpools] at hgood
    rw [if_pos hok]
    have hdel := ht.deleted hready
    have hhandles : (fun k => ∃ j < (t.elem p).numSubpools, (t.elem p).odpPool j = some k) =
        fun k => ∃ j < i, (made j).odpPool = some k := by
      funext k
      rw [h.numSubpools]
      exact propext ⟨fun ⟨j,hj,hk⟩ => ⟨j,hj,(h.odpPool j hj).symm.trans hk⟩,
        fun ⟨j,hj,hk⟩ => ⟨j,hj,(h.odpPool j hj).trans hk⟩⟩
    have hfree (k : ι) (hk : ∃ j < i, (made j).odpPool = some k) : s.odpPools.Free k := by
      obtain ⟨j,hj,hk⟩ := hk
      exact (hf j (Nat.lt_of_lt_of_le hj hi) k hk).1
    have hundone := h.odpPools.undone (hhandles ▸ ht.odpPools) hinv.ok hfree
    refine iff_of_true ⟨fun q => ?_,?_,hundone.1,fun r hr => ?_⟩ fun j hj => (hgood j hj).2
    · by_cases hq : q = p
      · rw [hq, ha]
        exact hdel.freed
      · rw [hdel.elem q hq, h.elem q hq]
    · funext k
      by_cases hk : ∃ j < i, (made j).odpPool = some k
      · rw [hinv.map_of_free (hfree k hk)]
        exact ht.unmapped k ((congrFun hhandles k).symm ▸ hk)
      · refine (ht.map k fun j hj hc => hk ?_).trans (h.map k fun j hj hc => hk ?_)
        · rw [h.numSubpools] at hj
          exact ⟨j,hj,(h.odpPool j hj).symm.trans hc⟩
        · exact ⟨j,Nat.lt_of_lt_of_le hj hm,hc⟩
    · refine (hundone.2 r hr).imp_right ?_
      rintro ⟨hby,-,⟨j,-,rfl,-⟩,hkey⟩
      exact ⟨p,j,hkey.symm,hby⟩
  · rw [h.numSubpools] at hnot
    rw [if_neg hbad]
    refine iff_of_false (fun hc => ?_) fun hc => hnot fun j hj => ⟨hd j hj,hc j hj⟩
    have halloc : ((t.deleteSubpools p os).1.elem p).allocated = true := by
      rcases hend with ⟨-,hs⟩ | ⟨-,-,hall,-⟩
      · rw [hs, h.allocated]
      · rw [hall, h.allocated]
    exact Bool.false_ne_true (ha.symm.trans ((hc.pool p).symm.trans halloc))

end State
end EmOdp.Pool
