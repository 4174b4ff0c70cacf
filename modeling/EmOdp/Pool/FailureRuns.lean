import EmOdp.Pool.FailedCalls

/-! Runs of pool creates and deletes in which ODP fails at any point. -/
namespace EmOdp.Pool
open Lib
variable {π ι : Type} [DecidableEq π] [DecidableEq ι]

namespace State
variable {s t : State π ι} {p : π} {n : Nat} {os : Nat → Unmade} {made : Nat → Made ι} {env : Env}
  {name : Option (List UInt8)} {cfg : PoolCfg}

omit [DecidableEq π] in
theorem Inv.ready (h : s.Inv) (ha : (s.elem p).allocated = true) : s.Ready p := ⟨h.ok,h.held p ha⟩

theorem Inv.managed (h : s.Inv) : s.Managed := ⟨h.once,fun _ ha => (h.ready ha).deletable ha⟩

omit [DecidableEq π] in
/-- A failed create leaves the invariant. -/
theorem Inv.nothingLeft (h : s.Inv) (ht : s.NothingLeft t) (hok : t.odpPools.Ok)
    (helem : ∀ q, (s.elem q).allocated = true → t.elem q = s.elem q) : t.Inv := by
  have hback {q : π} (hq : (t.elem q).allocated = true) : (s.elem q).allocated = true ∧
      t.elem q = s.elem q := by
    rw [ht.pool] at hq
    exact ⟨hq,helem q hq⟩
  refine ⟨hok,fun r hr q i hp => ?_,fun q hq i hi => ?_,fun k q i => ?_,fun k hk => ?_⟩
  · rcases ht.destroyed r hr with hrs | ⟨q',i',hp',hby⟩
    · refine (h.once r hrs q i hp).imp_left fun ⟨halive,hq,hrec⟩ => ?_
      rw [helem q hq]
      exact ⟨halive,hq,hrec⟩
    · obtain ⟨rfl,-⟩ : q = q' ∧ i = i' := Prod.mk.inj (Option.some.inj (hp.symm.trans hp'))
      exact .inr hby
  · obtain ⟨hqs,heq⟩ := hback hq
    rw [heq] at hi ⊢
    obtain ⟨k,r,hk,hr,hp,halive⟩ := h.held q hqs i hi
    obtain ⟨hmem,rfl⟩ := Resources.mem_of_behind hr
    exact ⟨r.handle,r,hk,hok.behind_of_alive (ht.kept r hmem) halive,hp,halive⟩
  · rw [ht.map, h.map_iff]
    constructor
    · rintro ⟨hq,hrec⟩
      rw [helem q hq]
      exact ⟨hq,hrec⟩
    · rintro ⟨hq,hrec⟩
      obtain ⟨hqs,heq⟩ := hback hq
      rw [heq] at hrec
      exact ⟨hqs,hrec⟩
  · rw [ht.map] at hk ⊢
    exact h.map_undef k hk

/-- A pool whose subpools have all been created and mapped. -/
theorem Inv.built (h : s.Inv) (ha : (s.elem p).allocated = false) (ht : Built s t p n made n n)
    (hf : Fresh s n made) : t.Inv := by
  have hready := ht.ready hf (Nat.le_refl n)
  have hne {q : π} (hq : (s.elem q).allocated = true) : q ≠ p := by
    rintro rfl
    exact Bool.false_ne_true (ha.symm.trans hq)
  refine ⟨ht.odpPools.ok,fun r hr q i hp => ?_,fun q hq i hi => ?_,fun k q i => ?_,fun k hk => ?_⟩
  · rcases ht.odpPools.mem r hr with hrs | ⟨-,halive,j,hj,hp',hk⟩
    · refine (h.once r hrs q i hp).imp_left fun ⟨halive,hq,hrec⟩ => ?_
      rw [ht.elem q (hne hq)]
      exact ⟨halive,hq,hrec⟩
    · obtain ⟨rfl,rfl⟩ : q = p ∧ i = j := Prod.mk.inj (Option.some.inj (hp.symm.trans hp'))
      exact .inl ⟨halive,ht.allocated,ht.numSubpools ▸ hj,(ht.odpPool i hj).trans hk⟩
  · by_cases hqp : q = p
    · obtain rfl := hqp
      exact hready.held i hi
    · rw [ht.elem q hqp] at hq hi ⊢
      obtain ⟨k,r,hk,hr,hp,halive⟩ := h.held q hq i hi
      refine ⟨k,r,hk,(ht.odpPools.other k ?_).trans hr,hp,halive⟩
      rintro ⟨j,hj,hmade⟩
      exact (hf j hj k hmade).1 r hr halive
  · by_cases hmade : ∃ j < n, (made j).odpPool = some k
    · obtain ⟨j,hj,hk⟩ := hmade
      rw [ht.mapped j hj k hk]
      constructor
      · intro hc
        obtain ⟨hqp,rfl⟩ := PoolSubpool.mk.inj hc
        obtain rfl := Option.some.inj hqp
        exact ⟨ht.allocated,ht.numSubpools.symm ▸ hj,(ht.odpPool j hj).trans hk⟩
      · rintro ⟨hq,hi,hrec⟩
        by_cases hqp : q = p
        · obtain rfl := hqp
          rw [ht.numSubpools] at hi
          rw [hf.injective hj hi hk ((ht.odpPool i hi).symm.trans hrec)]
        · rw [ht.elem q hqp] at hq hi hrec
          obtain ⟨k',r,hk',hr,-,halive⟩ := h.held q hq i hi
          obtain rfl := Option.some.inj (hk'.symm.trans hrec)
          exact absurd halive ((hf j hj k' hk).1 r hr)
    · rw [ht.map k fun j hj hc => hmade ⟨j,hj,hc⟩, h.map_iff]
      constructor
      · rintro ⟨hq,hrec⟩
        rw [ht.elem q (hne hq)]
        exact ⟨hq,hrec⟩
      · rintro ⟨hq,hi,hrec⟩
        have hqp : q ≠ p := by
          rintro rfl
          rw [ht.numSubpools] at hi
          exact hmade ⟨i,hi,(ht.odpPool i hi).symm.trans hrec⟩
        rw [ht.elem q hqp] at hq hi hrec
        exact ⟨hq,hi,hrec⟩
  · by_cases hmade : ∃ j < n, (made j).odpPool = some k
    · obtain ⟨j,hj,hkj⟩ := hmade
      rw [ht.mapped j hj k hkj] at hk
      cases hk
    · rw [ht.map k fun j hj hc => hmade ⟨j,hj,hc⟩] at hk ⊢
      exact h.map_undef k hk

/-- A pool whose subpools have all been destroyed and unmapped. -/
theorem Inv.passed (h : s.Inv) (ha : (s.elem p).allocated = true)
    (ht : Passed s t p (s.elem p).numSubpools) : (t.finishDelete p).Inv := by
  have hdel := ht.deleted (h.ready ha)
  have hne {q : π} (hq : ((t.finishDelete p).elem q).allocated = true) : q ≠ p := by
    rintro rfl
    exact Bool.false_ne_true (hdel.freed.symm.trans hq)
  -- an index of another pool is not among those of the pool
  have hother {q : π} (hqp : q ≠ p) {i : Nat} {k : ι} (hq : (s.elem q).allocated = true)
      (hi : i < (s.elem q).numSubpools) (hk : (s.elem q).odpPool i = some k) :
      ∀ j < (s.elem p).numSubpools, (s.elem p).odpPool j ≠ some k := by
    intro j hj hc
    obtain ⟨k₁,r₁,hk₁,hr₁,hp₁,-⟩ := h.held q hq i hi
    obtain ⟨k₂,r₂,hk₂,hr₂,hp₂,-⟩ := h.held p ha j hj
    obtain rfl := Option.some.inj (hk₁.symm.trans hk)
    obtain rfl := Option.some.inj (hk₂.symm.trans hc)
    obtain rfl := Option.some.inj (hr₁.symm.trans hr₂)
    exact hqp (congrArg Prod.fst (Option.some.inj (hp₁.symm.trans hp₂)))
  refine ⟨ht.odpPools.ok,fun r hr q i hp => ?_,fun q hq i hi => ?_,fun k q i => ?_,fun k hk => ?_⟩
  · rcases ht.odpPools.mem r hr with ⟨hrs,hnot⟩ | ⟨⟨j,hj,hk⟩,hby,r',hr',hpayload⟩
    · rcases h.once r hrs q i hp with ⟨halive,hq,hi,hk⟩ | hby
      · have hqp : q ≠ p := by
          rintro rfl
          exact hnot halive ⟨i,hi,hk⟩
        refine .inl ⟨halive,?_⟩
        rw [hdel.elem q hqp]
        exact ⟨hq,hi,hk⟩
      · exact .inr hby
    · obtain ⟨k',r'',hk',hr'',hp',-⟩ := h.held p ha j hj
      obtain rfl := Option.some.inj (hk'.symm.trans hk)
      obtain rfl := Option.some.inj (hr''.symm.trans hr')
      have hqp := Option.some.inj (hp'.symm.trans (hpayload.trans hp))
      obtain rfl := congrArg Prod.fst hqp
      exact .inr hby
  · have hqp := hne hq
    rw [hdel.elem q hqp] at hq hi ⊢
    obtain ⟨k,r,hk,hr,hp,halive⟩ := h.held q hq i hi
    refine ⟨k,r,hk,(ht.odpPools.other k ?_).trans hr,hp,halive⟩
    rintro ⟨j,hj,hc⟩
    exact hother hqp hq hi hk j hj hc
  · have hmap : (t.finishDelete p).map = t.map := rfl
    rw [hmap]
    by_cases hk : ∃ j < (s.elem p).numSubpools, (s.elem p).odpPool j = some k
    · rw [ht.unmapped k hk]
      refine iff_of_false (fun hc => ?_) fun ⟨hq,hi,hrec⟩ => ?_
      · cases hc
      · have hqp := hne hq
        rw [hdel.elem q hqp] at hq hi hrec
        obtain ⟨j,hj,hc⟩ := hk
        exact hother hqp hq hi hrec j hj hc
    · rw [ht.map k fun j hj hc => hk ⟨j,hj,hc⟩, h.map_iff]
      constructor
      · rintro ⟨hq,hi,hrec⟩
        have hqp : q ≠ p := by
          rintro rfl
          exact hk ⟨i,hi,hrec⟩
        rw [hdel.elem q hqp]
        exact ⟨hq,hi,hrec⟩
      · rintro ⟨hq,hrec⟩
        have hqp := hne hq
        rw [hdel.elem q hqp] at hq hrec
        exact ⟨hq,hrec⟩
  · by_cases hpk : ∃ j < (s.elem p).numSubpools, (s.elem p).odpPool j = some k
    · exact ht.unmapped k hpk
    · have hmap : (t.finishDelete p).map k = s.map k := ht.map k fun j hj hc => hpk ⟨j,hj,hc⟩
      rw [hmap] at hk ⊢
      exact h.map_undef k hk

omit [DecidableEq π] in
/-- Another user of ODP creates or destroys a pool of its own. -/
theorem Inv.otherCreate (h : s.Inv) {k : ι} (hfree : s.odpPools.Free k) :
    (s.odpPoolCreate k none).Inv := by
  refine ⟨h.ok.create hfree,fun r hr q i hp => ?_,fun q hq i hi => ?_,h.map_iff,h.map_undef⟩
  · rcases List.mem_cons.1 hr with rfl | hr
    · cases hp
    · exact h.once r hr q i hp
  · obtain ⟨k',r,hk,hr,hp,halive⟩ := h.held q hq i hi
    refine ⟨k',r,hk,(Resources.behind_create_ne ?_).trans hr,hp,halive⟩
    rintro rfl
    exact hfree r hr halive

omit [DecidableEq π] in
theorem Inv.otherDestroy (h : s.Inv) {k : ι} {r : Resource ι (Option (π × Nat)) (Option π)}
    (hr : s.odpPools.behind k = some r) (hp : r.payload = none) (halive : r.destroyedBy = []) :
    (s.odpPoolDestroy k none).Inv := by
  have hd := Resources.Destroys.one id (d := none) h.ok hr halive
    (f := fun r => { r with destroyedBy := r.destroyedBy ++ [none] }) (fun _ => rfl) (fun _ => rfl)
    fun _ => rfl
  refine ⟨hd.ok,fun x hx q i hpx => ?_,fun q hq i hi => ?_,h.map_iff,h.map_undef⟩
  · rcases hd.mem x hx with ⟨hx,-⟩ | ⟨rfl,-,r',hr',hpayload⟩
    · exact h.once x hx q i hpx
    · obtain rfl := Option.some.inj (hr.symm.trans hr')
      exact absurd (hp.symm.trans (hpayload.trans hpx)) (Option.some_ne_none _).symm
  · obtain ⟨k',r',hk,hr',hp',halive'⟩ := h.held q hq i hi
    refine ⟨k',r',hk,(hd.other k' ?_).trans hr',hp',halive'⟩
    rintro rfl
    obtain rfl := Option.some.inj (hr.symm.trans hr')
    exact Option.some_ne_none _ (hp'.symm.trans hp)

omit [DecidableEq π] [DecidableEq ι] in
theorem poolAlloc_free {reqPool : Option (Option π)} {free : Option π}
    (hfree : ∀ q ∈ free, (s.elem q).allocated = false) (hp : s.poolAlloc reqPool free = some p) :
    (s.elem p).allocated = false := by
  rcases reqPool with _ | _ | q
  · exact hfree p hp
  · cases hp
  · rw [poolAlloc] at hp
    split at hp
    · cases hp
    · rename_i hq
      obtain rfl := Option.some.inj hp
      exact Bool.of_not_eq_true hq

omit [DecidableEq π] [DecidableEq ι] in
theorem NothingLeft.refl : s.NothingLeft s := ⟨fun _ => rfl,rfl,fun _ hr => hr,fun _ hr => .inl hr⟩

/-- What is left after the error path of `pool_create`. -/
theorem Inv.cleanup (h : s.Inv) (ha : (s.elem p).allocated = false) {i m : Nat}
    (ht : Built s t p n made i m) (hf : Fresh s n made) (hi : i ≤ n)
    (hnothing : s.NothingLeft (t.poolDelete (some p) os).1) : (t.poolDelete (some p) os).1.Inv := by
  have hready := ht.ready hf hi
  have hne {q : π} (hq : (s.elem q).allocated = true) : q ≠ p := by
    rintro rfl
    exact Bool.false_ne_true (ha.symm.trans hq)
  rw [poolDelete_eq ht.allocated] at hnothing ⊢
  rcases hready.deleteSubpools os with ⟨hok,hpassed,-⟩ | ⟨hbad,-,-,hend⟩
  · rw [if_pos hok] at hnothing ⊢
    exact h.nothingLeft hnothing hpassed.odpPools.ok fun q hq =>
      ((hpassed.deleted hready).elem q (hne hq)).trans (ht.elem q (hne hq))
  · rw [if_neg hbad] at hnothing
    have halloc : ((t.deleteSubpools p os).1.elem p).allocated = true := by
      rcases hend with ⟨-,hs⟩ | ⟨-,-,hall,-⟩
      · rw [hs, ht.allocated]
      · rw [hall, ht.allocated]
    exact absurd (ha.symm.trans ((hnothing.pool p).symm.trans halloc)) Bool.false_ne_true

/-- A create fails cleanly if and only if its error path gets the index of every ODP pool that it
destroys. -/
theorem Inv.create (h : s.Inv) {reqPool : Option (Option π)} {free : Option π}
    (hposs : s.Possible cfg free made) (hd : ∀ i < emMaxSubpools, (os i).destroyed = true) :
    (s.FailsCleanly env (.create name reqPool cfg free made os) ↔
      s.Clean env (.create name reqPool cfg free made os)) ∧
    (s.Clean env (.create name reqPool cfg free made os) →
      (s.poolCreate env name reqPool cfg free made os).1.Inv) := by
  obtain ⟨hfree,hf⟩ := hposs
  rw [FailsCleanly, Clean]
  cases halloc : s.poolAlloc reqPool free with
  | none =>
    have hres : s.poolCreate env name reqPool cfg free made os = (s,none) := by
      rw [poolCreate, halloc]
    rw [hres]
    exact ⟨iff_of_true (fun _ => .refl) fun hc => absurd rfl hc,fun _ => h⟩
  | some p =>
    have ha := poolAlloc_free hfree halloc
    have hc := @configure_configured _ _ _ s p cfg env name
    have hvalid := @configure_valid _ _ _ s p env name cfg
    have hbase : Built s (s.configure env p name cfg).1 p cfg.subpool.length made 0 0 := hc.built h.ok
    rw [poolCreate, halloc]
    dsimp only
    rcases hcfg : s.configure env p name cfg with ⟨t,_ | _⟩
    · rw [hcfg] at hvalid hbase
      have hnothing : s.NothingLeft (t.poolDelete (some p) os).1 :=
        (hbase.cleanup_iff h ha hf (Nat.zero_le _) (Nat.le_refl 0) fun j hj =>
          absurd hj (Nat.not_lt_zero j)).2 fun j hj => absurd hj (Nat.not_lt_zero j)
      have hinvalid : ¬env.Valid cfg := fun hc => Bool.false_ne_true (hvalid.2 hc)
      exact ⟨iff_of_true (fun _ => hnothing) fun _ hc => absurd hc hinvalid,
        fun _ => h.cleanup ha hbase hf (Nat.zero_le _) hnothing⟩
    · rw [hcfg] at hvalid hc
      dsimp only
      rcases hc.createSubpools h.ok hf with ⟨hzero,hgood,hbuilt⟩ | ⟨hbad,hnot,i,m,hbuilt,hi,hm,hreach⟩
      · rw [if_pos hzero]
        exact ⟨iff_of_true (fun hc => absurd hc (Option.some_ne_none p)) fun _ _ hc => absurd hgood hc,
          fun _ => h.built ha hbuilt hf⟩
      · rw [if_neg hbad]
        have hiff := hbuilt.cleanup_iff h ha hf hi hm fun j hj =>
          hd j (Nat.lt_of_lt_of_le hj (Nat.le_trans hi cfg.num_le))
        have hclean : (∀ j < i, (os j).index = true) ↔
            ∀ j < cfg.subpool.length, Reached made j → (os j).index = true :=
          ⟨fun hall j hj hr => hall j ((hreach j hj).1 hr),fun hall j hj =>
            hall j (Nat.lt_of_lt_of_le hj hi) ((hreach j (Nat.lt_of_lt_of_le hj hi)).2 hj)⟩
        refine ⟨⟨fun hc _ _ _ => hclean.1 (hiff.1 (hc rfl)),fun hc _ =>
          hiff.2 (hclean.2 (hc (Option.some_ne_none p) (hvalid.1 rfl) hnot))⟩,fun hc => ?_⟩
        exact h.cleanup ha hbuilt hf hi
          (hiff.2 (hclean.2 (hc (Option.some_ne_none p) (hvalid.1 rfl) hnot)))

theorem Inv.delete (h : s.Inv) {pool : Option π} (hclean : s.Clean env (.delete pool os)) :
    (s.poolDelete pool os).1.Inv := by
  cases pool with
  | none => exact h
  | some p =>
    by_cases ha : (s.elem p).allocated = true
    · rw [poolDelete_eq ha]
      rcases (h.ready ha).deleteSubpools os with ⟨hok,ht,-⟩ | ⟨hbad,hn,hnot,hend⟩
      · rw [if_pos hok]
        exact h.passed ha ht
      · rw [if_neg hbad]
        rcases hend with ⟨-,hs⟩ | ⟨hdestroyed,-⟩
        · rw [hs]
          exact h
        · rcases hclean ha hn with hc | hc
          · exact absurd (hc.symm.trans hdestroyed) Bool.false_ne_true
          · exact absurd hc hnot
    · rw [poolDelete, if_neg ha]
      exact h

theorem Inv.delete_failsCleanly_iff (h : s.Inv) {pool : Option π} :
    s.FailsCleanly env (.delete pool os) ↔ s.Clean env (.delete pool os) := by
  cases pool with
  | none => exact Iff.rfl
  | some p =>
    by_cases ha : (s.elem p).allocated = true
    · exact (h.ready ha).delete_failsCleanly_iff ha env
    · exact iff_of_true (fun hc => absurd hc ha) fun hc => absurd hc ha

theorem Inv.step (h : s.Inv) {l : Label π ι} (hst : s.step env l = some t)
    (hd : l.CleanupDestroys) (hclean : s.Clean env l) : t.Inv := by
  cases l with
  | create name reqPool cfg free os cleanup =>
    rw [State.step] at hst
    split at hst
    · rename_i hposs
      obtain rfl := Option.some.inj hst
      exact (h.create hposs hd).2 hclean
    · cases hst
  | delete pool os =>
    obtain rfl := Option.some.inj hst
    exact h.delete hclean
  | otherCreate k =>
    rw [State.step] at hst
    split at hst
    · rename_i hfree
      obtain rfl := Option.some.inj hst
      exact h.otherCreate hfree
    · cases hst
  | otherDestroy k =>
    rw [State.step] at hst
    obtain ⟨r,hr,hst⟩ := Option.bind_eq_some_iff.1 hst
    split at hst
    · rename_i hother
      obtain rfl := Option.some.inj hst
      exact h.otherDestroy hr hother.1 hother.2
    · cases hst

theorem Inv.failsCleanly_iff (h : s.Inv) {l : Label π ι} (hst : s.step env l = some t)
    (hd : l.CleanupDestroys) : s.FailsCleanly env l ↔ s.Clean env l := by
  cases l with
  | create name reqPool cfg free os cleanup =>
    rw [State.step] at hst
    split at hst
    · rename_i hposs
      exact (h.create hposs hd).1
    · cases hst
  | delete pool os => exact h.delete_failsCleanly_iff
  | otherCreate k => exact Iff.rfl
  | otherDestroy k => exact Iff.rfl

omit [DecidableEq π] in
theorem Initial.inv (h : s.Initial) : s.Inv := by
  have hnot {q : π} (hq : (s.elem q).allocated = true) : False :=
    Bool.false_ne_true ((h.elem q).symm.trans hq)
  refine ⟨h.ok,fun r hr q i hp => ?_,fun q hq => (hnot hq).elim,fun k q i => ?_,fun k _ => h.map k⟩
  · exact absurd ((h.others r hr).symm.trans hp) (Option.some_ne_none _).symm
  · rw [h.map]
    exact iff_of_false (fun hc => Option.some_ne_none q (PoolSubpool.mk.inj hc).1.symm)
      fun hc => (hnot hc.1).elim

end State

/-- Pools are not leaked and not destroyed twice, and a call fails cleanly exactly when no index is
missing in a delete and `odp_pool_destroy` fails at its first subpool if at all. -/
theorem calls_fail_cleanly_iff {env : Env} {s : State π ι}
    (h : (system env).ReachableVia (fun s l _ => l.CleanupDestroys ∧ s.Clean env l) s) :
    s.Managed ∧ ∀ l t, s.step env l = some t → l.CleanupDestroys →
      (s.FailsCleanly env l ↔ s.Clean env l) := by
  have hinv := h.invariant (I := State.Inv) (fun _ hs => State.Initial.inv hs)
    fun _ _ _ hs hst hclean => State.Inv.step hs hst hclean.1 hclean.2
  exact ⟨hinv.managed,fun _ _ hst hd => hinv.failsCleanly_iff hst hd⟩

private def plainEnv : Env := ⟨⟨64,64,64,64⟩,⟨0,0,0,0⟩,0,0,0,0,.packet⟩

private def twoSubpools : PoolCfg where
  eventType := .sw
  subpool := [⟨256,8,0⟩,⟨64,8,0⟩]
  num_pos := by decide
  num_le := by decide

private def emptyTable : State Unit Nat := ⟨fun _ => {},fun _ => {},[]⟩

private theorem emptyTable_initial : emptyTable.Initial :=
  ⟨fun _ => rfl,fun _ => rfl,Resources.ok_nil,fun _ hr => absurd hr List.not_mem_nil⟩

/-- ODP gives out the indexes 0 and 1. -/
private def madeTwo (i : Nat) : Made Nat := ⟨some i,true⟩

/-- The second index is missing in a create, the first ODP pool is not destroyed at once. -/
private def failures : Option (State Unit Nat) :=
  System.exec (State.step · plainEnv) (fun s l _ => decide (l.CleanupDestroys ∧ s.Clean plainEnv l))
    emptyTable
    [.create none none twoSubpools (some ()) (fun i => ⟨some i,i == 0⟩) fun _ => {},
      .create none none twoSubpools (some ()) madeTwo fun _ => {},
      .delete (some ()) fun _ => ⟨false,true⟩]

private theorem failures_isSome : failures.isSome = true := by decide

theorem calls_fail_cleanly_twice : (failures.get failures_isSome).Managed ∧ ∀ l t,
    (failures.get failures_isSome).step plainEnv l = some t → l.CleanupDestroys →
      ((failures.get failures_isSome).FailsCleanly plainEnv l ↔
        (failures.get failures_isSome).Clean plainEnv l) :=
  calls_fail_cleanly_iff (System.ReachableVia.exec (fun _ _ _ => of_decide_eq_true)
    (.start emptyTable_initial) (Option.some_get failures_isSome).symm)

private def created : Option (State Unit Nat) :=
  System.exec (State.step · plainEnv) (fun _ _ _ => true) emptyTable
    [.create none none twoSubpools (some ()) madeTwo fun _ => {}]

private theorem created_isSome : created.isSome = true := by decide

/-- The second ODP pool is not destroyed: every further delete stops at the first one, which is
gone. -/
theorem partial_delete_is_final : ¬∀ (env : Env) (s : State Unit Nat), (system env).Reachable s →
    s.Managed ∧ ∀ l t, s.step env l = some t → l.CleanupDestroys → s.FailsCleanly env l := by
  intro hall
  obtain ⟨-,hcalls⟩ := hall plainEnv (created.get created_isSome)
    (System.ReachableVia.exec (fun _ _ _ _ => trivial) (.start emptyTable_initial)
      (Option.some_get created_isSome).symm)
  let os (i : Nat) : Unmade := ⟨i == 0,true⟩
  have hfails := hcalls (.delete (some ()) os) _ rfl trivial (by decide)
  have hstat : ((created.get created_isSome).poolDelete (some ()) os).2 ≠ .ok := by decide
  rw [if_neg hstat] at hfails
  exact State.not_deletable (by decide) (by decide) (by decide) hfails

end EmOdp.Pool
