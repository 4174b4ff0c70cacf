import EmOdp.Pool.Cores
import EmOdp.Pool.FailedCalls

/-! A core that is not interrupted takes the steps of `pool_create` and `pool_delete` as one call. -/
namespace EmOdp.Pool
open Lib
variable {κ π ι : Type} [DecidableEq κ] [DecidableEq π] [DecidableEq ι]

namespace Cores
variable {s : Cores κ π ι} {c : κ} {p : π} {i : Nat} {h : ι} {t : State π ι} (env : Env)

omit [DecidableEq π] [DecidableEq ι] in
theorem next_pc {x : Pc π ι} : (s.next c t x).pc c = x := Function.update_self ..

omit [DecidableEq π] [DecidableEq ι] in
theorem next_next {u : State π ι} {x y : Pc π ι} : (s.next c t x).next c u y = s.next c u y := by
  rw [next, next, next, Function.update_idem]

omit [DecidableEq π] [DecidableEq ι] in
theorem next_self {x : Pc π ι} (hpc : s.pc c = x) : s.next c s.tbl x = s := by
  rw [next, ← hpc, Function.update_eq_self]

theorem step_odpPoolDestroy {o : Unmade} (hpc : s.pc c = .deleting p i) :
    s.step env (.odpPoolDestroy c o) = some (s.odpPoolDestroy c p i o) := by
  simp only [step, hpc]

theorem step_clear {index : Bool} (hpc : s.pc c = .destroyed p i h index) :
    s.step env (.clear c) = some (s.clear c p i h index) := by
  simp only [step, hpc]

theorem step_odpPoolCreate {o : Made ι} (hpc : s.pc c = .creating p i)
    (hfree : ∀ h ∈ o.odpPool, s.tbl.odpPools.Free h) :
    s.step env (.odpPoolCreate c o) = some (s.odpPoolCreate c p i o) := by
  simp only [step, hpc]
  exact if_pos hfree

theorem step_storePool (hpc : s.pc c = .created p i h) :
    s.step env (.storePool c) = some (s.storePool c p i h) := by
  simp only [step, hpc]

theorem step_storeSubpool (hpc : s.pc c = .poolSet p i h) :
    s.step env (.storeSubpool c) = some (s.storeSubpool c p i h) := by
  simp only [step, hpc]

/-- The rest of `pool_delete` on a core that is not interrupted -/
private theorem path_deleteSubpools (os : Nat → Unmade) (k : Nat) (hk : i + k = (t.elem p).numSubpools) :
    ∃ ls, (cores env).Path (s.next c t (.deleting p i)) ls (s.next c
      (let r := forEach .ok (fun s i => State.deleteSubpool s p i (os i)) (List.range' i k) t
      if r.2 = .ok then r.1.finishDelete p else r.1) .idle) := by
  have htbl {t : State π ι} {x : Pc π ι} : (s.next c t x).tbl = t := rfl
  induction k generalizing i t with
  | zero =>
    have hround := step_odpPoolDestroy env (o := {}) (@next_pc _ _ _ _ s c t (.deleting p i))
    refine ⟨[.odpPoolDestroy c {}],.cons hround ?_⟩
    rw [odpPoolDestroy, htbl, if_neg (Nat.not_lt_of_le (Nat.le_of_eq hk.symm) : ¬i < _), next_next]
    exact .nil _
  | succ k ih =>
    have hround := step_odpPoolDestroy env (o := os i) (@next_pc _ _ _ _ s c t (.deleting p i))
    rw [odpPoolDestroy, htbl, if_pos (by omega)] at hround
    rw [List.range'_succ, forEach, State.deleteSubpool]
    cases hpi : (t.elem p).odpPool i with
    | none =>
      simp only [hpi, next_next] at hround ⊢
      exact ⟨[.odpPoolDestroy c (os i)],.cons hround (.nil _)⟩
    | some h =>
      simp only [hpi, next_next] at hround ⊢
      cases hd : (os i).destroyed with
      | false =>
        simp only [hd, Bool.false_eq_true, if_false] at hround ⊢
        exact ⟨[.odpPoolDestroy c (os i)],.cons hround (.nil _)⟩
      | true =>
        simp only [hd, if_true] at hround ⊢
        have hclear := step_clear env (@next_pc _ _ _ _ s c (t.remSubpool p i h)
          (.destroyed p i h (os i).index))
        rw [clear] at hclear
        cases hidx : (os i).index with
        | false =>
          simp only [hidx, Bool.false_eq_true, if_false, next_next] at hround hclear ⊢
          exact ⟨[.odpPoolDestroy c (os i),.clear c],.cons hround (.cons hclear (.nil _))⟩
        | true =>
          simp only [hidx, if_true, next_next] at hround hclear ⊢
          have hself : ((t.remSubpool p i h).setMap h {}).elem p = { t.elem p with
              odpPool := Function.update (t.elem p).odpPool i none
              size := Function.update (t.elem p).size i 0 } := Function.update_self ..
          obtain ⟨ls,hls⟩ := @ih (i+1) ((t.remSubpool p i h).setMap h {})
            (by rw [hself]; exact (Nat.succ_add_eq_add_succ i k).trans hk)
          exact ⟨.odpPoolDestroy c (os i) :: .clear c :: ls,.cons hround (.cons hclear hls)⟩

private theorem path_deleting (os : Nat → Unmade) (ha : (t.elem p).allocated = true) :
    ∃ ls, (cores env).Path (s.next c t (.deleting p 0)) ls
      (s.next c (t.poolDelete (some p) os).1 .idle) := by
  obtain ⟨ls,hls⟩ := @path_deleteSubpools _ _ _ _ _ _ s c p 0 t env os _ (Nat.zero_add _)
  rw [← List.range_eq_range'] at hls
  have hres : (t.poolDelete (some p) os).1 = if (t.deleteSubpools p os).2 = .ok then
      (t.deleteSubpools p os).1.finishDelete p else (t.deleteSubpools p os).1 := by
    rw [State.poolDelete, if_pos ha]
    exact apply_ite Prod.fst ..
  rw [hres]
  exact ⟨ls,hls⟩

/-- A core that is not interrupted does what `pool_delete` does as one call. -/
theorem path_poolDelete (hpc : s.pc c = .idle) (pool : Option π) (os : Nat → Unmade) :
    ∃ ls, (cores env).Path s ls (s.next c (s.tbl.poolDelete pool os).1 .idle) := by
  have hbegin : s.step env (.deleteBegin c pool) = some (s.deleteBegin c pool) := by
    rw [step, if_pos hpc]
  cases pool with
  | none => exact ⟨[.deleteBegin c none],.cons hbegin ((next_self hpc).symm ▸ .nil s)⟩
  | some p =>
    rw [deleteBegin] at hbegin
    by_cases ha : (s.tbl.elem p).allocated = true
    · rw [if_pos ha] at hbegin
      obtain ⟨ls,hls⟩ := path_deleting env (s := s) (c := c) os ha
      exact ⟨.deleteBegin c (some p) :: ls,.cons hbegin hls⟩
    · rw [if_neg ha] at hbegin
      refine ⟨[.deleteBegin c (some p)],.cons hbegin ?_⟩
      rw [State.poolDelete, if_neg ha, next_self hpc]
      exact .nil s

/-- The rest of `create_subpools` on a core that is not interrupted, with the error path of
`pool_create` -/
private theorem path_createSubpools (os : Nat → Made ι) (cleanup : Nat → Unmade) (k : Nat)
    (ha : (t.elem p).allocated = true) (hk : i + k = (t.elem p).poolCfg.length)
    (hfree : ∀ j, i ≤ j → j < i + k → ∀ h ∈ (os j).odpPool,
      t.odpPools.Free h ∧ ∀ m < j, (os m).odpPool ≠ some h) :
    ∃ ls, (cores env).Path
      (s.next c t (if i < (t.elem p).poolCfg.length then .creating p i else .idle)) ls (s.next c
        (let r := forEach (0 : Int) (fun s i => State.createSubpool s p i (os i)) (List.range' i k) t
        if r.2 = 0 then r.1 else (r.1.poolDelete (some p) cleanup).1) .idle) := by
  have htbl {t : State π ι} {x : Pc π ι} : (s.next c t x).tbl = t := rfl
  induction k generalizing i t with
  | zero =>
    rw [if_neg (Nat.not_lt_of_le (Nat.le_of_eq hk.symm) : ¬i < _)]
    exact ⟨[],.nil _⟩
  | succ k ih =>
    have hi : i < (t.elem p).poolCfg.length := by omega
    have hround := step_odpPoolCreate env (o := os i) (@next_pc _ _ _ _ s c t (.creating p i))
      fun h hh => (hfree i (Nat.le_refl i) (by omega) h hh).1
    rw [if_pos hi]
    rw [odpPoolCreate, htbl] at hround
    rw [List.range'_succ, forEach, State.createSubpool]
    cases ho : (os i).odpPool with
    | none =>
      simp only [ho, next_next] at hround ⊢
      have ha' : ((t.setSize p i).elem p).allocated = true := by
        simp only [State.setSize, State.setElem, Function.update_self, ha]
      obtain ⟨ls,hls⟩ := path_deleting env (s := s) (c := c) cleanup ha'
      exact ⟨.odpPoolCreate c (os i) :: ls,.cons hround hls⟩
    | some h =>
      have hself : ((t.setSize p i).addSubpool p i h).elem p = { t.elem p with
          size := Function.update (t.elem p).size i
            (((t.elem p).poolCfg[i]?.map Subpool.size).getD 0)
          odpPool := Function.update (t.elem p).odpPool i (some h)
          numSubpools := (t.elem p).numSubpools + 1 } := by
        simp only [State.addSubpool, State.setSize, State.setElem, State.odpPoolCreate,
          Function.update_self]
      have ha' : (((t.setSize p i).addSubpool p i h).elem p).allocated = true := by
        rw [hself]
        exact ha
      simp only [ho, next_next] at hround ⊢
      cases hidx : (os i).index with
      | false =>
        simp only [hidx, Bool.false_eq_true, if_false] at hround ⊢
        obtain ⟨ls,hls⟩ := path_deleting env (s := s) (c := c) cleanup ha'
        exact ⟨.odpPoolCreate c (os i) :: ls,.cons hround hls⟩
      | true =>
        simp only [hidx, if_true] at hround ⊢
        have hpool := step_storePool env
          (@next_pc _ _ _ _ s c ((t.setSize p i).addSubpool p i h) (.created p i h))
        rw [storePool, next_next, htbl] at hpool
        have hsub := step_storeSubpool env
          (@next_pc _ _ _ _ s c (((t.setSize p i).addSubpool p i h).setMap h
            { ((t.setSize p i).addSubpool p i h).map h with pool := some p }) (.poolSet p i h))
        rw [storeSubpool, next_next, htbl] at hsub
        have htwice : (((t.setSize p i).addSubpool p i h).setMap h
            { ((t.setSize p i).addSubpool p i h).map h with pool := some p }).setMap h
              { (((t.setSize p i).addSubpool p i h).setMap h
                { ((t.setSize p i).addSubpool p i h).map h with pool := some p }).map h with
                  subpool := i } =
            ((t.setSize p i).addSubpool p i h).setMap h { pool := some p, subpool := i } := by
          simp only [State.setMap, Function.update_self, Function.update_idem]
        rw [htwice] at hsub
        obtain ⟨ls,hls⟩ := @ih (i+1) (((t.setSize p i).addSubpool p i h).setMap h
          { pool := some p, subpool := i }) ha' (by
            rw [State.setMap, hself]
            exact (Nat.succ_add_eq_add_succ i k).trans hk) fun j hij hj m hm => by
          obtain ⟨hmfree,hmne⟩ := hfree j (by omega) (by omega) m hm
          refine ⟨?_,hmne⟩
          have hmh : m ≠ h := by
            rintro rfl
            exact hmne i (by omega) ho
          have hbehind : (((t.setSize p i).addSubpool p i h).setMap h
              { pool := some p, subpool := i }).odpPools.behind m = t.odpPools.behind m :=
            Resources.behind_create_ne hmh
          rw [Resources.Free, hbehind]
          exact hmfree
        exact ⟨.odpPoolCreate c (os i) :: .storePool c :: .storeSubpool c :: ls,
          .cons hround (.cons hpool (.cons hsub hls))⟩

/-- A core that is not interrupted does what `pool_create` does as one call. -/
theorem path_poolCreate (hpc : s.pc c = .idle) {name : Option (List UInt8)}
    {reqPool : Option (Option π)} {cfg : PoolCfg} {free : Option π} {os : Nat → Made ι}
    {cleanup : Nat → Unmade} (hposs : s.tbl.Possible cfg free os) : ∃ ls, (cores env).Path s ls
      (s.next c (s.tbl.poolCreate env name reqPool cfg free os cleanup).1 .idle) := by
  have hbegin : s.step env (.createBegin c name reqPool cfg free) =
      some (s.createBegin env c name reqPool cfg free) := by
    rw [step, if_pos ⟨hpc,hposs.1⟩]
  rw [createBegin] at hbegin
  rw [State.poolCreate]
  cases halloc : s.tbl.poolAlloc reqPool free with
  | none =>
    simp only [halloc] at hbegin ⊢
    exact ⟨[.createBegin c name reqPool cfg free],.cons hbegin ((next_self hpc).symm ▸ .nil s)⟩
  | some p =>
    have hconf := @State.configure_configured _ _ _ s.tbl p cfg env name
    simp only [halloc] at hbegin ⊢
    rcases hres : s.tbl.configure env p name cfg with ⟨t,valid⟩
    rw [hres] at hconf hbegin
    cases valid with
    | false =>
      obtain ⟨ls,hls⟩ := path_deleting env (s := s) (c := c) cleanup hconf.allocated
      exact ⟨.createBegin c name reqPool cfg free :: ls,.cons hbegin hls⟩
    | true =>
      have hlen : 0 + cfg.subpool.length = (t.elem p).poolCfg.length :=
        (Nat.zero_add _).trans hconf.poolCfg.symm
      obtain ⟨ls,hls⟩ := path_createSubpools env (s := s) (c := c) os cleanup cfg.subpool.length
        hconf.allocated hlen fun j _ hj h hh => by
          rw [hconf.odpPools]
          exact hposs.2 j (Nat.zero_add cfg.subpool.length ▸ hj) h hh
      rw [← hlen, if_pos ((Nat.zero_add cfg.subpool.length).symm ▸ cfg.num_pos),
        ← List.range_eq_range'] at hls
      refine ⟨.createBegin c name reqPool cfg free :: ls,.cons hbegin ?_⟩
      simp only [State.createSubpools, hconf.poolCfg, apply_ite Prod.fst, if_true]
      exact hls

end Cores
end EmOdp.Pool
