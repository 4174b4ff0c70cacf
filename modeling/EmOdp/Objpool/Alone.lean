import EmOdp.Objpool.Runs

/-! A search for an element that runs alone, and which of them find every element. -/
namespace EmOdp.Objpool
open Lib
variable {κ ι : Type} [DecidableEq κ] [DecidableEq ι]

theorem roundIdx_eq (n : Nat) (subpoolIdx : UInt32) (i : Nat) :
    roundIdx n subpoolIdx i = RoundRobin.place (2 ^ 32) n subpoolIdx.toNat i := by
  rw [roundIdx, RoundRobin.place, UInt32.toNat_add, UInt32.toNat_ofNat', Nat.add_mod_mod]

theorem scans_iff {n : Nat} (hn : 0 < n) (hle : n ≤ objsubpoolsMax) (subpoolIdx : UInt32) :
    Scans n subpoolIdx ↔ ∀ j < n, ∃ i < n, roundIdx n subpoolIdx i = j := by
  simp only [roundIdx_eq]
  have hmax : n ≤ 2 ^ 32 := Nat.le_trans hle (by decide)
  exact (RoundRobin.covers_iff subpoolIdx.toNat_lt hn hmax).symm

namespace State
variable {s t : State κ ι} {c : κ} {subpoolIdx : UInt32} {i j rounds : Nat} {x : ι}

/-- A call that has returned executes nothing more. -/
private theorem path_idle (hpc : s.pc c = .idle)
    (h : (system κ ι).Path s (List.replicate rounds (.critical c)) t) : t = s := by
  cases rounds with
  | zero =>
    cases h
    rfl
  | succ rounds =>
    rcases h with _ | ⟨hst,-⟩
    have hnone : s.step (.critical c) = none := by simp only [State.step, hpc]
    cases hnone.symm.trans hst

omit [DecidableEq ι] in
private theorem pc_finish (e : Event κ ι) : (s.finish c e).pc c = .idle := Function.update_self ..

/-- The subpools from round `i` on are empty. -/
def EmptyFrom (s : State κ ι) (subpoolIdx : UInt32) (i : Nat) : Prop := ∀ j, i ≤ j → j < s.nbrSubpools →
  s.links.isEmpty (.listHead (roundIdx s.nbrSubpools subpoolIdx j)) = true

omit [DecidableEq κ] in
private theorem emptyFrom_of_succ (h : s.EmptyFrom subpoolIdx (i+1))
    (hi : s.links.isEmpty (.listHead (roundIdx s.nbrSubpools subpoolIdx i)) = true) :
    s.EmptyFrom subpoolIdx i := by
  intro j hij hj
  rcases Nat.eq_or_lt_of_le hij with rfl | hlt
  · exact hi
  · exact h j hlt hj

/-- The rest of a search that ends without an element has found the lists empty and changed none. -/
theorem Inv.emptyFrom (h : s.Inv) (hpc : s.pc c = .rem subpoolIdx i)
    (hpath : (system κ ι).Path s (List.replicate rounds (.critical c)) t)
    (hlog : t.log = s.log ++ [.null c]) :
    s.EmptyFrom subpoolIdx i ∧ t.links = s.links ∧ t.nbrSubpools = s.nbrSubpools := by
  induction rounds generalizing s i with
  | zero =>
    cases hpath
    exact absurd (List.self_eq_append_right.1 hlog) (List.cons_ne_nil _ _)
  | succ rounds ih =>
    rcases hpath with _ | @⟨_,u,_,_,_,hst,hpath⟩
    have hstep : s.remSection c subpoolIdx i = some u := by
      rw [← hst]
      simp only [State.step, hpc]
    have hu : u.Inv := h.step hst
    rcases h.remSection c subpoolIdx i with ⟨x,hx,hres⟩ | ⟨hempty,hres⟩
    · -- an element has been returned
      cases hres.symm.trans hstep
      cases path_idle (pc_finish _) hpath
      cases List.singleton_inj.1 (List.append_cancel_left hlog)
    · cases hres.symm.trans hstep
      split at hpath
      · rename_i hlt
        rw [if_pos hlt] at hu
        obtain ⟨hrest,hsame⟩ := ih hu (Function.update_self ..) hpath hlog
        exact ⟨emptyFrom_of_succ hrest hempty,hsame⟩
      · rename_i hlast
        cases path_idle (pc_finish _) hpath
        refine ⟨emptyFrom_of_succ (fun j hij hj => ?_) hempty,rfl,rfl⟩
        exact absurd (Nat.lt_of_le_of_lt hij hj) hlast

theorem remSection_empty
    (h : s.links.isEmpty (.listHead (roundIdx s.nbrSubpools subpoolIdx i)) = true) :
    s.remSection c subpoolIdx i = some (if i+1 < s.nbrSubpools then s.goto c (.rem subpoolIdx (i+1))
      else s.finish c (.null c)) := by
  rw [State.remSection, Links.remFirst, if_pos h]
  exact (apply_ite some ..).symm

/-- A search through empty lists ends without an element. -/
theorem path_null (hpc : s.pc c = .rem subpoolIdx i) (hi : i < s.nbrSubpools)
    (hempty : s.EmptyFrom subpoolIdx i) : ∃ rounds t,
      (system κ ι).Path s (List.replicate rounds (.critical c)) t ∧ t.log = s.log ++ [.null c] ∧
        t.links = s.links ∧ t.nbrSubpools = s.nbrSubpools := by
  obtain ⟨k,hk⟩ := Nat.exists_eq_add_of_lt hi
  have hfirst := hempty i (Nat.le_refl i) hi
  induction k generalizing s i with
  | zero =>
    have hst : s.step (.critical c) = some (s.finish c (.null c)) := by
      have hlast : ¬i+1 < s.nbrSubpools := by omega
      simp only [State.step, hpc, remSection_empty hfirst, if_neg hlast]
    exact ⟨1,_,.cons hst (.nil _),rfl,rfl,rfl⟩
  | succ k ih =>
    have hnext : i+1 < s.nbrSubpools := by omega
    let u := s.goto c (.rem subpoolIdx (i+1))
    have hst : s.step (.critical c) = some u := by
      simp only [State.step, hpc, remSection_empty hfirst, if_pos hnext, u]
    have hupc : u.pc c = .rem subpoolIdx (i+1) := Function.update_self ..
    have hrest : u.EmptyFrom subpoolIdx (i+1) := fun j hij hj => hempty j (Nat.le_of_succ_le hij) hj
    have hleft : u.nbrSubpools = i+1 + k + 1 := hk.trans (by omega)
    obtain ⟨rounds,t,hpath,ht⟩ := ih hupc hnext hrest hleft (hrest (i+1) (Nat.le_refl _) hnext)
    exact ⟨rounds+1,t,.cons hst hpath,ht⟩

/-- One element has been added to an empty pool. -/
private theorem exists_only {n : Nat} (hn : 0 < n) (hle : n ≤ objsubpoolsMax) (hj : j < n) (c : κ) (x : ι) :
    ∃ s : State κ ι, (system κ ι).Reachable s ∧ s.nbrSubpools = n ∧ s.pc c = .idle ∧
      (s.elem x).subpoolIdx = j ∧ ∀ y, (s.elem y).inPool = true ↔ y = x := by
  let zeroed : State κ ι := ⟨0,⟨id,id⟩,fun _ => ⟨0,false⟩,fun _ => .idle,fun _ => some c,[]⟩
  have hzeroed : zeroed.Zeroed := ⟨fun _ => rfl,fun _ => rfl,rfl⟩
  let links := (List.range n).foldl (fun links i => links.init (.listHead i)) zeroed.links
  let s : State κ ι := { zeroed with nbrSubpools := n, links }
  have hs : zeroed.objpoolInit n = some s := by
    rw [objpoolInit, if_neg (Nat.ne_of_gt hn), if_neg (Nat.not_lt.2 hle)]
  let t : State κ ι := ({ s with elem := Function.update s.elem x ⟨j,false⟩ }).goto c (.add x j)
  have hidx : (UInt32.ofNat j).toNat % n = j := by
    have hmax : j < 2 ^ 32 := Nat.lt_of_lt_of_le hj (Nat.le_trans hle (by decide))
    rw [UInt32.toNat_ofNat', Nat.mod_eq_of_lt hmax, Nat.mod_eq_of_lt hj]
  have hst : s.step (.objpoolAdd c (UInt32.ofNat j) x) = some t := by
    simp only [State.step, s, zeroed, hidx, if_true, t]
  have htu : t.step (.critical c) = some (t.addSection c x j) := by
    simp only [State.step, State.goto, Function.update_self, t]
  refine ⟨t.addSection c x j,.step (.step (.start ⟨zeroed,hzeroed,n,hs⟩) hst trivial) htu trivial,rfl,
    Function.update_self ..,?_,fun y => ?_⟩
  · simp only [State.addSection, State.finish, State.goto, setInPool, t, Function.update_self]
  · simp only [State.addSection, State.finish, State.goto, setInPool, t]
    by_cases hyx : y = x
    · subst hyx
      simp only [Function.update_self]
    · simp only [Function.update_of_ne hyx, hyx, iff_false]
      exact Bool.false_ne_true

end State

/-- Elements are neither lost nor duplicated, and a search finds one wherever it is: exactly when the
round-robin order of the subpools does not break at the last `uint32_t`. -/
theorem objpool_conserves_iff [Nonempty κ] [Nonempty ι] {n : Nat} (hn : 0 < n) (hle : n ≤ objsubpoolsMax)
    (subpoolIdx : UInt32) :
    (∀ s : State κ ι, (system κ ι).Reachable s → s.nbrSubpools = n →
      s.Conserved ∧ ∀ c t, s.RemAlone t c subpoolIdx → t.AllEmpty) ↔ Scans n subpoolIdx := by
  rw [scans_iff hn hle]
  constructor
  · intro hall j hj
    by_contra hmissed
    obtain ⟨c⟩ := ‹Nonempty κ›
    obtain ⟨x⟩ := ‹Nonempty ι›
    obtain ⟨s,hs,rfl,hpc,hidx,hin⟩ := State.exists_only hn hle hj c x
    obtain ⟨lists,hl⟩ := (State.reachable_inv hs).linked
    let u := s.goto c (.rem subpoolIdx 0)
    have hupc : u.pc c = .rem subpoolIdx 0 := Function.update_self ..
    have hempty : u.EmptyFrom subpoolIdx 0 := by
      intro i _ hi
      refine (hl.isEmpty_iff (Nat.mod_lt _ hn)).2 (List.eq_nil_iff_forall_not_mem.2 fun y hy => ?_)
      obtain ⟨hyin,hy⟩ := (hl.mem _ y).1 hy
      obtain rfl := (hin y).1 hyin
      exact hmissed ⟨i,hi,hy.symm.trans hidx⟩
    obtain ⟨rounds,t,hpath,hlog,hlinks,hnbr⟩ := State.path_null hupc hn hempty
    have hst : s.step (.objpoolRem c subpoolIdx) = some u := by simp only [State.step, hpc, u]
    have hnull := (hall s hs rfl).2 c t ⟨⟨rounds,.cons hst hpath⟩,hlog⟩ j (hnbr.symm ▸ hj)
    rw [hlinks] at hnull
    have hnil := (hl.isEmpty_iff hj).1 hnull
    have hmem := (hl.mem j x).2 ⟨(hin x).2 rfl,hidx⟩
    rw [hnil] at hmem
    cases hmem
  · rintro hscans s hs rfl
    have hinv := State.reachable_inv hs
    refine ⟨hinv.conserved,fun c t ⟨⟨rounds,hpath⟩,hlog⟩ idx hidx => ?_⟩
    rcases hpath with _ | @⟨_,u,_,_,_,hst,hpath⟩
    have hst : s.step (.objpoolRem c subpoolIdx) = some u := hst
    have hu : u.Inv := hinv.step hst
    cases hpc : s.pc c with
    | idle =>
      simp only [State.step, hpc] at hst
      cases hst
      obtain ⟨hempty,hlinks,hnbr⟩ := hu.emptyFrom (Function.update_self ..) hpath hlog
      rw [hnbr] at hidx
      obtain ⟨i,hi,rfl⟩ := hscans idx hidx
      rw [hlinks]
      exact hempty i (Nat.zero_le i) hi
    | add | rem | remElem =>
      simp only [State.step, hpc] at hst
      cases hst

theorem objpool_conserves_four : Scans 4 0xFFFFFFFF ∧
    ∀ s : State Unit Unit, (system Unit Unit).Reachable s → s.nbrSubpools = 4 →
      s.Conserved ∧ ∀ c t, s.RemAlone t c 0xFFFFFFFF → t.AllEmpty := by
  have hscans : Scans 4 0xFFFFFFFF := by decide
  exact ⟨hscans,(objpool_conserves_iff (by decide) (by decide) _).2 hscans⟩

/-- Three subpools, the last of which gets the only element -/
private def lastOfThree : Option (State Unit Unit) :=
  (State.objpoolInit ⟨0,⟨id,id⟩,fun _ => ⟨0,false⟩,fun _ => .idle,fun _ => some (),[]⟩ 3).bind fun s =>
    System.exec State.step (fun _ _ _ => true) s [.objpoolAdd () 2 (),.critical ()]

private theorem lastOfThree_isSome : lastOfThree.isSome = true := by decide

private def search : Option (State Unit Unit) :=
  System.exec State.step (fun _ l _ => decide (l = .objpoolRem () 0xFFFFFFFF ∨ l = .critical ()))
    (lastOfThree.get lastOfThree_isSome)
    (.objpoolRem () 0xFFFFFFFF :: List.replicate 3 (.critical ()))

private theorem search_isSome : search.isSome = true := by decide

/-- An external thread, whose core is -1, does not look into the last of three subpools: its sum wraps
from subpool 0 to subpool 0. -/
theorem external_thread_misses_element : ¬∀ n, 0 < n → n ≤ objsubpoolsMax → ∀ subpoolIdx (s : State Unit Unit),
    (system Unit Unit).Reachable s → s.nbrSubpools = n →
      s.Conserved ∧ ∀ c t, s.RemAlone t c subpoolIdx → t.AllEmpty := by
  intro hall
  obtain ⟨s,hs,hexec⟩ := Option.bind_eq_some_iff.1 (Option.some_get lastOfThree_isSome).symm
  have hreach : (system Unit Unit).Reachable (lastOfThree.get lastOfThree_isSome) :=
    System.ReachableVia.exec (fun _ _ _ _ => trivial)
      (.start ⟨_,⟨fun _ => rfl,fun _ => rfl,rfl⟩,3,hs⟩) hexec
  have hpath : (system Unit Unit).Path (lastOfThree.get lastOfThree_isSome)
      (.objpoolRem () 0xFFFFFFFF :: List.replicate 3 (.critical ())) (search.get search_isSome) :=
    (System.Path.of_exec (Option.some_get search_isSome).symm).1
  have hlog : (search.get search_isSome).log = (lastOfThree.get lastOfThree_isSome).log ++ [.null ()] := by
    decide
  have hempty := (hall 3 (by decide) (by decide) _ _ hreach (by decide)).2 () _ ⟨⟨3,hpath⟩,hlog⟩ 2
    (by decide)
  exact absurd hempty (by decide)

end EmOdp.Objpool
