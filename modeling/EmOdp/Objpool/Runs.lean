import EmOdp.Lib.History
import EmOdp.Lib.RoundRobin
import EmOdp.Objpool.Lists

/-! Runs of an object pool by any number of cores, and a search for an element that runs alone. -/
namespace EmOdp.Objpool
open Lib
variable {κ ι : Type} {log : List (Event κ ι)} {e : Event κ ι} {x : ι} {c : κ}

namespace State

theorem AddedSince.snoc (h : AddedSince log x) (he : ∀ d, e ≠ .returned d x) :
    AddedSince (log ++ [e]) x := by
  intro before d after heq
  rcases List.eq_nil_or_concat' after with rfl | ⟨after,e',rfl⟩
  · exact absurd (List.singleton_inj.1 (List.append_inj' heq rfl).2) (he d)
  · rw [← List.cons_append, ← List.append_assoc] at heq
    obtain ⟨f,hf⟩ := h before d after (List.append_inj' heq rfl).1
    exact ⟨f,List.mem_append_left _ hf⟩

theorem addedSince_added : AddedSince (log ++ [.added c x]) x := by
  intro before d after heq
  rcases List.eq_nil_or_concat' after with rfl | ⟨after,e',rfl⟩
  · cases List.singleton_inj.1 (List.append_inj' heq rfl).2
  · rw [← List.cons_append, ← List.append_assoc] at heq
    obtain rfl := List.singleton_inj.1 (List.append_inj' heq rfl).2
    exact ⟨c,List.mem_append_right _ List.mem_cons_self⟩

variable [DecidableEq κ] [DecidableEq ι]
variable {s t : State κ ι} {n i : Nat} {subpoolIdx : UInt32}

structure Inv (s : State κ ι) : Prop where
  pos : 0 < s.nbrSubpools
  le : s.nbrSubpools ≤ objsubpoolsMax
  linked : ∃ lists, Linked s.links s.elem s.nbrSubpools lists
  owned : ∀ x c, s.owner x = some c → (s.elem x).inPool = false
  /-- an element is added by its owner only, to the list of its index -/
  adding : ∀ c x idx, s.pc c = .add x idx →
    s.owner x = some c ∧ (s.elem x).subpoolIdx = idx ∧ idx < s.nbrSubpools
  since : ∀ x, (s.elem x).inPool = true → AddedSince s.log x
  once : Throughout (fun before e => ∀ d x, e = .returned d x → AddedSince before x) s.log

omit [DecidableEq κ] [DecidableEq ι] in
theorem Inv.conserved (h : s.Inv) : s.Conserved := by
  obtain ⟨lists,hl⟩ := h.linked
  refine ⟨⟨lists,hl.ring,fun x i _ j _ hi hj => ?_,fun x => ⟨fun hx => ?_,?_⟩,fun idx _ x hx => ?_⟩,
    fun before d x after hlog => h.once before _ after hlog d x rfl⟩
  · exact ((hl.mem i x).1 hi).2.symm.trans ((hl.mem j x).1 hj).2
  · exact ⟨_,hl.lt x hx,(hl.mem _ x).2 ⟨hx,rfl⟩⟩
  · rintro ⟨idx,-,hx⟩
    exact ((hl.mem idx x).1 hx).1
  · exact ((hl.mem idx x).1 hx).2

omit [DecidableEq ι] in
/-- The call goes on; an element that it is going to add is its own. -/
theorem Inv.goto (h : s.Inv) {pc : Pc ι} (hpc : ∀ x idx, pc = .add x idx →
    s.owner x = some c ∧ (s.elem x).subpoolIdx = idx ∧ idx < s.nbrSubpools) : (s.goto c pc).Inv := by
  refine ⟨h.pos,h.le,h.linked,h.owned,fun d x idx hd => ?_,h.since,h.once⟩
  simp only [State.goto] at hd
  by_cases hdc : d = c
  · subst hdc
    rw [Function.update_self] at hd
    exact hpc x idx hd
  · rw [Function.update_of_ne hdc] at hd
    exact h.adding d x idx hd

omit [DecidableEq ι] in
/-- The call returns without an element. -/
theorem Inv.finish (h : s.Inv) (he : ∀ d x, e ≠ .returned d x) : (s.finish c e).Inv := by
  have hgoto : (s.goto c .idle).Inv := h.goto nofun
  exact ⟨h.pos,h.le,h.linked,h.owned,hgoto.adding,fun x hx => .snoc (h.since x hx) fun d => he d x,
    h.once.snoc fun d x hd => absurd hd (he d x)⟩

theorem Inv.give (h : s.Inv) (hx : (s.elem x).inPool = true) :
    (s.give c x (s.links.rem (.listNode x))).Inv := by
  obtain ⟨lists,hl⟩ := h.linked
  -- the element has no owner that could be adding it
  have hne {y : ι} {d : κ} (hy : s.owner y = some d) : y ≠ x := by
    rintro rfl
    exact Bool.false_ne_true ((h.owned y d hy).symm.trans hx)
  refine ⟨h.pos,h.le,hl.take hx,fun y d hy => ?_,fun d y idx hd => ?_,fun y hy => ?_,?_⟩
  · simp only [State.give, State.finish, State.goto, setInPool] at hy ⊢
    by_cases hyx : y = x
    · subst hyx
      rw [Function.update_self]
    · rw [Function.update_of_ne hyx] at hy ⊢
      exact h.owned y d hy
  · simp only [State.give, State.finish, State.goto, setInPool] at hd ⊢
    by_cases hdc : d = c
    · subst hdc
      rw [Function.update_self] at hd
      cases hd
    · rw [Function.update_of_ne hdc] at hd
      obtain ⟨hown,hidx⟩ := h.adding d y idx hd
      rw [Function.update_of_ne (hne hown), Function.update_of_ne (hne hown)]
      exact ⟨hown,hidx⟩
  · simp only [State.give, State.finish, State.goto, setInPool] at hy ⊢
    by_cases hyx : y = x
    · subst hyx
      rw [Function.update_self] at hy
      cases hy
    · rw [Function.update_of_ne hyx] at hy
      refine .snoc (h.since y hy) fun d hd => hyx ?_
      cases hd
      rfl
  · refine h.once.snoc fun d y hd => ?_
    cases hd
    exact h.since x hx

theorem Inv.addSection (h : s.Inv) {idx : Nat} (hpc : s.pc c = .add x idx) :
    (s.addSection c x idx).Inv := by
  obtain ⟨lists,hl⟩ := h.linked
  obtain ⟨hown,hidx,hlt⟩ := h.adding c x idx hpc
  refine ⟨h.pos,h.le,⟨_,hl.add (h.owned x c hown) hidx hlt⟩,fun y d hy => ?_,fun d y idx' hd => ?_,
    fun y hy => ?_,h.once.snoc nofun⟩
  · simp only [State.addSection, State.finish, State.goto, setInPool] at hy ⊢
    by_cases hyx : y = x
    · subst hyx
      rw [Function.update_self] at hy
      cases hy
    · rw [Function.update_of_ne hyx] at hy ⊢
      exact h.owned y d hy
  · simp only [State.addSection, State.finish, State.goto, setInPool] at hd ⊢
    by_cases hdc : d = c
    · subst hdc
      rw [Function.update_self] at hd
      cases hd
    · rw [Function.update_of_ne hdc] at hd
      obtain ⟨hown',hidx'⟩ := h.adding d y idx' hd
      have hyx : y ≠ x := by
        rintro rfl
        exact hdc (Option.some.inj (hown'.symm.trans hown))
      rw [Function.update_of_ne hyx, Function.update_of_ne hyx]
      exact ⟨hown',hidx'⟩
  · simp only [State.addSection, State.finish, State.goto, setInPool] at hy ⊢
    by_cases hyx : y = x
    · subst hyx
      exact addedSince_added
    · rw [Function.update_of_ne hyx] at hy
      exact .snoc (h.since y hy) nofun

/-- A round of `objpool_rem` takes an element out, or finds the list empty. -/
theorem Inv.remSection (h : s.Inv) (c : κ) (subpoolIdx : UInt32) (i : Nat) :
    (∃ x, (s.elem x).inPool = true ∧
      s.remSection c subpoolIdx i = some (s.give c x (s.links.rem (.listNode x)))) ∨
    s.links.isEmpty (.listHead (roundIdx s.nbrSubpools subpoolIdx i)) = true ∧
      s.remSection c subpoolIdx i = some (if i+1 < s.nbrSubpools then s.goto c (.rem subpoolIdx (i+1))
        else s.finish c (.null c)) := by
  obtain ⟨lists,hl⟩ := h.linked
  have hidx : roundIdx s.nbrSubpools subpoolIdx i < s.nbrSubpools := Nat.mod_lt _ h.pos
  rcases hl.remFirst hidx with ⟨hnone,hempty⟩ | ⟨x,hx,hsome⟩
  · refine .inr ⟨hempty,?_⟩
    rw [State.remSection, hnone]
    exact (apply_ite some ..).symm
  · refine .inl ⟨x,hx,?_⟩
    rw [State.remSection, hsome]
    rfl

theorem Inv.step {l : Label κ ι} (h : s.Inv) (hst : s.step l = some t) : t.Inv := by
  rw [State.step.eq_def] at hst
  cases l with
  | objpoolAdd c subpoolIdx x =>
    dsimp only at hst
    split at hst
    · obtain ⟨hown,hst⟩ := Option.ite_none_right_eq_some.1 hst
      cases hst
      obtain ⟨lists,hl⟩ := h.linked
      have hx := h.owned x c hown
      let e := { s.elem x with subpoolIdx := subpoolIdx.toNat % s.nbrSubpools }
      let u : State κ ι := { s with elem := Function.update s.elem x e }
      have hself : u.elem x = e := Function.update_self ..
      have hother {y : ι} (hy : y ≠ x) : u.elem y = s.elem y := Function.update_of_ne hy ..
      have hin (y : ι) : (u.elem y).inPool = (s.elem y).inPool := by
        by_cases hyx : y = x
        · subst hyx
          rw [hself]
        · rw [hother hyx]
      refine Inv.goto (s := u) ⟨h.pos,h.le,⟨lists,hl.setIdx hx⟩,fun y d hy => ?_,fun d y idx hd => ?_,
        fun y hy => h.since y ((hin y).symm.trans hy),h.once⟩ fun y idx hd => ?_
      · exact (hin y).trans (h.owned y d hy)
      · obtain ⟨hown',hidx⟩ := h.adding d y idx hd
        have hyx : y ≠ x := by
          rintro rfl
          obtain rfl := Option.some.inj (hown'.symm.trans hown)
          rename_i hpc
          rw [hpc] at hd
          cases hd
        rw [hother hyx]
        exact ⟨hown',hidx⟩
      · cases hd
        rw [hself]
        exact ⟨hown,rfl,Nat.mod_lt _ h.pos⟩
    · cases hst
  | objpoolRem c subpoolIdx =>
    dsimp only at hst
    split at hst
    · cases hst
      exact h.goto nofun
    · cases hst
  | objpoolRemElem c x =>
    dsimp only at hst
    split at hst
    · cases hst
      exact h.goto nofun
    · cases hst
  | critical c =>
    dsimp only at hst
    split at hst
    · cases hst
    · cases hst
      exact h.addSection ‹_›
    · rename_i subpoolIdx i _
      rcases h.remSection c subpoolIdx i with ⟨x,hx,hu⟩ | ⟨-,hu⟩
      · cases hu.symm.trans hst
        exact h.give hx
      · cases hu.symm.trans hst
        split
        · exact h.goto nofun
        · exact h.finish nofun
    · cases hst
      rw [remElemSection]
      split
      · exact h.give ‹_›
      · exact h.finish nofun

theorem ring_foldl_init (links : Links (ListNode ι)) (n : Nat) : ∀ idx < n,
    ((List.range n).foldl (fun links i => links.init (.listHead i)) links).Ring (.listHead idx) [] := by
  induction n with
  | zero => exact nofun
  | succ n ih =>
    intro idx hidx
    rw [List.range_succ, List.foldl_append]
    rcases Nat.lt_succ_iff_lt_or_eq.1 hidx with hidx | rfl
    · refine Links.init_of_not_mem (ih idx hidx) fun hc => ?_
      cases List.mem_singleton.1 hc
      exact Nat.lt_irrefl _ hidx
    · exact Links.ring_init ..

omit [DecidableEq κ] in
theorem Zeroed.inv (h : s.Zeroed) (hs : s.objpoolInit n = some t) : t.Inv := by
  obtain ⟨hn,hs⟩ := Option.ite_none_left_eq_some.1 hs
  cases hs
  have hpos : 0 < if objsubpoolsMax < n then objsubpoolsMax else n := by
    split
    · decide
    · exact Nat.pos_of_ne_zero hn
  have hle : (if objsubpoolsMax < n then objsubpoolsMax else n) ≤ objsubpoolsMax := by
    split
    · exact Nat.le_refl _
    · exact Nat.le_of_not_lt ‹_›
  refine ⟨hpos,hle,⟨fun _ => [],ring_foldl_init s.links _,fun idx x => ?_,fun x hx => ?_⟩,
    fun x _ _ => h.elem x,fun c x idx hc => ?_,fun x hx => ?_,?_⟩
  · exact iff_of_false List.not_mem_nil fun hc => Bool.false_ne_true ((h.elem x).symm.trans hc.1)
  · exact absurd ((h.elem x).symm.trans hx) Bool.false_ne_true
  · cases (h.pc c).symm.trans hc
  · exact absurd ((h.elem x).symm.trans hx) Bool.false_ne_true
  · rw [show s.log = [] from h.log]
    exact .nil

theorem reachable_inv (h : (system κ ι).Reachable s) : s.Inv :=
  h.invariant (fun _ ⟨_,ht,_,hs⟩ => ht.inv hs) fun _ _ _ hs hst _ => hs.step hst

end State
end EmOdp.Objpool
