import EmOdp.AtomicGroup.Queues

/-! What a run with changing queues keeps: the invariant of the dispatch, the counts of
the queues and, under the condition on its steps, a served hi_prio stash. -/
namespace EmOdp.AtomicGroup
open Lib
variable {ι E : Type} [DecidableEq ι]

section Frame
variable [DecidableEq E] {cfg : Config} {s t : State ι E} {c : ι} {n : Nat}

theorem State.next_core (hs : s.next cfg c n = some t) {d : ι} (hd : d ≠ c) :
    t.core d = s.core d := by
  rcases hc : s.core c with ⟨pc,r⟩
  cases pc <;> simp only [State.next, State.enqPut, State.deqHi, State.deqLo, State.receive,
    State.cas, hc] at hs <;> (repeat' split at hs) <;> cases hs <;>
    simp only [State.setPc, Function.update_of_ne hd]

theorem State.next_hiStash (hs : s.next cfg c n = some t) :
    (∃ evTbl, (s.core c).pc = .enqPut true evTbl ∧ n ≤ evTbl.length ∧
      t.hiStash = s.hiStash ++ evTbl.take n) ∨
    (∀ evTbl, (s.core c).pc ≠ .enqPut true evTbl) ∧
      ((s.core c).pc = .deqHi ∧ t.hiStash = s.hiStash.drop n ∨ t.hiStash = s.hiStash) := by
  rcases hc : s.core c with ⟨pc,r⟩
  cases pc with
  | enqPut hiPrio evTbl =>
    simp only [State.next, hc, State.enqPut, Option.ite_none_right_eq_some] at hs
    obtain ⟨hn,ht⟩ := hs
    cases hiPrio <;> cases ht
    · exact .inr ⟨(fun _ h => by cases h),.inr rfl⟩
    · exact .inl ⟨evTbl,rfl,hn.1,rfl⟩
  | deqHi =>
    simp only [State.next, hc, State.deqHi] at hs
    (repeat' split at hs) <;> cases hs
    · exact .inr ⟨(fun _ h => by cases h),.inl ⟨rfl,rfl⟩⟩
    · exact .inr ⟨(fun _ h => by cases h),.inr rfl⟩
  | _ =>
    refine .inr ⟨(fun _ h => by cases h),.inr ?_⟩
    simp only [State.next, State.deqLo, State.receive, State.cas, hc] at hs
    (repeat' split at hs) <;> cases hs <;> rfl

/-- Only a get takes entries out of the lo_prio stash. -/
theorem State.next_loStash (hs : s.next cfg c n = some t) (hget : (s.core c).getsNext = false)
    (hlo : s.loStash ≠ []) : t.loStash ≠ [] := by
  rcases hc : s.core c with ⟨pc,r⟩
  rw [hc] at hget
  cases pc with
  | deqHi | deqLo => cases hget
  | enqPut hiPrio evTbl =>
    simp only [State.next, hc, State.enqPut, Option.ite_none_right_eq_some] at hs
    obtain ⟨-,ht⟩ := hs
    cases hiPrio <;> cases ht
    · exact List.append_ne_nil_of_left_ne_nil hlo _
    · exact hlo
  | _ =>
    simp only [State.next, State.receive, State.cas, hc] at hs
    (repeat' split at hs) <;> cases hs <;> exact hlo

end Frame

omit [DecidableEq ι] in
theorem Inv.hiPrioQueues [Fintype ι] [DecidableEq E] {cfg : Config} {s : State ι E} (h : Inv cfg s)
    (hi : Bool) : Inv { cfg with hiPrioQueues := hi } s :=
  ⟨fun c => ⟨(h.cores c).released,(h.cores c).scheduled,(h.cores c).enqueuing,(h.cores c).dequeued,
    (h.cores c).relock⟩,h.hiStash,h.loStash,h.wrap,h.bit,h.holder,h.evcnt,h.wake,h.events⟩

namespace Queues
variable {Q : Type} [DecidableEq Q] [DecidableEq E] {cfg : Config} {hiPrio : Q → Bool}
  {s t : State ι Q E} {l : Label ι Q E}

/-- What an access of a core in `atomic_group_dispatch` does. -/
structure Next (cfg : Config) (c : ι) (n : Nat) (s t : State ι Q E) (hi : Bool) : Prop where
  group : s.group.next { cfg with hiPrioQueues := hi } c n = some t.group
  qlist : t.qlist = s.qlist
  numQueues : t.numQueues = s.numQueues
  numHiPrioQueues : t.numHiPrioQueues = s.numHiPrioQueues
  others : ∀ d, d ≠ c → t.hiLoaded d = s.hiLoaded d
  loaded : (s.group.core c).pc ≠ .deqHi → t.hiLoaded c = s.hiLoaded c
  deqHi : (s.group.core c).pc = .deqHi →
    s.hiLoaded c = some hi ∧ t.hiLoaded c = none ∧
      (hi = true → GetOk s.group.hiStash cfg.agMaxBurst n)
  deqLo : ∀ deq, (s.group.core c).pc = .deqLo deq →
    GetOk s.group.loStash (cfg.agMaxBurst - deq.length) n

omit [DecidableEq Q] in
theorem State.next_spec {c : ι} {n : Nat} (hs : s.next cfg c n = some t) :
    ∃ hi, Next cfg c n s t hi := by
  simp only [State.next] at hs
  split at hs
  · rename_i hpc
    split at hs
    · cases hs
    · rename_i hi hl
      obtain ⟨hget,hs⟩ := Option.ite_none_right_eq_some.1 hs
      obtain ⟨group,hg,rfl⟩ := Option.map_eq_some_iff.1 hs
      exact ⟨hi,hg,rfl,rfl,rfl,fun d hd => Function.update_of_ne hd _ _,fun hne => absurd hpc hne,
        fun _ => ⟨hl,Function.update_self ..,hget⟩,fun deq hd => by rw [hpc] at hd; cases hd⟩
  · rename_i deq hpc
    obtain ⟨hget,hs⟩ := Option.ite_none_right_eq_some.1 hs
    obtain ⟨group,hg,rfl⟩ := Option.map_eq_some_iff.1 hs
    refine ⟨cfg.hiPrioQueues,hg,rfl,rfl,rfl,fun _ _ => rfl,fun _ => rfl,fun hd => ?_,fun deq' hd => ?_⟩
    · rw [hpc] at hd; cases hd
    · rw [hpc] at hd; cases hd; exact hget
  · rename_i hnh hnl
    obtain ⟨group,hg,rfl⟩ := Option.map_eq_some_iff.1 hs
    exact ⟨cfg.hiPrioQueues,hg,rfl,rfl,rfl,fun _ _ => rfl,fun _ => rfl,fun hd => absurd hd hnh,
      fun deq hd => absurd hd (hnl deq)⟩

/-- A step of the queues or the load leaves the group, any other is a step of the dispatch. -/
theorem State.step_group (hs : s.step cfg hiPrio l = some t) : t.group = s.group ∨
    ∃ hi l', s.group.step { cfg with hiPrioQueues := hi } l' = some t.group := by
  cases l with
  | addQueueList q =>
    simp only [State.step] at hs
    split at hs <;> cases hs
    exact .inl rfl
  | removeQueue q =>
    simp only [State.step, State.remQueueList] at hs
    (repeat' split at hs) <;> cases hs <;> exact .inl rfl
  | schedule c q evTbl =>
    obtain ⟨-,hs⟩ := Option.ite_none_right_eq_some.1 hs
    obtain ⟨group,hg,rfl⟩ := Option.map_eq_some_iff.1 hs
    exact .inr ⟨true,_,hg⟩
  | loadHiPrioQueues c =>
    obtain ⟨-,ht⟩ := Option.ite_none_right_eq_some.1 hs
    cases ht
    exact .inl rfl
  | next c n =>
    obtain ⟨hi,hn⟩ := State.next_spec hs
    exact .inr ⟨hi,.next c n,hn.group⟩
  | release c =>
    obtain ⟨-,hs⟩ := Option.ite_none_left_eq_some.1 hs
    obtain ⟨group,hg,rfl⟩ := Option.map_eq_some_iff.1 hs
    exact .inr ⟨cfg.hiPrioQueues,_,hg⟩

/-- The counts follow `qlist_head`, and the dispatch keeps its invariant. -/
structure Inv [Fintype ι] (cfg : Config) (hiPrio : Q → Bool) (s : State ι Q E) : Prop where
  group : AtomicGroup.Inv cfg s.group
  numQueues : s.numQueues = s.qlist.length
  numHiPrioQueues : s.numHiPrioQueues = s.qlist.countP hiPrio

section Runs
variable [Fintype ι]

omit [DecidableEq ι] [DecidableEq Q] in
theorem inv_initial (h : Initial s) : Inv cfg hiPrio s :=
  ⟨AtomicGroup.inv_initial h.group,by rw [h.numQueues, h.qlist]; rfl,
    by rw [h.numHiPrioQueues, h.qlist]; rfl⟩

theorem Inv.step (hfit : cfg.Fits (Fintype.card ι)) (h : Inv cfg hiPrio s)
    (hs : s.step cfg hiPrio l = some t) : Inv cfg hiPrio t := by
  have hgroup : AtomicGroup.Inv cfg t.group := by
    rcases State.step_group hs with hg | ⟨hi,l',hg⟩
    · rw [hg]; exact h.group
    · have hfit' : Config.Fits { cfg with hiPrioQueues := hi } (Fintype.card ι) := hfit
      exact (inv_step hfit' (h.group.hiPrioQueues hi) hg).hiPrioQueues cfg.hiPrioQueues
  cases l with
  | addQueueList q =>
    obtain ⟨-,ht⟩ := Option.ite_none_left_eq_some.1 hs
    cases ht
    refine ⟨hgroup,by simp [State.addQueueList, h.numQueues],?_⟩
    simp only [State.addQueueList, List.countP_append, List.countP_singleton, h.numHiPrioQueues]
    split <;> rfl
  | removeQueue q =>
    obtain ⟨hq,ht⟩ := Option.ite_none_right_eq_some.1 hs
    have hne : s.qlist.isEmpty = false := List.isEmpty_eq_false_iff.2 (List.ne_nil_of_mem hq)
    simp only [State.remQueueList, hne, Bool.false_eq_true, if_false] at ht
    cases ht
    refine ⟨hgroup,?_,?_⟩
    · simp only [List.length_erase_of_mem hq, h.numQueues]
    · simp only [List.countP_erase, hq, true_and, h.numHiPrioQueues]
      split <;> rfl
  | schedule c q evTbl =>
    obtain ⟨-,hs⟩ := Option.ite_none_right_eq_some.1 hs
    obtain ⟨group,-,rfl⟩ := Option.map_eq_some_iff.1 hs
    exact ⟨hgroup,h.numQueues,h.numHiPrioQueues⟩
  | loadHiPrioQueues c =>
    obtain ⟨-,ht⟩ := Option.ite_none_right_eq_some.1 hs
    cases ht
    exact ⟨hgroup,h.numQueues,h.numHiPrioQueues⟩
  | next c n =>
    obtain ⟨hi,hn⟩ := State.next_spec hs
    exact ⟨hgroup,by rw [hn.numQueues, hn.qlist, h.numQueues],
      by rw [hn.numHiPrioQueues, hn.qlist, h.numHiPrioQueues]⟩
  | release c =>
    obtain ⟨-,hs⟩ := Option.ite_none_left_eq_some.1 hs
    obtain ⟨group,-,rfl⟩ := Option.map_eq_some_iff.1 hs
    exact ⟨hgroup,h.numQueues,h.numHiPrioQueues⟩

/-- A step keeps the hi_prio stash served exactly when it meets the condition. -/
theorem HiServed.step_iff (h : HiServed s) (hinv : Inv cfg hiPrio s) (hs : s.step cfg hiPrio l = some t) :
    HiServed t ↔ Keeps hiPrio s l t := by
  cases l with
  | addQueueList q =>
    obtain ⟨-,ht⟩ := Option.ite_none_left_eq_some.1 hs
    cases ht
    refine iff_of_true (fun hhi => ?_) trivial
    have hpos := h hhi
    simp only [State.addQueueList]
    split <;> omega
  | removeQueue q =>
    obtain ⟨hq,ht⟩ := Option.ite_none_right_eq_some.1 hs
    have hne : s.qlist.isEmpty = false := List.isEmpty_eq_false_iff.2 (List.ne_nil_of_mem hq)
    simp only [State.remQueueList, hne, Bool.false_eq_true, if_false] at ht
    cases ht
    simp only [HiServed, Keeps]
    cases hp : hiPrio q
    · exact iff_of_true h nofun
    · have hpos : 0 < s.numHiPrioQueues := by
        rw [hinv.numHiPrioQueues]
        exact List.countP_pos_iff.2 ⟨q,hq,hp⟩
      simp only [if_true, forall_const]
      refine ⟨fun hserved h1 => ?_,fun hkeep hhi => ?_⟩
      · by_contra hhi
        have := hserved hhi
        omega
      · by_contra h0
        exact hhi (hkeep (by omega))
  | schedule c q evTbl =>
    obtain ⟨-,hs⟩ := Option.ite_none_right_eq_some.1 hs
    obtain ⟨group,hg,rfl⟩ := Option.map_eq_some_iff.1 hs
    simp only [AtomicGroup.State.step] at hg
    obtain ⟨-,hg⟩ := Option.ite_none_right_eq_some.1 hg
    cases hg
    exact iff_of_true h trivial
  | loadHiPrioQueues c =>
    obtain ⟨-,ht⟩ := Option.ite_none_right_eq_some.1 hs
    cases ht
    exact iff_of_true h trivial
  | next c n =>
    obtain ⟨hi,hn⟩ := State.next_spec hs
    simp only [HiServed, Keeps, hn.numHiPrioQueues]
    rcases AtomicGroup.State.next_hiStash hn.group with ⟨evTbl,hpc,hle,ht⟩ | ⟨hpc,ht⟩
    · have hput : (∀ evTbl, (s.group.core c).pc = .enqPut true evTbl → 0 < n → 0 < s.numHiPrioQueues) ↔
          (0 < n → 0 < s.numHiPrioQueues) :=
        ⟨fun hk => hk _ hpc,fun hk _ _ => hk⟩
      rw [hput, ht]
      refine ⟨fun hserved hn0 => hserved ?_,fun hk hhi => ?_⟩
      · refine List.append_ne_nil_of_right_ne_nil _ fun htake => ?_
        have hlen := congrArg List.length htake
        simp only [List.length_take, List.length_nil] at hlen
        omega
      · by_cases hs0 : s.group.hiStash = []
        · refine hk (Nat.pos_of_ne_zero fun h0 => hhi ?_)
          simp only [hs0, h0, List.take_zero, List.append_nil]
        · exact h hs0
    · refine iff_of_true (fun hhi => h fun h0 => hhi ?_) fun evTbl hput => absurd hput (hpc evTbl)
      rcases ht with ⟨-,ht⟩ | ht <;> simp only [ht, h0, List.drop_nil]
  | release c =>
    obtain ⟨-,hs⟩ := Option.ite_none_left_eq_some.1 hs
    obtain ⟨group,hg,rfl⟩ := Option.map_eq_some_iff.1 hs
    simp only [AtomicGroup.State.step] at hg
    obtain ⟨-,hg⟩ := Option.ite_none_right_eq_some.1 hg
    split at hg <;> cases hg <;> exact iff_of_true h trivial

/-- The states of the runs that meet the condition. -/
theorem reachable_inv (hfit : cfg.Fits (Fintype.card ι))
    (h : (machine ι Q E cfg hiPrio).ReachableVia (Keeps hiPrio) s) : Inv cfg hiPrio s ∧ HiServed s :=
  h.invariant (I := fun s => Inv cfg hiPrio s ∧ HiServed s)
    (fun _ (h0 : Initial _) => ⟨inv_initial h0,fun hhi => absurd h0.group.hiStash hhi⟩)
    fun _ _ _ hi (hs : State.step _ cfg hiPrio _ = some _) hk =>
      ⟨hi.1.step hfit hs,(hi.2.step_iff hi.1 hs).2 hk⟩

end Runs
end Queues
end EmOdp.AtomicGroup
