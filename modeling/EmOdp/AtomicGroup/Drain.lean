import EmOdp.Lib.Progress
import EmOdp.AtomicGroup.DrainLoop

/-! Draining an atomic group: a dequeue finds an event whenever one is counted and none is
on its way in, and `ag_dispatch_loop` comes to an end. -/
namespace EmOdp.AtomicGroup.Queues
open Lib
variable {ι Q E : Type} [Fintype ι] [DecidableEq ι] [DecidableEq Q] [DecidableEq E] {cfg : Config}
  {hiPrio : Q → Bool} {s t : State ι Q E} {l : Label ι Q E} {c : ι}

/-- The core is about to call `ag_internal_deq`. -/
def State.AtLoopHead (s : State ι Q E) (c : ι) : Prop :=
  (s.group.core c).pc = .deqHi ∧ s.hiLoaded c = none

/-- What holds of a dequeue after its first accesses. -/
def Draws (c : ι) (accesses : Nat) (s : State ι Q E) : Prop :=
  match accesses with
  | 0 => s.AtLoopHead c ∧ (s.group.hiStash ≠ [] ∨ s.group.loStash ≠ [])
  | 1 => (s.group.core c).pc = .deqHi ∧
      (s.hiLoaded c = some true ∧ s.group.hiStash ≠ [] ∨ s.hiLoaded c ≠ none ∧ s.group.loStash ≠ [])
  | 2 => ∃ deq, (s.group.core c).pc = .deqLo deq ∧ (deq ≠ [] ∨ s.group.loStash ≠ [])
  | _ => ∃ deq, (s.group.core c).pc = .deqSub deq ∧ deq ≠ []

omit [Fintype ι] [DecidableEq ι] [DecidableEq Q] [DecidableEq E] in
theorem Draws.holds {k : Nat} (h : Draws c k s) : (s.group.core c).holds = 1 := by
  match k, h with
  | 0, h => simp only [Core.holds, h.1.1]
  | 1, h => simp only [Core.holds, h.1]
  | 2, ⟨deq,hpc,_⟩ => simp only [Core.holds, hpc]
  | _ + 3, ⟨deq,hpc,_⟩ => simp only [Core.holds, hpc]

/-- While a core holds the lock, a step of another core takes nothing out of the stashes. -/
theorem step_other (hinv : Inv cfg hiPrio s) (hc : (s.group.core c).holds = 1)
    (hs : s.step cfg hiPrio l = some t) (hl : l.core? ≠ some c) :
    t.group.core c = s.group.core c ∧ t.hiLoaded c = s.hiLoaded c ∧
      (s.group.hiStash ≠ [] → t.group.hiStash ≠ []) ∧
      (s.group.loStash ≠ [] → t.group.loStash ≠ []) := by
  cases l with
  | addQueueList q =>
    obtain ⟨-,ht⟩ := Option.ite_none_left_eq_some.1 hs
    cases ht
    exact ⟨rfl,rfl,id,id⟩
  | removeQueue q =>
    simp only [State.step, State.remQueueList] at hs
    (repeat' split at hs) <;> cases hs <;> exact ⟨rfl,rfl,id,id⟩
  | schedule d q evTbl =>
    have hd : c ≠ d := fun h => hl (h ▸ rfl)
    obtain ⟨-,hs⟩ := Option.ite_none_right_eq_some.1 hs
    obtain ⟨group,hg,rfl⟩ := Option.map_eq_some_iff.1 hs
    simp only [AtomicGroup.State.step] at hg
    obtain ⟨-,hg⟩ := Option.ite_none_right_eq_some.1 hg
    cases hg
    exact ⟨Function.update_of_ne hd _ _,rfl,id,id⟩
  | loadHiPrioQueues d =>
    have hd : c ≠ d := fun h => hl (h ▸ rfl)
    obtain ⟨-,ht⟩ := Option.ite_none_right_eq_some.1 hs
    cases ht
    exact ⟨rfl,Function.update_of_ne hd _ _,id,id⟩
  | next d n =>
    have hd : c ≠ d := fun h => hl (h ▸ rfl)
    obtain ⟨hi,hn⟩ := State.next_spec hs
    have hget : (s.group.core d).getsNext = false := by
      by_contra hget
      exact hd (hinv.group.holder_unique hc (Core.holds_of_getsNext (Bool.eq_true_of_not_eq_false hget)))
    refine ⟨AtomicGroup.State.next_core hn.group hd,hn.others c hd,fun hhi => ?_,
      AtomicGroup.State.next_loStash hn.group hget⟩
    rcases AtomicGroup.State.next_hiStash hn.group with ⟨evTbl,-,-,ht⟩ | ⟨-,⟨hpc,-⟩ | ht⟩
    · rw [ht]
      exact List.append_ne_nil_of_left_ne_nil hhi _
    · rw [Core.getsNext, hpc] at hget
      cases hget
    · rw [ht]
      exact hhi
  | release d =>
    have hd : c ≠ d := fun h => hl (h ▸ rfl)
    obtain ⟨-,hs⟩ := Option.ite_none_left_eq_some.1 hs
    obtain ⟨group,hg,rfl⟩ := Option.map_eq_some_iff.1 hs
    simp only [AtomicGroup.State.step] at hg
    obtain ⟨-,hg⟩ := Option.ite_none_right_eq_some.1 hg
    split at hg <;> cases hg
    · exact ⟨rfl,rfl,id,id⟩
    · exact ⟨Function.update_of_ne hd _ _,rfl,id,id⟩

/-- What the other cores do meanwhile does not matter to a dequeue. -/
theorem Draws.other {k : Nat} (h : Draws c k s) (hinv : Inv cfg hiPrio s)
    (hs : s.step cfg hiPrio l = some t) (hl : l.core? ≠ some c) : Draws c k t := by
  obtain ⟨hcore,hloaded,hhi,hlo⟩ := step_other hinv h.holds hs hl
  match k, h with
  | 0, ⟨⟨hpc,hload⟩,hst⟩ => exact ⟨⟨hcore ▸ hpc,hloaded ▸ hload⟩,hst.imp hhi hlo⟩
  | 1, ⟨hpc,hst⟩ =>
    refine ⟨hcore ▸ hpc,?_⟩
    rw [hloaded]
    exact hst.imp (And.imp_right hhi) (And.imp_right hlo)
  | 2, ⟨deq,hpc,hst⟩ => exact ⟨deq,hcore ▸ hpc,hst.imp_right hlo⟩
  | _ + 3, ⟨deq,hpc,hne⟩ => exact ⟨deq,hcore ▸ hpc,hne⟩

omit [Fintype ι] in
private theorem draws_load (hhi : HiServed s) (h : Draws c 0 s)
    (hs : s.step cfg hiPrio (.loadHiPrioQueues c) = some t) : Draws c 1 t := by
  obtain ⟨-,ht⟩ := Option.ite_none_right_eq_some.1 hs
  cases ht
  refine ⟨h.1.1,?_⟩
  simp only [Function.update_self]
  rcases h.2 with hst | hst
  · exact .inl ⟨by rw [decide_eq_true (hhi hst)],hst⟩
  · exact .inr ⟨nofun,hst⟩

omit [DecidableEq E] in
private theorem take_ne_nil {stash : List E} {max n : Nat} (hmax : max ≠ 0) (hget : GetOk stash max n)
    (hst : stash ≠ []) : stash.take n ≠ [] := by
  intro htake
  rcases List.take_eq_nil_iff.1 htake with h0 | h0
  · rcases hget h0 with h1 | h1
    · exact hmax h1
    · exact hst h1
  · exact hst h0

omit [Fintype ι] [DecidableEq Q] in
private theorem draws_deqHi {n : Nat} (hburst : 0 < cfg.agMaxBurst) (h : Draws c 1 s)
    (hs : s.next cfg c n = some t) : Draws c 2 t := by
  obtain ⟨hpc,hst⟩ := h
  obtain ⟨hi,hn⟩ := State.next_spec hs
  obtain ⟨hl,-,hget⟩ := hn.deqHi hpc
  have hg := hn.group
  simp only [AtomicGroup.State.next, hpc, AtomicGroup.State.deqHi] at hg
  cases hi
  · simp only [Bool.false_eq_true, if_false] at hg
    refine ⟨[],?_,.inr ?_⟩
    · rw [← Option.some.inj hg]
      simp only [AtomicGroup.State.setPc, Function.update_self]
    · rw [← Option.some.inj hg]
      rcases hst with ⟨htrue,-⟩ | ⟨-,hlo⟩
      · rw [hl] at htrue; cases htrue
      · exact hlo
  · simp only [if_true, Option.ite_none_right_eq_some] at hg
    obtain ⟨hle,hg⟩ := hg
    refine ⟨s.group.hiStash.take n,?_,?_⟩
    · rw [← Option.some.inj hg]
      simp only [AtomicGroup.State.setPc, Function.update_self]
    · rw [← Option.some.inj hg]
      exact hst.imp (fun hhi => take_ne_nil (by omega) (hget rfl) hhi.2) And.right

omit [Fintype ι] [DecidableEq Q] in
private theorem draws_deqLo {n : Nat} (hburst : 0 < cfg.agMaxBurst) (h : Draws c 2 s)
    (hs : s.next cfg c n = some t) : Draws c 3 t := by
  obtain ⟨deq,hpc,hst⟩ := h
  obtain ⟨hi,hn⟩ := State.next_spec hs
  have hget := hn.deqLo deq hpc
  have hg := hn.group
  simp only [AtomicGroup.State.next, hpc, AtomicGroup.State.deqLo, Option.ite_none_right_eq_some] at hg
  obtain ⟨hle,hg⟩ := hg
  have hne : deq ++ s.group.loStash.take n ≠ [] := by
    by_cases hdeq : deq = []
    · subst hdeq
      refine List.append_ne_nil_of_right_ne_nil _ (take_ne_nil ?_ hget (hst.resolve_left fun h => h rfl))
      simp only [List.length_nil]
      omega
    · exact List.append_ne_nil_of_left_ne_nil hdeq _
  refine ⟨deq ++ s.group.loStash.take n,?_,hne⟩
  rw [← Option.some.inj hg]
  simp only [hne, if_false, AtomicGroup.State.setPc, Function.update_self]

omit [Fintype ι] in
/-- The accesses of a dequeue follow each other, and it takes an event. -/
theorem Draws.own {k : Nat} (hk : k < 3) (hburst : 0 < cfg.agMaxBurst) (hhi : HiServed s) (h : Draws c k s)
    (hs : s.step cfg hiPrio l = some t) (hl : l.core? = some c) : Draws c (k+1) t := by
  have hpc : (s.group.core c).pc ≠ .idle ∧ (s.group.core c).pc ≠ .lastReceive := by
    match k, h with
    | 0, h => rw [h.1.1]; exact ⟨nofun,nofun⟩
    | 1, h => rw [h.1]; exact ⟨nofun,nofun⟩
    | 2, ⟨deq,h,_⟩ => rw [h]; exact ⟨nofun,nofun⟩
  cases l with
  | addQueueList | removeQueue => cases hl
  | schedule d q evTbl =>
    cases hl
    obtain ⟨-,hs⟩ := Option.ite_none_right_eq_some.1 hs
    obtain ⟨group,hg,-⟩ := Option.map_eq_some_iff.1 hs
    obtain ⟨hg,-⟩ := Option.ite_none_right_eq_some.1 hg
    exact absurd hg.1 hpc.1
  | loadHiPrioQueues d =>
    cases hl
    match k, h with
    | 0, h => exact draws_load hhi h hs
    | 1, ⟨_,h⟩ =>
      obtain ⟨⟨-,hnone⟩,-⟩ := Option.ite_none_right_eq_some.1 hs
      rcases h with ⟨h,-⟩ | ⟨h,-⟩
      · rw [hnone] at h; cases h
      · exact absurd hnone h
    | 2, ⟨deq,h,_⟩ =>
      obtain ⟨⟨hd,-⟩,-⟩ := Option.ite_none_right_eq_some.1 hs
      rw [h] at hd
      cases hd
  | next d n =>
    cases hl
    match k, h with
    | 0, h =>
      obtain ⟨hi,hn⟩ := State.next_spec (show s.next cfg c n = some t from hs)
      have hload := (hn.deqHi h.1.1).1
      rw [h.1.2] at hload
      cases hload
    | 1, h => exact draws_deqHi hburst h hs
    | 2, h => exact draws_deqLo hburst h hs
  | release d =>
    cases hl
    obtain ⟨-,hs⟩ := Option.ite_none_left_eq_some.1 hs
    obtain ⟨group,hg,-⟩ := Option.map_eq_some_iff.1 hs
    obtain ⟨hg,-⟩ := Option.ite_none_right_eq_some.1 hg
    exact absurd hg hpc.2

/-- The system whose steps all keep the hi_prio stash served. -/
abbrev kept (ι Q E : Type) [DecidableEq ι] [DecidableEq Q] [DecidableEq E] (cfg : Config)
    (hiPrio : Q → Bool) : System (State ι Q E) (Label ι Q E) :=
  (machine ι Q E cfg hiPrio).restrict (Keeps hiPrio)

/-- A dequeue that starts with an event counted and no enqueue in progress takes one,
whatever the other cores do meanwhile. -/
theorem deq_takes (hfit : cfg.Fits (Fintype.card ι)) (hburst : 0 < cfg.agMaxBurst)
    (hinv : Inv cfg hiPrio s) (hhi : HiServed s) (hhead : s.AtLoopHead c)
    (hev : s.group.lock.evcnt ≠ 0) (henq : ∀ d, (s.group.core d).enqueuing = 0)
    {ls : List (Label ι Q E)} (hpath : (kept ι Q E cfg hiPrio).Path s ls t)
    (hown : ls.countP (·.core? = some c) = 3) :
    ∃ deq, (t.group.core c).pc = .deqSub deq ∧ deq ≠ [] := by
  have hstart : Draws c 0 s := by
    have hcnt := hinv.group.evcnt_stashed (c := c) (by rw [Core.holds, hhead.1]) henq
      (by rw [Core.dequeued, hhead.1])
    refine ⟨hhead,?_⟩
    by_contra hnone
    simp only [not_or, not_not] at hnone
    rw [hnone.1, hnone.2] at hcnt
    exact hev (BitVec.eq_of_toNat_eq hcnt)
  have hrun := hpath.stage (fun k s => (Inv cfg hiPrio s ∧ HiServed s) ∧ Draws c k s)
    (fun l => decide (l.core? = some c)) 3
    (fun hk h hst hl => by
      obtain ⟨hs,hkeep⟩ := hst
      exact ⟨⟨h.1.1.step hfit hs,(h.1.2.step_iff h.1.1 hs).2 hkeep⟩,
        h.2.own hk hburst h.1.2 hs (of_decide_eq_true hl)⟩)
    (fun _ h hst hl => by
      obtain ⟨hs,hkeep⟩ := hst
      exact ⟨⟨h.1.1.step hfit hs,(h.1.2.step_iff h.1.1 hs).2 hkeep⟩,
        h.2.other h.1.1 hs (of_decide_eq_false hl)⟩)
    (k := 0) ⟨⟨hinv,hhi⟩,hstart⟩ (by omega)
  rw [hown] at hrun
  exact hrun.2

/-- The core's own steps in `ag_dispatch_loop`. -/
def Label.drains (c : ι) : Label ι Q E → Bool
  | .addQueueList _ | .removeQueue _ | .schedule .. => false
  | .loadHiPrioQueues d | .next d _ | .release d => d = c

theorem solo_step (hburst : 0 < cfg.agMaxBurst) (hinv : Inv cfg hiPrio s) (hhi : HiServed s)
    (h : Solo (s.hiLoaded c) s.group c) (hs : s.step cfg hiPrio l = some t) (hl : l.drains c = true) :
    Solo (t.hiLoaded c) t.group c ∧
      t.group.toDrain (t.hiLoaded c) c < s.group.toDrain (s.hiLoaded c) c := by
  cases l with
  | addQueueList | removeQueue | schedule => cases hl
  | loadHiPrioQueues d =>
    obtain rfl : d = c := of_decide_eq_true hl
    obtain ⟨⟨hpc,hnone⟩,ht⟩ := Option.ite_none_right_eq_some.1 hs
    cases ht
    simp only [Function.update_self]
    refine ⟨⟨h.enqueuing,fun _ => hpc,?_⟩,?_⟩
    · simp only [Core.Draining, hpc]
      intro hfalse
      by_contra hst
      have := of_decide_eq_false (Option.some.inj hfalse)
      exact this (hhi hst)
    · simp [State.toDrain, Core.rank, hpc, hnone]
  | next d n =>
    obtain rfl : d = c := of_decide_eq_true hl
    obtain ⟨hi,hn⟩ := State.next_spec hs
    have hnone : t.hiLoaded d = none := by
      by_cases hpc : (s.group.core d).pc = .deqHi
      · exact (hn.deqHi hpc).2.1
      · rw [hn.loaded hpc]
        exact Option.not_isSome_iff_eq_none.1 fun hsome => hpc (h.deqHi hsome)
    rw [hnone]
    exact h.next (hinv.group.hiPrioQueues hi) hburst
      (fun hpc => ⟨(hn.deqHi hpc).1,(hn.deqHi hpc).2.2⟩) hn.deqLo hn.group
  | release d =>
    obtain rfl : d = c := of_decide_eq_true hl
    obtain ⟨hr,hs⟩ := Option.ite_none_left_eq_some.1 hs
    obtain ⟨group,hg,rfl⟩ := Option.map_eq_some_iff.1 hs
    have hpc := (Option.ite_none_right_eq_some.1 hg).1
    have hnone : s.hiLoaded d = none :=
      Option.not_isSome_iff_eq_none.1 fun hsome => by
        rw [h.deqHi hsome] at hpc
        cases hpc
    simp only [hnone]
    rw [hnone] at h
    exact h.release hg (Bool.eq_false_of_not_eq_true hr)

/-- Until it has left the loop the core can go on. -/
theorem solo_enabled (hinv : Inv cfg hiPrio s) (h : Solo (s.hiLoaded c) s.group c)
    (hne : (s.group.core c).pc ≠ .idle) :
    ∃ l t, (kept ι Q E cfg hiPrio).step s l t ∧ l.drains c = true := by
  by_cases hload : s.AtLoopHead c
  · exact ⟨.loadHiPrioQueues c,_,⟨if_pos hload,trivial⟩,decide_eq_true rfl⟩
  · have hkeep : ∀ n t, Keeps hiPrio s (.next c n) t := fun n t evTbl hpc => by
      have hd := h.draining
      simp only [Core.Draining, hpc] at hd
    by_cases hpc : (s.group.core c).pc = .deqHi
    · obtain ⟨hi,hl⟩ := Option.ne_none_iff_exists'.1 fun hnone => hload ⟨hpc,hnone⟩
      obtain ⟨n,g,hg,hget,-⟩ := h.enabled (hinv.group.hiPrioQueues hi) hne
      refine ⟨.next c n,{ s with group := g, hiLoaded := Function.update s.hiLoaded c none },
        ⟨?_,hkeep _ _⟩,decide_eq_true rfl⟩
      show s.next cfg c n = _
      simp only [State.next, hpc, hl]
      rw [if_pos fun _ => hget hpc, hg]
      rfl
    · obtain ⟨n,g,hg,-,hget⟩ := h.enabled hinv.group hne
      refine ⟨.next c n,{ s with group := g },⟨?_,hkeep _ _⟩,decide_eq_true rfl⟩
      show s.next cfg c n = _
      rw [State.next]
      split
      · exact absurd ‹_› hpc
      · rename_i deq hlo
        rw [if_pos (hget deq hlo), hg]
        rfl
      · rw [hg]
        rfl

/-- A core that no other core gives new events leaves the loop. -/
theorem loop_ends (hfit : cfg.Fits (Fintype.card ι)) (hburst : 0 < cfg.agMaxBurst)
    (hinv : Inv cfg hiPrio s) (hhi : HiServed s) (hhead : s.AtLoopHead c)
    (henq : ∀ d, (s.group.core d).enqueuing = 0) {ls : List (Label ι Q E)}
    (hpath : (kept ι Q E cfg hiPrio).Path s ls t) (hls : ∀ l ∈ ls, l.drains c = true) :
    ls.length ≤ s.group.toDrain none c ∧ ((t.group.core c).pc ≠ .idle →
      ∃ l u, (kept ι Q E cfg hiPrio).step t l u ∧ l.drains c = true) := by
  have hstart : Solo (s.hiLoaded c) s.group c :=
    ⟨henq,fun _ => hhead.1,by rw [Core.Draining, hhead.1, hhead.2]; exact nofun⟩
  obtain ⟨⟨ht,htinv,-⟩,hle⟩ := hpath.length_le
    (I := fun s => Solo (s.hiLoaded c) s.group c ∧ Inv cfg hiPrio s ∧ HiServed s)
    (fun h hst hl => by
      obtain ⟨hs,hkeep⟩ := hst
      obtain ⟨hsolo,hlt⟩ := solo_step hburst h.2.1 h.2.2 h.1 hs hl
      exact ⟨⟨hsolo,h.2.1.step hfit hs,(h.2.2.step_iff h.2.1 hs).2 hkeep⟩,hlt⟩)
    ⟨hstart,hinv,hhi⟩ hls
  rw [hhead.2] at hle
  exact ⟨by omega,solo_enabled htinv ht⟩

/-- In every run that removes the last queue of high priority only while the hi_prio stash
is empty, and stashes events of high priority only while there is such a queue, the stash
is served, and no other step keeps it so. Then a dequeue that starts with an event counted
and no enqueue in progress takes one, and `ag_dispatch_loop` ends when no other core
enqueues. -/
theorem draining_progresses (hfit : cfg.Fits (Fintype.card ι)) (hburst : 0 < cfg.agMaxBurst)
    (h : (machine ι Q E cfg hiPrio).ReachableVia (Keeps hiPrio) s) :
    HiServed s ∧ (∀ l t, s.step cfg hiPrio l = some t → (HiServed t ↔ Keeps hiPrio s l t)) ∧
    ∀ c, s.AtLoopHead c → (∀ d, (s.group.core d).enqueuing = 0) →
      (s.group.lock.evcnt ≠ 0 → ∀ ls t, (kept ι Q E cfg hiPrio).Path s ls t →
        ls.countP (·.core? = some c) = 3 →
        ∃ deq, (t.group.core c).pc = .deqSub deq ∧ deq ≠ []) ∧
      ∀ ls t, (kept ι Q E cfg hiPrio).Path s ls t → (∀ l ∈ ls, l.drains c = true) →
        ls.length ≤ s.group.toDrain none c ∧ ((t.group.core c).pc ≠ .idle →
          ∃ l u, (kept ι Q E cfg hiPrio).step t l u ∧ l.drains c = true) := by
  obtain ⟨hinv,hhi⟩ := reachable_inv hfit h
  exact ⟨hhi,fun _ _ => hhi.step_iff hinv,fun c hhead henq =>
    ⟨fun hev _ _ => deq_takes hfit hburst hinv hhi hhead hev henq,
      fun _ _ => loop_ends hfit hburst hinv hhi hhead henq⟩⟩

/-- `Keeps` on the steps of a given run. -/
private def keepsBool (s : State (Fin 2) Unit Nat) (l : Label (Fin 2) Unit Nat)
    (_ : State (Fin 2) Unit Nat) : Bool :=
  match l with
  | .removeQueue _ => s.group.hiStash.isEmpty
  | .next _ _ => 0 < s.numHiPrioQueues
  | _ => true

private theorem keepsBool_keeps (s : State (Fin 2) Unit Nat) (l : Label (Fin 2) Unit Nat)
    (t : State (Fin 2) Unit Nat) (h : keepsBool s l t = true) : Keeps (fun _ => true) s l t := by
  cases l with
  | removeQueue => exact fun _ _ => List.isEmpty_iff.1 h
  | next => exact fun _ _ _ => of_decide_eq_true h
  | _ => trivial

private def cfg32 : Config := ⟨32,32,1024,false⟩

private def noQueues : State (Fin 2) Unit Nat :=
  ⟨⟨.free,[],[],fun _ => {},[],[]⟩,[],0,0,fun _ => none⟩

private theorem noQueues_initial : Initial noQueues :=
  ⟨⟨rfl,rfl,rfl,fun _ => rfl,rfl,rfl⟩,rfl,rfl,rfl,fun _ => rfl⟩

/-- Core 1 stashes an event of high priority while core 0 dispatches another. -/
private def stashedHi : List (Label (Fin 2) Unit Nat) :=
  [.addQueueList (), .schedule 0 () [7], .next 0 0, .schedule 1 () [8], .next 1 0, .next 1 0,
    .next 1 1, .next 1 0, .next 1 0, .next 0 1, .next 0 0]

private def loopHead : Option (State (Fin 2) Unit Nat) :=
  System.exec (State.step · cfg32 fun _ => true) keepsBool noQueues (stashedHi ++ [.next 0 0])

private theorem loopHead_isSome : loopHead.isSome = true := by decide

private theorem loopHead_reachable : (machine (Fin 2) Unit Nat cfg32 fun _ => true).ReachableVia
    (Keeps fun _ => true) (loopHead.get loopHead_isSome) :=
  System.ReachableVia.exec keepsBool_keeps (.start noQueues_initial)
    (Option.some_get loopHead_isSome).symm

private def dequeued : Option (State (Fin 2) Unit Nat) :=
  System.exec (State.step · cfg32 fun _ => true) keepsBool (loopHead.get loopHead_isSome)
    [.loadHiPrioQueues 0, .next 0 1, .next 0 0]

private theorem dequeued_isSome : dequeued.isSome = true := by decide

theorem draining_progresses_dequeued :
    ∃ deq, ((dequeued.get dequeued_isSome).group.core 0).pc = .deqSub deq ∧ deq ≠ [] :=
  ((draining_progresses (by unfold Config.Fits; decide) (by decide) loopHead_reachable).2.2 0
    ⟨by decide,by decide⟩ (by decide)).1 (by decide) _ _
    (System.Path.restrict_exec keepsBool_keeps (Option.some_get dequeued_isSome).symm) (by decide)

omit [Fintype ι] in
/-- Without a queue of high priority, a loop with only events of high priority left comes
back to the state it started in. -/
theorem loop_spins (hhead : s.AtLoopHead c) (hhi : s.numHiPrioQueues = 0)
    (hlo : s.group.loStash = []) (hr : (s.group.core c).released = false)
    (hev : s.group.lock.lockAndEvcnt ≠ DispatchLock.held.lockAndEvcnt) :
    (machine ι Q E cfg hiPrio).Path s [.loadHiPrioQueues c, .next c 0, .next c 0, .next c 0] s := by
  have hcore : s.group.core c = ⟨.deqHi,false⟩ := by
    rcases hc : s.group.core c with ⟨pc,r⟩
    have hpc := hhead.1
    rw [hc] at hpc hr
    cases hpc
    cases hr
    rfl
  have hback : { s.group with core := Function.update s.group.core c ⟨.deqHi,false⟩ } = s.group := by
    rw [← hcore, Function.update_eq_self]
  refine .cons (t := { s with hiLoaded := Function.update s.hiLoaded c (some false) }) ?_ <|
    .cons (t := { s with group := s.group.setPc c (.deqLo []) }) ?_ <|
    .cons (t := { s with group := s.group.setPc c .unlock }) ?_ <| .cons ?_ (.nil _)
  · show State.step s cfg hiPrio _ = _
    simp only [State.step, if_pos (show _ ∧ _ from hhead), hhi, lt_irrefl, decide_false]
  · show State.next _ cfg c 0 = _
    simp [State.next, hcore, AtomicGroup.State.next, AtomicGroup.State.deqHi, hhead.2]
  · show State.next _ cfg c 0 = _
    simp [State.next, hcore, AtomicGroup.State.setPc, AtomicGroup.State.next,
      AtomicGroup.State.deqLo, hlo, GetOk]
  · show State.next _ cfg c 0 = _
    simp [State.next, hcore, AtomicGroup.State.setPc, AtomicGroup.State.next, AtomicGroup.State.cas, hev, hback]

/-- The queue is removed while its event is stashed. -/
private def spinning : Option (State (Fin 2) Unit Nat) :=
  System.exec (State.step · cfg32 fun _ => true) (fun _ _ _ => true) noQueues
    (stashedHi ++ [.removeQueue (), .next 0 0])

private theorem spinning_isSome : spinning.isSome = true := by decide

private theorem spinning_reachable :
    (machine (Fin 2) Unit Nat cfg32 fun _ => true).Reachable (spinning.get spinning_isSome) :=
  System.ReachableVia.exec (fun _ _ _ _ => trivial) (.start noQueues_initial)
    (Option.some_get spinning_isSome).symm

theorem removed_queue_spins : ∃ s : State (Fin 2) Unit Nat,
    (machine (Fin 2) Unit Nat cfg32 fun _ => true).Reachable s ∧ ¬HiServed s ∧ s.AtLoopHead 0 ∧
    s.group.lock.evcnt ≠ 0 ∧ (∀ d, (s.group.core d).enqueuing = 0) ∧
    (machine (Fin 2) Unit Nat cfg32 fun _ => true).Path s
      [.loadHiPrioQueues 0, .next 0 0, .next 0 0, .next 0 0] s := by
  have hhead : (spinning.get spinning_isSome).AtLoopHead 0 := ⟨by decide,by decide⟩
  have hzero : (spinning.get spinning_isSome).numHiPrioQueues = 0 := by decide
  refine ⟨_,spinning_reachable,fun hserved => ?_,hhead,by decide,by decide,
    loop_spins hhead hzero (by decide) (by decide) (by decide)⟩
  have hpos := hserved (by decide)
  rw [hzero] at hpos
  exact absurd hpos (lt_irrefl 0)

end EmOdp.AtomicGroup.Queues
