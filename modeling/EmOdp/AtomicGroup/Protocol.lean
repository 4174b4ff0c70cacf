import EmOdp.AtomicGroup.Steps

/-! The dispatch lock of an atomic group: one holder at a time, no stranded event. -/
namespace EmOdp.AtomicGroup
open Lib
variable {ι E : Type} [Fintype ι] [DecidableEq ι] [DecidableEq E] {cfg : Config}
  {s t : State ι E}

omit [DecidableEq ι] in
theorem inv_initial (h : Initial s) : Inv cfg s := by
  have hcore : s.core = fun _ => {} := funext h.cores
  refine ⟨fun c => ?_,by simp [h.hiStash],by simp [h.loStash],by rw [h.lock]; rfl,.inl (by rw [h.lock]; rfl),
    ?_,?_,fun _ he => absurd (by rw [h.lock]; rfl) he,fun e => ?_⟩
  · rw [h.cores c]
    exact ⟨nofun,Nat.zero_le _,Nat.zero_le _,Nat.zero_le _,nofun⟩
  · simp [h.lock, hcore, DispatchLock.free, Core.holds]
  · simp [h.lock, hcore, h.hiStash, h.loStash, DispatchLock.free, Core.counted, Core.enqueuing,
      Core.dequeued]
  · simp [h.accepted, h.dispatched, h.hiStash, h.loStash, hcore, Core.inHand]

theorem reachable_inv (hfit : cfg.Fits (Fintype.card ι)) (h : (machine ι E cfg).Reachable s) :
    Inv cfg s :=
  h.invariant (I := Inv cfg) (fun _ => inv_initial) fun _ _ _ hi (hs : State.step _ cfg _ = some _) _ =>
    inv_step hfit hi hs

omit [DecidableEq ι] in
theorem Inv.holder_unique (h : Inv cfg s) {c d : ι} (hc : (s.core c).holds = 1)
    (hd : (s.core d).holds = 1) : c = d := by
  classical
  by_contra hne
  have hle : ∑ i ∈ {c,d}, (s.core i).holds ≤ ∑ i, (s.core i).holds :=
    Finset.sum_le_sum_of_subset (Finset.subset_univ _)
  rw [Finset.sum_pair hne, hc, hd] at hle
  have hh := h.holder
  have hbit : s.lock.lock.toNat ≤ 1 := by rcases h.bit with hb | hb <;> simp [hb]
  omega

omit [DecidableEq ι] in
/-- When every core has left, the lock is free and each accepted event was dispatched. -/
theorem Inv.drained (h : Inv cfg s) (hidle : ∀ c, (s.core c).pc = .idle) :
    s.lock.lock = 0 ∧ s.lock.evcnt = 0 ∧ s.hiStash = [] ∧ s.loStash = [] ∧
      s.accepted.Perm s.dispatched := by
  have hholds : ∀ c, (s.core c).holds = 0 := fun c => by simp [Core.holds, hidle c]
  have hcounted : ∀ c, (s.core c).counted = 0 := fun c => by
    simp [Core.counted, Core.enqueuing, Core.dequeued, hidle c]
  have hlock : s.lock.lock = 0 := by
    have hh := h.holder
    simp only [hholds, Finset.sum_const_zero] at hh
    exact BitVec.eq_of_toNat_eq hh
  have hev : s.lock.evcnt = 0 := by
    by_contra hne
    obtain ⟨c,hc⟩ := h.wake hlock hne
    simp [Core.retries, hidle c] at hc
  have hlen := h.evcnt
  simp only [hev, hcounted, Finset.sum_const_zero, BitVec.toNat_zero, BitVec.ofNat_eq_ofNat] at hlen
  have hhi : s.hiStash = [] := List.eq_nil_of_length_eq_zero (by omega)
  have hlo : s.loStash = [] := List.eq_nil_of_length_eq_zero (by omega)
  refine ⟨hlock,hev,hhi,hlo,List.perm_iff_count.2 fun e => ?_⟩
  have he := h.events e
  simp only [hhi, hlo, Core.inHand, hidle, List.count_nil, Finset.sum_const_zero] at he
  exact he

/-- At any time at most one core holds the dispatch lock and only that core gets
from the stash; `evcnt` counts the stashed events, the enqueues that are not completed
and the events taken whose subtraction is still to come; no event is stranded. -/
theorem dispatch_protocol (hfit : cfg.Fits (Fintype.card ι))
    (h : (machine ι E cfg).Reachable s) :
    (∀ c d, (s.core c).holds = 1 → (s.core d).holds = 1 → c = d) ∧
    (∀ c, (s.core c).getsNext = true → (s.core c).holds = 1) ∧
    s.hiStash.length + s.loStash.length ≤ s.lock.evcnt.toNat ∧
    s.lock.wrap = wrapProtect ∧
    s.lock.evcnt.toNat = s.hiStash.length + s.loStash.length +
      ∑ c, (s.core c).enqueuing + ∑ c, (s.core c).dequeued ∧
    ((∀ c, (s.core c).pc = .idle) → s.lock.lock = 0 ∧ s.lock.evcnt = 0 ∧
      s.hiStash = [] ∧ s.loStash = [] ∧ s.accepted.Perm s.dispatched) := by
  have hi := reachable_inv hfit h
  have hcounted : ∑ c, (s.core c).counted =
      ∑ c, (s.core c).enqueuing + ∑ c, (s.core c).dequeued := Finset.sum_add_distrib
  have hev := hi.evcnt
  exact ⟨fun _ _ => hi.holder_unique,fun _ => Core.holds_of_getsNext,by omega,hi.wrap,by omega,
    hi.drained⟩

private def cfg32 : Config := ⟨32,32,1024,false⟩

private def start : State (Fin 2) Nat := ⟨.free,[],[],fun _ => {},[],[]⟩

/-- Core 1 stashes an event while core 0 dispatches; core 0 has just taken it. -/
private def taken : Option (State (Fin 2) Nat) :=
  System.exec (State.step · cfg32) (fun _ _ _ => true) start
    [.schedule 0 false [7], .next 0 0, .schedule 1 false [8], .next 1 0, .next 1 0, .next 1 1,
      .next 1 0, .next 1 0, .next 0 1, .next 0 0, .next 0 0, .next 0 0, .next 0 1]

private theorem taken_isSome : taken.isSome = true := by decide

private theorem taken_reachable :
    (machine (Fin 2) Nat cfg32).Reachable (taken.get taken_isSome) :=
  System.ReachableVia.exec (fun _ _ _ _ => trivial) (.start ⟨rfl,rfl,rfl,fun _ => rfl,rfl,rfl⟩)
    (Option.some_get taken_isSome).symm

theorem evcnt_exceeds_enqueues : ¬ ∀ s : State (Fin 2) Nat, (machine (Fin 2) Nat cfg32).Reachable s →
    s.lock.evcnt.toNat =
      s.hiStash.length + s.loStash.length + ∑ c, (s.core c).enqueuing := by
  intro h
  have hev := h _ taken_reachable
  revert hev
  decide

theorem dispatch_protocol_taken :
    (taken.get taken_isSome).lock.evcnt.toNat = 1 ∧ (taken.get taken_isSome).loStash = [] ∧
      (taken.get taken_isSome).lock.wrap = wrapProtect :=
  ⟨by decide,by decide,
    (dispatch_protocol (by unfold Config.Fits; decide) taken_reachable).2.2.2.1⟩

end EmOdp.AtomicGroup
