import EmOdp.AtomicGroup.Invariant

/-! Each step of a core in `atomic_group_dispatch` keeps the invariant. -/
namespace EmOdp.AtomicGroup
open Lib
variable {ι E : Type} [Fintype ι] [DecidableEq ι] [DecidableEq E] {cfg : Config}
  {s t : State ι E} {c : ι}

attribute [local simp] Core.holds Core.scheduled Core.enqueuing Core.dequeued Core.counted Core.inHand
  Core.retries

theorem inv_schedule {hiPrio : Bool} {evTbl : List E} (h : Inv cfg s)
    (hs : s.step cfg (.schedule c hiPrio evTbl) = some t) : Inv cfg t := by
  simp only [State.step] at hs
  split at hs <;> cases hs
  rename_i hg
  have hok := h.cores c
  rcases hc : s.core c with ⟨pc,r⟩
  rw [hc] at hok hg
  obtain rfl : pc = .idle := hg.1
  obtain rfl : r = false := by simpa using hok.released
  simp only [State.setPc, hc]
  exact h.moveLocal ⟨nofun,by simpa using hg.2.2.1,by simp,by simp,nofun⟩ (by simp [hc]) (by simp [hc])
    (by simp [hc]) (by simp [hc])

theorem inv_release (h : Inv cfg s) (hs : s.step cfg (.release c) = some t) : Inv cfg t := by
  simp only [State.step] at hs
  split at hs
  · rename_i hpc
    rcases hc : s.core c with ⟨pc,r⟩
    rw [hc] at hpc hs
    obtain rfl : pc = .lastReceive := hpc
    cases r <;> cases hs
    · simp only [State.setPc, hc, Bool.false_eq_true, if_false]
      exact h.moveLocal ⟨nofun,by simp,by simp,by simp,nofun⟩ (by simp [hc]) (by simp [hc])
        (by simp [hc]) (by simp [hc])
    · exact h
  · cases hs

section Next
variable {n : Nat} {r : Bool}

private theorem next_acquire {hiPrio : Bool} {evTbl : List E} (h : Inv cfg s)
    (hc : s.core c = ⟨.acquireIfIdle hiPrio evTbl,r⟩) (hs : s.next cfg c n = some t) :
    Inv cfg t := by
  have hok := h.cores c
  rw [hc] at hok
  obtain rfl : r = false := by simpa using hok.released
  simp only [State.next, hc] at hs
  split at hs <;> cases hs
  · rename_i hf
    have hl := DispatchLock.lockAndEvcnt_injective hf
    have hlock : s.lock.lock = 0 := by rw [hl]; rfl
    have hev : s.lock.evcnt = 0 := by rw [hl]; rfl
    simp only [State.setPc, hc]
    refine h.move rfl ⟨nofun,by simp,by simp,by simp,nofun⟩ h.hiStash h.loStash rfl (.inr rfl) ?_ ?_ ?_ ?_
    · simp [hc, hlock, DispatchLock.held]
    · simp [hc, hev, DispatchLock.held]
    · simp [DispatchLock.held]
    · intro e; simp [hc]; omega
  · simp only [State.setPc, hc]
    exact h.moveLocal ⟨nofun,by simpa using hok.scheduled,by simp,by simp,nofun⟩ (by simp [hc])
      (by simp [hc]) (by simp [hc]) (by simp [hc])

private theorem next_enqAdd {hiPrio : Bool} {evTbl : List E}
    (hfit : cfg.Fits (Fintype.card ι))
    (h : Inv cfg s) (hc : s.core c = ⟨.enqAdd hiPrio evTbl,r⟩) (hs : s.next cfg c n = some t) :
    Inv cfg t := by
  have hok := h.cores c
  rw [hc] at hok
  obtain rfl : r = false := by simpa using hok.released
  have hburst : evTbl.length ≤ cfg.maxBurst := by simpa using hok.scheduled
  simp only [State.next, hc, State.setPc] at hs
  cases hs
  have hk : Core.Ok cfg (⟨.enqPut hiPrio evTbl,false⟩ : Core E) :=
    ⟨nofun,by simp,by simpa using hburst,by simp,nofun⟩
  have hroom := h.room hfit (c := c) hk (by simp [hc])
  obtain ⟨he,hw,hl⟩ := DispatchLock.fetchAdd_spec (w := s.lock) (n := evTbl.length)
    (by simpa using hroom)
  refine h.move rfl hk h.hiStash h.loStash
    (hw.trans h.wrap) (by rw [hl]; exact h.bit) ?_ ?_ (by simp) ?_
  · simp [hc, hl]
  · simp [hc, he]; omega
  · intro e; simp [hc]

omit [DecidableEq E] in
private theorem put_core {evTbl : List E} (hlen : evTbl.length ≤ cfg.maxBurst) :
    ∃ k : Core E,
      k = ⟨if n = evTbl.length then .trylockLoad else .enqSub (evTbl.length-n),false⟩ ∧ k.Ok cfg ∧
      k.holds = 0 ∧ k.counted = evTbl.length-n ∧ k.inHand = [] ∧ k.retries = true := by
  refine ⟨_,rfl,?_⟩
  split
  · exact ⟨⟨nofun,by simp,by simp,by simp,nofun⟩,by simp,by simp; omega,by simp,by simp⟩
  · exact ⟨⟨nofun,by simp,by simp; omega,by simp,nofun⟩,by simp,by simp,by simp,by simp⟩

private theorem next_enqPut {hiPrio : Bool} {evTbl : List E} (h : Inv cfg s)
    (hc : s.core c = ⟨.enqPut hiPrio evTbl,r⟩) (hs : s.next cfg c n = some t) : Inv cfg t := by
  have hok := h.cores c
  rw [hc] at hok
  obtain rfl : r = false := by simpa using hok.released
  have hburst : evTbl.length ≤ cfg.maxBurst := by simpa using hok.enqueuing
  have hzero : (s.core c).holds = 0 := by simp [hc]
  have hall : (s.core c).counted = evTbl.length := by simp [hc]
  have hnone : (s.core c).inHand = [] := by simp [hc]
  rcases hiPrio with _ | _
  all_goals
    simp only [State.next, hc, State.enqPut, Bool.false_eq_true, if_false, if_true] at hs
    split at hs <;> cases hs
    rename_i hn
    obtain ⟨k,hkd,hk,hholds,hcount,hhand,hretry⟩ := put_core (n := n) hburst
    have hlen : (evTbl.take n).length = n := by simp [hn.1]
    simp only [State.setPc, hc, ← hkd]
  · refine h.move rfl hk h.hiStash ?_ h.wrap h.bit (by rw [hholds, hzero]) ?_
      (fun _ _ => .inl hretry) fun e => ?_
    · rw [List.length_append, hlen]; exact hn.2
    · dsimp only; rw [hcount, hall, List.length_append, hlen]; omega
    · dsimp only; rw [hhand, hnone, List.count_append, List.count_append]; omega
  · refine h.move rfl hk ?_ h.loStash h.wrap h.bit (by rw [hholds, hzero]) ?_
      (fun _ _ => .inl hretry) fun e => ?_
    · rw [List.length_append, hlen]; exact hn.2
    · dsimp only; rw [hcount, hall, List.length_append, hlen]; omega
    · dsimp only; rw [hhand, hnone, List.count_append, List.count_append]; omega

private theorem next_enqSub {m : Nat} (h : Inv cfg s) (hc : s.core c = ⟨.enqSub m,r⟩)
    (hs : s.next cfg c n = some t) : Inv cfg t := by
  have hok := h.cores c
  have hle := h.counted_le c
  rw [hc] at hok hle
  obtain rfl : r = false := by simpa using hok.released
  simp only [State.next, hc, State.setPc] at hs
  cases hs
  obtain ⟨he,hw,hl⟩ := DispatchLock.fetchSub_spec (w := s.lock) (n := m) (by simpa using hle)
  simp at hle
  refine h.move rfl ⟨nofun,by simp,by simp,by simp,nofun⟩ h.hiStash h.loStash
    (hw.trans h.wrap) (by rw [hl]; exact h.bit) ?_ ?_ (by simp) ?_
  · simp [hc, hl]
  · simp [hc, he]; omega
  · intro e; simp [hc]

private theorem next_trylockLoad (h : Inv cfg s) (hc : s.core c = ⟨.trylockLoad,r⟩)
    (hs : s.next cfg c n = some t) : Inv cfg t := by
  have hok := h.cores c
  rw [hc] at hok
  obtain rfl : r = false := by simpa using hok.released
  simp only [State.next, hc, State.setPc] at hs
  cases hs
  exact h.moveLocal ⟨nofun,by simp,by simp,by simp,nofun⟩ (by simp [hc]) (by simp [hc]) (by simp [hc])
    (by simp)

private theorem next_trylockCas {w : DispatchLock} (h : Inv cfg s)
    (hc : s.core c = ⟨.trylockCas w,r⟩) (hs : s.next cfg c n = some t) : Inv cfg t := by
  have hok := h.cores c
  rw [hc] at hok
  obtain rfl : r = false := by simpa using hok.released
  simp only [State.next, hc, State.cas, State.setPc] at hs
  cases hs
  split
  · rename_i heq
    obtain rfl := DispatchLock.lockAndEvcnt_injective heq
    refine h.move rfl ⟨nofun,?_,?_,?_,?_⟩ h.hiStash h.loStash h.wrap (.inr rfl) ?_ ?_ (by simp) ?_
    all_goals rcases h.bit with hb | hb <;> simp [hc, hb]
  · exact h.moveLocal ⟨nofun,by simp,by simp,by simp,nofun⟩ (by simp [hc]) (by simp [hc]) (by simp [hc])
      (by simp)

private theorem next_deqHi (h : Inv cfg s) (hc : s.core c = ⟨.deqHi,r⟩)
    (hs : s.next cfg c n = some t) : Inv cfg t := by
  have hok := h.cores c
  rw [hc] at hok
  obtain rfl : r = false := by simpa using hok.released
  have hlock : s.lock.lock = 1 := h.locked c (by simp [hc])
  simp only [State.next, hc, State.deqHi, State.setPc] at hs
  split at hs
  · split at hs <;> cases hs
    rename_i hn
    have hlen : (s.hiStash.take n).length = n := by simp [hn.2]
    refine h.move rfl ⟨nofun,by simp,by simp,by simpa using .inl hn.1,nofun⟩ ?_ h.loStash h.wrap h.bit
      (by simp [hc]) ?_ (by simp [hlock]) fun e => ?_
    · have hle := h.hiStash
      simp only [List.length_drop]; omega
    · simp [hc]; omega
    · have hcount : s.hiStash.count e = (s.hiStash.take n).count e + (s.hiStash.drop n).count e := by
        rw [← List.count_append, List.take_append_drop]
      simp [hc]; omega
  · cases hs
    exact h.moveLocal ⟨nofun,by simp,by simp,by simp,nofun⟩ (by simp [hc]) (by simp [hc]) (by simp [hc])
      (by simp [hc])

private theorem next_deqLo {deq : List E} (h : Inv cfg s) (hc : s.core c = ⟨.deqLo deq,r⟩)
    (hs : s.next cfg c n = some t) : Inv cfg t := by
  have hok := h.cores c
  rw [hc] at hok
  obtain rfl : r = false := by simpa using hok.released
  have hlock : s.lock.lock = 1 := h.locked c (by simp [hc])
  simp only [State.next, hc, State.deqLo, State.setPc] at hs
  split at hs <;> cases hs
  rename_i hn
  have hcount : ∀ e, s.loStash.count e = (s.loStash.take n).count e + (s.loStash.drop n).count e :=
    fun e => by rw [← List.count_append, List.take_append_drop]
  have hlo : (s.loStash.drop n).length ≤ cfg.stashSize := by
    have hle := h.loStash
    simp only [List.length_drop]; omega
  split
  · rename_i hnil
    obtain ⟨rfl,htake⟩ := List.append_eq_nil_iff.1 hnil
    refine h.move rfl ⟨nofun,by simp,by simp,by simp,nofun⟩ h.hiStash hlo h.wrap h.bit
      (by simp [hc]) ?_ (by simp [hlock]) fun e => ?_
    · have hlen := congrArg List.length htake
      simp only [List.length_take, List.length_nil] at hlen
      simp [hc]; omega
    · have he := hcount e
      rw [htake] at he
      simp [hc]; simpa using he
  · refine h.move rfl ⟨nofun,by simp,by simp,?_,nofun⟩ h.hiStash hlo h.wrap h.bit
      (by simp [hc]) ?_ (by simp [hlock]) fun e => ?_
    · simp; omega
    · simp [hc]; omega
    · have he := hcount e
      simp [hc]; omega

private theorem next_deqSub {deq : List E} (h : Inv cfg s) (hc : s.core c = ⟨.deqSub deq,r⟩)
    (hs : s.next cfg c n = some t) : Inv cfg t := by
  have hok := h.cores c
  have hle := h.counted_le c
  have hlock : s.lock.lock = 1 := h.locked c (by simp [hc])
  rw [hc] at hok hle
  obtain rfl : r = false := by simpa using hok.released
  simp only [State.next, hc, State.setPc] at hs
  cases hs
  obtain ⟨he,hw,hl⟩ := DispatchLock.fetchSub_spec (w := s.lock) (n := deq.length) (by simpa using hle)
  simp at hle
  refine h.move rfl ⟨nofun,by simp,by simp,by simp,nofun⟩ h.hiStash h.loStash
    (hw.trans h.wrap) (by rw [hl]; exact h.bit) ?_ ?_ ?_ ?_
  · simp [hc, hl]
  · simp [hc, he]; omega
  · simp [hl, hlock]
  · intro e; simp [hc]

private theorem next_dispatch {todo : List E} (h : Inv cfg s) (hc : s.core c = ⟨.dispatch todo,r⟩)
    (hs : s.next cfg c n = some t) : Inv cfg t := by
  have hok := h.cores c
  rw [hc] at hok
  obtain rfl : r = false := by simpa using hok.released
  have hlock : s.lock.lock = 1 := h.locked c (by simp [hc])
  simp only [State.next, hc, State.receive, State.setPc] at hs
  split at hs <;> cases hs
  rename_i hn
  split
  · rename_i hall
    refine h.move rfl ⟨by simp,by simp,by simp,by simp,nofun⟩ h.hiStash h.loStash h.wrap h.bit
      (by simp [hc]) (by simp [hc]) (by simp [hlock]) fun e => ?_
    simp [hc, hall]; omega
  · refine h.move rfl ⟨nofun,by simp,by simp,by simp,nofun⟩ h.hiStash h.loStash h.wrap h.bit
      (by simp [hc]) (by simp [hc]) (by simp [hlock]) fun e => ?_
    have hcount : todo.count e = (todo.take n).count e + (todo.drop n).count e := by
      rw [← List.count_append, List.take_append_drop]
    simp [hc]; omega

private theorem next_lastReceive (h : Inv cfg s) (hc : s.core c = ⟨.lastReceive,r⟩)
    (hs : s.next cfg c n = some t) : Inv cfg t := by
  simp only [State.next, hc, State.setPc] at hs
  cases hs
  exact h.moveLocal ⟨fun _ => .inr rfl,by simp,by simp,by simp,nofun⟩ (by simp [hc]) (by simp [hc])
    (by simp [hc]) (by simpa [hc] using fun hr => .inl hr)

private theorem next_releaseLoad (h : Inv cfg s) (hc : s.core c = ⟨.releaseLoad,r⟩)
    (hs : s.next cfg c n = some t) : Inv cfg t := by
  have hok := h.cores c
  rw [hc] at hok
  obtain rfl : r = false := by simpa using hok.released
  simp only [State.next, hc, State.setPc] at hs
  cases hs
  exact h.moveLocal ⟨nofun,by simp,by simp,by simp,nofun⟩ (by simp [hc]) (by simp [hc]) (by simp [hc])
    (by simp [hc])

/-- The lock is given up early: this core has to look at it again. -/
private theorem next_releaseCas {w : DispatchLock} (h : Inv cfg s)
    (hc : s.core c = ⟨.releaseCas w,r⟩) (hs : s.next cfg c n = some t) : Inv cfg t := by
  have hok := h.cores c
  rw [hc] at hok
  obtain rfl : r = false := by simpa using hok.released
  have hlock : s.lock.lock = 1 := h.locked c (by simp [hc])
  simp only [State.next, hc, State.setPc] at hs
  split at hs <;> cases hs
  · rename_i heq
    obtain rfl := DispatchLock.lockAndEvcnt_injective heq
    refine h.move rfl ⟨by simp,by simp,by simp,by simp,nofun⟩ h.hiStash h.loStash h.wrap (.inl rfl)
      ?_ ?_ (by simp) ?_
    all_goals simp [hc, hlock]
  · exact h.moveLocal ⟨nofun,by simp,by simp,by simp,nofun⟩ (by simp [hc]) (by simp [hc]) (by simp [hc])
      (by simp [hc])

private theorem next_unlock (h : Inv cfg s) (hc : s.core c = ⟨.unlock,r⟩)
    (hs : s.next cfg c n = some t) : Inv cfg t := by
  rcases r with _ | _
  · simp only [State.next, hc, State.cas, State.setPc, Bool.false_eq_true, if_false] at hs
    cases hs
    split
    · rename_i heq
      have hl := DispatchLock.lockAndEvcnt_injective heq
      refine h.move rfl ⟨nofun,by simp,by simp,by simp,nofun⟩ h.hiStash h.loStash rfl (.inl rfl) ?_ ?_ ?_ ?_
      all_goals simp [hc, hl, DispatchLock.free, DispatchLock.held]
    · exact h.moveLocal ⟨nofun,by simp,by simp,by simp,nofun⟩ (by simp [hc]) (by simp [hc]) (by simp [hc])
        (by simp [hc])
  · simp only [State.next, hc, if_true] at hs
    cases hs
    exact h.moveLocal ⟨nofun,by simp,by simp,by simp,nofun⟩ (by simp [hc]) (by simp [hc]) (by simp [hc])
      (by simp [hc])

/-- The core leaves without the lock only if it is taken or there is no event. -/
private theorem next_relockLoad (h : Inv cfg s) (hc : s.core c = ⟨.relockLoad,r⟩)
    (hs : s.next cfg c n = some t) : Inv cfg t := by
  have hok := h.cores c
  rw [hc] at hok
  obtain rfl : r = false := by simpa using hok.released
  simp only [State.next, hc, State.setPc] at hs
  split at hs <;> cases hs
  · rename_i hleave
    refine h.moveLocal ⟨nofun,by simp,by simp,by simp,nofun⟩ (by simp [hc]) (by simp [hc]) (by simp [hc])
      fun _ => .inr fun h0 => ?_
    rcases hleave with h1 | h1
    · rw [h0] at h1; cases h1
    · exact h1.1
  · rename_i hstay
    have hne : s.lock.lock ≠ 1 := fun h1 => hstay (.inl h1)
    exact h.moveLocal ⟨nofun,by simp,by simp,by simp,fun w hw => by cases hw; exact hne⟩
      (by simp [hc]) (by simp [hc]) (by simp [hc]) (by simp [hc])

private theorem next_relockCas {w : DispatchLock} (h : Inv cfg s)
    (hc : s.core c = ⟨.relockCas w,r⟩) (hs : s.next cfg c n = some t) : Inv cfg t := by
  have hok := h.cores c
  rw [hc] at hok
  obtain rfl : r = false := by simpa using hok.released
  simp only [State.next, hc, State.cas, State.setPc] at hs
  cases hs
  split
  · rename_i heq
    obtain rfl := DispatchLock.lockAndEvcnt_injective heq
    have hfree : s.lock.lock = 0 := h.bit.resolve_right (hok.relock _ rfl)
    refine h.move rfl ⟨nofun,by simp,by simp,by simp,nofun⟩ h.hiStash h.loStash h.wrap (.inr rfl)
      ?_ ?_ (by simp) ?_
    all_goals simp [hc, hfree]
  · exact h.moveLocal ⟨nofun,by simp,by simp,by simp,nofun⟩ (by simp [hc]) (by simp [hc]) (by simp [hc])
      (by simp [hc])

theorem inv_next (hfit : cfg.Fits (Fintype.card ι)) (h : Inv cfg s)
    (hs : s.next cfg c n = some t) : Inv cfg t := by
  rcases hc : s.core c with ⟨pc,r⟩
  cases pc with
  | idle => simp [State.next, hc] at hs
  | acquireIfIdle => exact next_acquire h hc hs
  | enqAdd => exact next_enqAdd hfit h hc hs
  | enqPut => exact next_enqPut h hc hs
  | enqSub => exact next_enqSub h hc hs
  | trylockLoad => exact next_trylockLoad h hc hs
  | trylockCas => exact next_trylockCas h hc hs
  | deqHi => exact next_deqHi h hc hs
  | deqLo => exact next_deqLo h hc hs
  | deqSub => exact next_deqSub h hc hs
  | dispatch => exact next_dispatch h hc hs
  | lastReceive => exact next_lastReceive h hc hs
  | releaseLoad => exact next_releaseLoad h hc hs
  | releaseCas => exact next_releaseCas h hc hs
  | unlock => exact next_unlock h hc hs
  | relockLoad => exact next_relockLoad h hc hs
  | relockCas => exact next_relockCas h hc hs

end Next

theorem inv_step {l : Label ι E} (hfit : cfg.Fits (Fintype.card ι)) (h : Inv cfg s)
    (hs : s.step cfg l = some t) : Inv cfg t := by
  cases l with
  | schedule => exact inv_schedule h hs
  | next => exact inv_next hfit h hs
  | release => exact inv_release h hs

end EmOdp.AtomicGroup
