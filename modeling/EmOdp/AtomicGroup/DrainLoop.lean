import EmOdp.AtomicGroup.QueueRuns

/-! A core in `ag_dispatch_loop` while no other core enqueues: each of its accesses makes
a measure of the stashed events and of the core's position smaller. -/
namespace EmOdp.AtomicGroup
open Lib
variable {ι E : Type} [Fintype ι] [DecidableEq ι] [DecidableEq E] {cfg : Config} {s t : State ι E}
  {c : ι} {n : Nat} {loaded : Option Bool}

omit [DecidableEq ι] in
/-- With no enqueue in progress `evcnt` is what the holder of the lock can take from the
stashes. -/
theorem Inv.evcnt_stashed (h : Inv cfg s) (hc : (s.core c).holds = 1)
    (henq : ∀ d, (s.core d).enqueuing = 0) (hdeq : (s.core c).dequeued = 0) :
    s.lock.evcnt.toNat = s.hiStash.length + s.loStash.length := by
  have hcounted : ∀ d, (s.core d).counted = 0 := fun d => by
    by_cases hd : d = c
    · rw [hd, Core.counted, henq c, hdeq]
    · have hne : (s.core d).holds ≠ 1 := fun h1 => hd (h.holder_unique h1 hc)
      rw [Core.counted, henq d, Nat.zero_add]
      rcases hk : s.core d with ⟨pc,r⟩
      rw [hk] at hne
      cases pc <;> first | rfl | exact absurd rfl hne
  have hev := h.evcnt
  simpa only [hcounted, Finset.sum_const_zero, Nat.add_zero] using hev

omit [DecidableEq ι] in
theorem Inv.lock_eq_held (h : Inv cfg s) (hc : (s.core c).holds = 1)
    (hev : s.lock.evcnt.toNat = 0) : s.lock = .held :=
  DispatchLock.ext (BitVec.eq_of_toNat_eq hev) h.wrap (h.locked c hc)

/-- What holds in `ag_dispatch_loop` after the loop head; `loaded` is what
`ag_internal_deq` knows of `num_hi_prio_queues`. -/
def Core.Draining (loaded : Option Bool) (s : State ι E) (k : Core E) : Prop :=
  match k.pc with
  | .deqHi => loaded = some false → s.hiStash = []
  | .deqLo deq => deq = [] → s.hiStash = []
  | .deqSub deq | .dispatch deq => deq ≠ []
  | .releaseCas expected | .relockCas expected => expected = s.lock
  | .lastReceive | .releaseLoad | .unlock | .relockLoad | .idle => True
  | _ => False

/-- The order in which a core passes the accesses of one round of the loop. -/
def Core.rank (loaded : Option Bool) (stashed : Nat) (k : Core E) : Nat :=
  match k.pc with
  | .lastReceive => if k.released then 32 else 36
  | .releaseLoad => 34
  | .releaseCas _ => 33
  | .unlock => if k.released then 31 else if stashed = 0 then 7 else 27
  | .relockLoad => 29
  | .relockCas _ => 28
  | .deqHi => if loaded.isSome then 19 else 20
  | .deqLo _ => 18
  | .deqSub _ => 17
  | .dispatch _ => 16
  | _ => 0

/-- An event weighs more in a stash than in hand, and in hand more than a round of the loop. -/
def State.toDrain (loaded : Option Bool) (s : State ι E) (c : ι) : Nat :=
  64 * (s.hiStash.length + s.loStash.length) + 40 * (s.core c).inHand.length +
    (s.core c).rank loaded (s.hiStash.length + s.loStash.length)

/-- The core is in the loop and no other core enqueues. -/
structure Solo (loaded : Option Bool) (s : State ι E) (c : ι) : Prop where
  enqueuing : ∀ d, (s.core d).enqueuing = 0
  deqHi : loaded.isSome = true → (s.core c).pc = .deqHi
  draining : (s.core c).Draining loaded s

omit [Fintype ι] [DecidableEq E] in
/-- One access of the draining core. -/
private theorem Solo.move {k : Core E} (h : Solo loaded s c) (ht : t.core = Function.update s.core c k)
    (henq : k.enqueuing = 0) (hk : k.Draining none t)
    (hlt : 64 * (t.hiStash.length + t.loStash.length) + 40 * k.inHand.length +
      k.rank none (t.hiStash.length + t.loStash.length) < s.toDrain loaded c) :
    Solo none t c ∧ t.toDrain none c < s.toDrain loaded c := by
  have hc : t.core c = k := by rw [ht, Function.update_self]
  refine ⟨⟨fun d => ?_,nofun,hc ▸ hk⟩,by simpa only [State.toDrain, hc] using hlt⟩
  by_cases hd : d = c
  · rw [hd, hc, henq]
  · rw [ht, Function.update_of_ne hd, h.enqueuing d]

section Next
open Queues (GetOk)
variable {r : Bool}

attribute [local simp] Core.Draining Core.rank Core.inHand Core.enqueuing State.toDrain

omit [Fintype ι] in
private theorem solo_deqHi (hburst : 0 < cfg.agMaxBurst) (h : Solo loaded s c)
    (hc : s.core c = ⟨.deqHi,r⟩) (hl : loaded = some cfg.hiPrioQueues)
    (hget : cfg.hiPrioQueues = true → GetOk s.hiStash cfg.agMaxBurst n)
    (hs : s.next cfg c n = some t) : Solo none t c ∧ t.toDrain none c < s.toDrain loaded c := by
  have hd := h.draining
  simp only [State.next, hc, State.deqHi] at hs
  cases hq : cfg.hiPrioQueues
  · simp only [hq, Bool.false_eq_true, if_false] at hs
    cases hs
    have hhi : s.hiStash = [] := by simpa [hc, hl, hq] using hd
    refine h.move rfl rfl (fun _ => hhi) ?_
    simp [State.setPc, hc, hl]
  · simp only [hq, if_true, Option.ite_none_right_eq_some] at hs
    obtain ⟨hn,hs⟩ := hs
    cases hs
    refine h.move rfl rfl (fun htake => ?_) ?_
    · have hlen := congrArg List.length htake
      simp only [List.length_take, List.length_nil] at hlen
      rcases hget hq (by omega) with h0 | h0
      · omega
      · simp [State.setPc, h0]
    · simp [State.setPc, hc, hl]
      omega

private theorem solo_deqLo {deq : List E} (hburst : 0 < cfg.agMaxBurst) (hinv : Inv cfg s)
    (h : Solo loaded s c) (hc : s.core c = ⟨.deqLo deq,r⟩)
    (hget : GetOk s.loStash (cfg.agMaxBurst - deq.length) n)
    (hs : s.next cfg c n = some t) : Solo none t c ∧ t.toDrain none c < s.toDrain loaded c := by
  have hd := h.draining
  have hok := hinv.cores c
  rw [hc] at hok
  obtain rfl : r = false := by simpa using hok.released
  simp only [State.next, hc, State.deqLo, Option.ite_none_right_eq_some] at hs
  obtain ⟨hn,hs⟩ := hs
  cases hs
  split
  · rename_i hnil
    obtain ⟨rfl,htake⟩ := List.append_eq_nil_iff.1 hnil
    have hlen := congrArg List.length htake
    simp only [List.length_take, List.length_nil] at hlen
    have hhi : s.hiStash = [] := by simpa [hc] using hd
    have hlo : s.loStash = [] := by
      rcases hget (by omega) with h0 | h0
      · simp only [List.length_nil] at h0; omega
      · exact h0
    refine h.move rfl rfl trivial ?_
    simp [State.setPc, hc, hhi, hlo]
  · rename_i hne
    refine h.move rfl rfl hne ?_
    simp [State.setPc, hc]
    omega

/-- Each access in the loop leaves less to drain. -/
theorem Solo.next (hinv : Inv cfg s) (hburst : 0 < cfg.agMaxBurst) (h : Solo loaded s c)
    (hhi : (s.core c).pc = .deqHi → loaded = some cfg.hiPrioQueues ∧
      (cfg.hiPrioQueues = true → GetOk s.hiStash cfg.agMaxBurst n))
    (hlo : ∀ deq, (s.core c).pc = .deqLo deq → GetOk s.loStash (cfg.agMaxBurst - deq.length) n)
    (hs : s.next cfg c n = some t) : Solo none t c ∧ t.toDrain none c < s.toDrain loaded c := by
  have hd := h.draining
  have hok := hinv.cores c
  rcases hc : s.core c with ⟨pc,r⟩
  rw [hc] at hd hok
  cases pc with
  | idle => simp [State.next, hc] at hs
  | acquireIfIdle | enqAdd | enqPut | enqSub | trylockLoad | trylockCas => exact absurd hd id
  | deqHi =>
    obtain ⟨hl,hget⟩ := hhi (by rw [hc])
    exact solo_deqHi hburst h hc hl hget hs
  | deqLo deq => exact solo_deqLo hburst hinv h hc (hlo deq (by rw [hc])) hs
  | deqSub deq =>
    simp only [State.next, hc] at hs
    cases hs
    refine h.move rfl rfl hd ?_
    simp [State.setPc, hc]
  | dispatch todo =>
    simp only [State.next, hc, State.receive, Option.ite_none_right_eq_some] at hs
    obtain ⟨hn,hs⟩ := hs
    cases hs
    split
    · refine h.move rfl rfl trivial ?_
      simp [State.setPc, hc]
      split <;> omega
    · refine h.move rfl rfl (fun hnil => ?_) ?_
      · have hlen := congrArg List.length hnil
        simp only [List.length_drop, List.length_nil] at hlen
        omega
      · simp [State.setPc, hc]
        omega
  | lastReceive =>
    simp only [State.next, hc] at hs
    cases hs
    refine h.move rfl rfl trivial ?_
    simp [State.setPc, hc]
    repeat' split
    all_goals omega
  | releaseLoad =>
    simp only [State.next, hc] at hs
    cases hs
    refine h.move rfl rfl rfl ?_
    simp [State.setPc, hc]
  | releaseCas expected =>
    obtain rfl : expected = s.lock := hd
    simp only [State.next, hc, if_true] at hs
    cases hs
    refine h.move rfl rfl trivial ?_
    simp [hc]
  | unlock =>
    simp only [State.next, hc] at hs
    cases r
    · simp only [Bool.false_eq_true, if_false, State.cas] at hs
      cases hs
      split
      · refine h.move rfl rfl trivial ?_
        simp [State.setPc, hc]
        split <;> omega
      · rename_i hheld
        have hholds : (s.core c).holds = 1 := by rw [hc]; rfl
        have hev := hinv.evcnt_stashed hholds h.enqueuing (by rw [hc]; rfl)
        have hne : ¬(s.hiStash = [] ∧ s.loStash = []) := by
          rintro ⟨h0,h1⟩
          rw [h0, h1] at hev
          exact hheld (by rw [hinv.lock_eq_held hholds hev])
        refine h.move rfl rfl (fun h => by cases h) ?_
        simp [State.setPc, hc, hne]
    · simp only [if_true] at hs
      cases hs
      refine h.move rfl rfl trivial ?_
      simp [hc]
  | relockLoad =>
    simp only [State.next, hc] at hs
    split at hs <;> cases hs
    · refine h.move rfl rfl trivial ?_
      simp [State.setPc, hc]
    · refine h.move rfl rfl rfl ?_
      simp [State.setPc, hc]
  | relockCas expected =>
    obtain rfl : expected = s.lock := hd
    simp only [State.next, hc, State.cas, if_true] at hs
    cases hs
    refine h.move rfl rfl (fun h => by cases h) ?_
    simp [State.setPc, hc]

omit [Fintype ι] in
theorem Solo.release (h : Solo loaded s c) (hs : s.step cfg (.release c) = some t)
    (hr : (s.core c).released = false) : Solo none t c ∧ t.toDrain none c < s.toDrain loaded c := by
  simp only [State.step, hr, Option.ite_none_right_eq_some, Bool.false_eq_true, if_false] at hs
  obtain ⟨hpc,hs⟩ := hs
  cases hs
  rcases hc : s.core c with ⟨pc,r⟩
  rw [hc] at hpc hr
  cases hpc
  cases hr
  refine h.move rfl rfl trivial ?_
  simp [State.setPc, hc]

omit [DecidableEq E] in
private theorem getOk_min {stash : List E} {max : Nat} : GetOk stash max (min 1 (min max stash.length)) := by
  intro h0
  rcases Nat.eq_zero_or_pos max with hm | hm
  · exact .inl hm
  · exact .inr (List.eq_nil_of_length_eq_zero (by omega))

/-- The draining core is never stuck before it has left the loop. -/
theorem Solo.enabled (h : Solo loaded s c) (hinv : Inv cfg s) (hne : (s.core c).pc ≠ .idle) :
    ∃ n t, s.next cfg c n = some t ∧
      ((s.core c).pc = .deqHi → GetOk s.hiStash cfg.agMaxBurst n) ∧
      ∀ deq, (s.core c).pc = .deqLo deq → GetOk s.loStash (cfg.agMaxBurst - deq.length) n := by
  have hd := h.draining
  have hok := hinv.cores c
  rcases hc : s.core c with ⟨pc,r⟩
  rw [hc] at hd hok hne
  cases pc with
  | idle => exact absurd rfl hne
  | acquireIfIdle | enqAdd | enqPut | enqSub | trylockLoad | trylockCas => exact absurd hd id
  | deqHi =>
    refine ⟨min 1 (min cfg.agMaxBurst s.hiStash.length),?_⟩
    simp only [State.next, hc, State.deqHi]
    split
    · rw [if_pos (by omega)]
      exact ⟨_,rfl,fun _ => getOk_min,fun _ h => by cases h⟩
    · exact ⟨_,rfl,fun _ => getOk_min,fun _ h => by cases h⟩
  | deqLo deq =>
    have hdeq : deq.length ≤ cfg.agMaxBurst := hok.dequeued
    refine ⟨min 1 (min (cfg.agMaxBurst - deq.length) s.loStash.length),?_⟩
    simp only [State.next, hc, State.deqLo]
    rw [if_pos (by omega)]
    refine ⟨_,rfl,(fun h => by cases h),fun deq' hd' => ?_⟩
    cases hd'
    exact getOk_min
  | dispatch todo =>
    refine ⟨todo.length,?_⟩
    simp only [State.next, hc, State.receive]
    rw [if_pos ⟨List.length_pos_iff.2 hd,le_rfl⟩]
    exact ⟨_,rfl,(fun h => by cases h),fun _ h => by cases h⟩
  | _ =>
    refine ⟨0,?_⟩
    simp only [State.next, hc]
    (repeat' split) <;> exact ⟨_,rfl,(fun h => by cases h),fun _ h => by cases h⟩

end Next

end EmOdp.AtomicGroup
