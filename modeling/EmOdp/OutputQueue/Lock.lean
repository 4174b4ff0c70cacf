import EmOdp.OutputQueue.Drain

/-! What each step of a core keeps: one holder for each lock and the order of the events
of each output queue. -/
namespace EmOdp.OutputQueue
open Lib
variable {ι κ E : Type} [DecidableEq ι] [DecidableEq κ] {s t : State ι κ E} {c : ι}

namespace State

omit [DecidableEq ι] [DecidableEq κ] in
theorem phase_idle (h : (s.core c).phase.isIdle = true) : (s.core c).phase = .idle := by
  cases hp : (s.core c).phase <;> simp_all [Phase.isIdle]

section Queue
variable {q : κ} {k : Core κ E} {x : Queue E}

/-- A step of core `c` that changes the queue `q` and no lock. -/
theorem Inv.queue_step (h : s.Inv) (hlock : t.lock = s.lock)
    (hqueue : t.queue = Function.update s.queue q x)
    (hcore : t.core = Function.update s.core c k)
    (hlocked : k.phase.locked = (s.core c).phase.locked)
    (hother : ∀ r, r ≠ q → k.phase.locked ≠ some r) (hk : CoreOk k)
    (horder : x.given ++ (if k.phase.locked = some q then k.phase.table else s.inFlight q) ++
      x.odpQueue = x.accepted)
    (hhandover : Handover x.given x.passed x.freed) : t.Inv := by
  refine ⟨cores_update h.cores hcore hk,lock_update h hlock hcore hlocked,fun r => ?_,fun r => ?_⟩
  · by_cases hr : r = q
    · subst hr
      rw [hqueue, Function.update_self, inFlight_update h hlock hcore hlocked]
      exact horder
    · rw [hqueue, Function.update_of_ne hr, inFlight_update h hlock hcore hlocked,
        if_neg (hother r hr)]
      exact h.order r
  · by_cases hr : r = q
    · subst hr
      rw [hqueue, Function.update_self]
      exact hhandover
    · rw [hqueue, Function.update_of_ne hr]
      exact h.handover r

omit [DecidableEq ι] [DecidableEq κ] in
/-- The events taken from the ODP queue by the holder of the lock. -/
theorem Inv.inFlight_eq (h : s.Inv) (hc : (s.core c).phase.locked = some q) :
    s.inFlight q = (s.core c).phase.table := by
  simp only [inFlight, (h.lock q c).2 hc]

end Queue

section Lock
variable {q : κ} {k : Core κ E} {holder : Option ι}

/-- A step of core `c` that takes or frees the lock of `q`. -/
theorem Inv.lock_step (h : s.Inv) (hlock : t.lock = Function.update s.lock q holder)
    (hqueue : t.queue = s.queue) (hcore : t.core = Function.update s.core c k)
    (hfree : ∀ d, d ≠ c → (s.core d).phase.locked ≠ some q)
    (hmine : ∀ r, r ≠ q → (s.core c).phase.locked ≠ some r)
    (hholder : ∀ d, holder = some d ↔ d = c ∧ k.phase.locked = some q)
    (hother : ∀ r, r ≠ q → k.phase.locked ≠ some r)
    (htable : k.phase.table = []) (hin : s.inFlight q = []) (hk : CoreOk k) : t.Inv := by
  refine ⟨cores_update h.cores hcore hk,fun r d => ?_,fun r => ?_,fun r => ?_⟩
  · rw [hlock, hcore]
    by_cases hr : r = q <;> by_cases hd : d = c
    · subst hr hd
      simp only [Function.update_self, hholder, true_and]
    · subst hr
      simp only [Function.update_self, Function.update_of_ne hd, hholder]
      exact ⟨fun hc => absurd hc.1 hd,fun hl => absurd hl (hfree d hd)⟩
    · subst hd
      simp only [Function.update_self, Function.update_of_ne hr, h.lock]
      exact ⟨fun hl => absurd hl (hmine r hr),fun hl => absurd hl (hother r hr)⟩
    · simp only [Function.update_of_ne hr, Function.update_of_ne hd, h.lock]
  · rw [hqueue, ← h.order r]
    have hkept : t.inFlight r = s.inFlight r := by
      by_cases hr : r = q
      · subst hr
        rw [hin]
        simp only [inFlight, hlock, Function.update_self]
        split
        · rfl
        · rename_i d
          obtain ⟨rfl,-⟩ := (hholder d).1 rfl
          rw [hcore, Function.update_self, htable]
      · simp only [inFlight, hlock, hcore, Function.update_of_ne hr]
        split
        · rfl
        · rename_i d hd
          have hne : d ≠ c := fun he => hmine r hr (he ▸ (h.lock r d).1 hd)
          rw [Function.update_of_ne hne]
    rw [hkept]
  · rw [hqueue]
    exact h.handover r

end Lock

theorem Inv.send_step {immediate : Bool} {q : κ} {events : List E} {numEnq : Nat} (h : s.Inv)
    (ht : s.step immediate (.send c q events numEnq) = some t) : t.Inv := by
  simp only [step] at ht
  split at ht
  swap
  · cases ht
  rename_i hg
  have hidle := phase_idle hg.1
  -- the queue in the state after the enqueue, whatever the core goes on to do
  have hsent : ∀ k : Core κ E, k.phase.locked = none → CoreOk k →
      State.Inv { s with
        queue := Function.update s.queue q ((s.queue q).enqueue events numEnq)
        core := Function.update s.core c k } := by
    intro k hk hok
    refine h.queue_step rfl rfl rfl (by rw [hk, hidle]; rfl) (fun r _ => by simp [hk]) hok ?_
      (h.handover q)
    rw [if_neg (by simp [hk])]
    simp only [Queue.enqueue]
    rw [← List.append_assoc, h.order]
  have hcore := h.cores c
  split at ht
  · split at ht <;> cases ht
    · simpa only [Function.update_eq_self] using hsent (s.core c) (by rw [hidle]; rfl) hcore
    · refine hsent _ rfl ⟨fun r hr => ?_,fun _ _ h => by cases h⟩
      simpa only [hidle, Phase.position] using hcore.tracked r hr
  · cases ht
    refine hsent _ (by simp only [hidle, Phase.locked]) ⟨fun r hr => ?_,?_⟩
    · have htracked := hcore.tracked r
      simp only [hidle, Phase.position, List.drop_zero] at htracked ⊢
      simp only [Track.track] at hr ⊢
      split at hr
      · rename_i hq
        rw [if_pos hq]
        exact htracked hr
      · rename_i hq
        rw [if_neg hq]
        by_cases he : r = q
        · subst he
          simp
        · simp only [Function.update_of_ne he] at hr
          exact List.mem_append_left _ (htracked hr)
    · simp only [hidle, Phase.attempt]
      exact (fun _ _ h => by cases h)

theorem Inv.roundEnd_step {immediate : Bool} (h : s.Inv)
    (ht : s.step immediate (.roundEnd c) = some t) : t.Inv := by
  simp only [step] at ht
  split at ht <;> cases ht
  rename_i hg
  rw [Bool.and_eq_true] at hg
  have hidle := phase_idle hg.2
  refine h.local_step rfl rfl rfl (by rw [hidle]; rfl) (by rw [hidle]; rfl) ⟨fun r hr => ?_,nofun⟩
  simpa only [hidle, Phase.position] using (h.cores c).tracked r hr

theorem Inv.loop_step {immediate : Bool} (h : s.Inv)
    (ht : s.step immediate (.loop c) = some t) : t.Inv := by
  simp only [step] at ht
  split at ht
  swap
  · cases ht
  rename_i i hloop
  have htracked := (h.cores c).tracked
  simp only [hloop, Phase.position] at htracked
  split at ht <;> cases ht
  · rename_i q hq
    refine h.local_step rfl rfl rfl (by rw [hloop]; rfl) (by rw [hloop]; rfl) ⟨htracked,?_⟩
    intro r j hr
    cases hr
    exact hq
  · rename_i hend
    refine h.local_step rfl rfl rfl (by rw [hloop]; rfl) (by rw [hloop]; rfl) ⟨?_,fun _ _ h => by cases h⟩
    intro r hr
    have hmem := htracked r hr
    rw [List.drop_eq_nil_of_le (List.getElem?_eq_none_iff.1 hend)] at hmem
    cases hmem

theorem Inv.trylock_step {immediate : Bool} (h : s.Inv)
    (ht : s.step immediate (.trylock c) = some t) : t.Inv := by
  simp only [step] at ht
  split at ht
  swap
  · cases ht
  rename_i q caller htry
  have hnone : (s.core c).phase.locked = none := by rw [htry]; rfl
  split at ht <;> cases ht
  · rename_i hfree
    refine h.lock_step rfl rfl rfl (fun d _ hd => ?_)
      (fun r _ => by simp [hnone]) (fun d => ?_) (fun r hr => ?_) rfl
      (by simp only [inFlight, hfree]) ⟨?_,?_⟩
    · rw [← h.lock, hfree] at hd
      cases hd
    · simp [Phase.locked, eq_comm]
    · simpa [Phase.locked] using Ne.symm hr
    · simpa only [htry, Phase.position] using (h.cores c).tracked
    · simpa only [htry, Phase.attempt] using (h.cores c).current
  · have hattempt : (s.core c).phase.attempt = some (q,caller) := by rw [htry]; rfl
    refine h.local_step rfl rfl rfl (by rw [Core.locked_attempted, hnone]) ?_
      ((h.cores c).attempted hattempt)
    rw [htry]
    cases caller <;> rfl

theorem Inv.dequeue_step {immediate : Bool} {deq : Nat} (h : s.Inv)
    (ht : s.step immediate (.dequeue c deq) = some t) : t.Inv := by
  simp only [step] at ht
  split at ht
  swap
  · cases ht
  rename_i q caller hdeq
  have hlocked : (s.core c).phase.locked = some q := by rw [hdeq]; rfl
  have hcore := h.cores c
  split at ht
  · cases ht
    refine h.local_step rfl rfl rfl (by rw [hlocked]; rfl) (by rw [hdeq]; rfl) ⟨?_,?_⟩
    · simpa only [hdeq, Phase.position] using hcore.tracked
    · simpa only [hdeq, Phase.attempt] using hcore.current
  split at ht <;> cases ht
  refine h.queue_step rfl rfl rfl (by rw [hlocked]; rfl)
    (fun r hr => by simpa [Phase.locked] using Ne.symm hr) ⟨?_,?_⟩ ?_ (h.handover q)
  · simpa only [hdeq, Phase.position] using hcore.tracked
  · simpa only [hdeq, Phase.attempt] using hcore.current
  · have horder := h.order q
    rw [h.inFlight_eq hlocked, hdeq] at horder
    simpa [Phase.locked, Phase.table] using horder

theorem Inv.output_step {immediate : Bool} {ret : Int} (h : s.Inv)
    (ht : s.step immediate (.output c ret) = some t) : t.Inv := by
  simp only [step] at ht
  split at ht <;> cases ht
  rename_i q caller outputEvTbl hout
  have hlocked : (s.core c).phase.locked = some q := by rw [hout]; rfl
  have hcore := h.cores c
  refine h.queue_step rfl rfl rfl (by rw [hlocked]; rfl)
    (fun r hr => by simpa [Phase.locked] using Ne.symm hr) ⟨?_,?_⟩ ?_
    ((h.handover q).batch outputEvTbl ret.toNat)
  · simpa only [hout, Phase.position] using hcore.tracked
  · simpa only [hout, Phase.attempt] using hcore.current
  · have horder := h.order q
    rw [h.inFlight_eq hlocked, hout] at horder
    simpa [Phase.locked, Phase.table, Queue.output] using horder

theorem Inv.unlock_step {immediate : Bool} (h : s.Inv)
    (ht : s.step immediate (.unlock c) = some t) : t.Inv := by
  simp only [step] at ht
  split at ht <;> cases ht
  rename_i q caller hunlock
  have hlocked : (s.core c).phase.locked = some q := by rw [hunlock]; rfl
  have hattempt : (s.core c).phase.attempt = some (q,caller) := by rw [hunlock]; rfl
  refine h.lock_step rfl rfl rfl (fun d hne hd => ?_) (fun r hr => ?_)
    (fun d => ?_) (fun r _ => ?_) ?_ ?_ ((h.cores c).attempted hattempt)
  · rw [← h.lock] at hd hlocked
    exact hne (Option.some.inj (hd.symm.trans hlocked))
  · rw [hlocked]
    simpa using Ne.symm hr
  · simp [Core.locked_attempted]
  · simp [Core.locked_attempted]
  · cases caller <;> rfl
  · rw [h.inFlight_eq hlocked, hunlock]
    rfl

/-- Each lock has one holder and each queue its order, after any step. -/
theorem inv_step {immediate : Bool} {l : Label ι κ E} (h : s.Inv)
    (ht : s.step immediate l = some t) : t.Inv := by
  cases l with
  | send c q events numEnq => exact h.send_step ht
  | roundEnd c => exact h.roundEnd_step ht
  | loop c => exact h.loop_step ht
  | trylock c => exact h.trylock_step ht
  | dequeue c deq => exact h.dequeue_step ht
  | output c ret => exact h.output_step ht
  | unlock c => exact h.unlock_step ht

end State
end EmOdp.OutputQueue
