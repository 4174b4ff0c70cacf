import EmOdp.Chaining.Accounting

/-! What a step does to the counts of the event groups and to the calls of the cores. -/
namespace EmOdp.Chaining
open Lib EventGroup
variable {ι γ : Type} [DecidableEq ι] [DecidableEq γ]

namespace State
variable {s t : State ι γ} {c d : ι} {egrp : γ}

theorem core_setLocal (s : State ι γ) (c : ι) (egrp : γ) (egrpGen : Gen) (decr : Nat) :
    ∃ current, (current.egrpElem = none ∨ current = ⟨some egrp,egrpGen⟩) ∧
      (s.eventGroupSetLocal c egrp egrpGen decr).core =
        Function.update s.core c { s.core c with current } := by
  simp only [eventGroupSetLocal]
  split
  · exact ⟨_,.inl rfl,rfl⟩
  · exact ⟨_,.inr rfl,rfl⟩

omit [DecidableEq ι] in
theorem core_countProcessed (s : State ι γ) (c : ι) (num : Nat) :
    (s.countProcessed c num).core = s.core := by
  simp only [countProcessed, eventGroupCountDecrement, setAccount]
  repeat' split
  all_goals rfl

omit [DecidableEq γ] in
private theorem coreOk_update {k : Core γ} (h : ∀ d, CoreOk (s.core d))
    (hcore : t.core = Function.update s.core c k) (hk : CoreOk k) : ∀ d, CoreOk (t.core d) := by
  intro d
  rw [hcore]
  by_cases hd : d = c
  · subst hd
    rwa [Function.update_self]
  · rw [Function.update_of_ne hd]
    exact h d

omit [DecidableEq ι] [DecidableEq γ] in
/-- A core that begins, ends or leaves a group in a round is in no call. -/
private theorem coreOk_round {k : Core γ} (hcall : k.call = none)
    (hround : ∀ num ∈ k.round, 0 < num) : CoreOk k := by
  refine ⟨hround,?_,?_⟩ <;>
  · intro call hc
    rw [hcall] at hc
    cases hc

theorem cores_step {l : Label ι γ} (h : ∀ d, CoreOk (s.core d)) (ht : s.step l = some t) :
    ∀ d, CoreOk (t.core d) := by
  cases l with
  | receive c tag num =>
    simp only [step] at ht
    split at ht
    swap
    · cases ht
    rename_i hg
    have hround : ∀ current : Current γ,
        CoreOk { s.core c with current, round := some num } := fun current =>
      coreOk_round hg.2.1 fun n hn => by cases hn; exact hg.2.2
    cases tag with
    | none =>
      cases ht
      exact coreOk_update h rfl (hround _)
    | some tag =>
      cases ht
      obtain ⟨current,-,hcore⟩ := core_setLocal (s.setCore c { s.core c with round := some num })
        c tag.1 tag.2 num
      refine coreOk_update (c := c) h (hcore.trans ?_) (hround current)
      simp [setCore]
  | processingEnd c =>
    simp only [step] at ht
    split at ht <;> cases ht
    rename_i num hcall hround
    refine coreOk_update (c := c) (k := { s.core c with
      current := { (s.core c).current with egrpElem := none } }) h ?_
      (coreOk_round hcall (h c).round)
    simp [setCurrent, setCore, core_countProcessed]
  | assign c egrp =>
    simp only [step] at ht
    split at ht
    swap
    · cases ht
    rename_i num hcall hround hcurrent
    split at ht <;> cases ht
    · exact h
    · exact coreOk_update h rfl (coreOk_round hcall (h c).round)
  | roundEnd c =>
    simp only [step] at ht
    split at ht <;> cases ht
    rename_i num hcall hround
    refine coreOk_update (c := c) (k := { s.core c with
      current := { (s.core c).current with egrpElem := none }, round := none }) h ?_
      (coreOk_round hcall (fun _ h => by cases h))
    simp [setCore, core_countProcessed]
  | send c egrp num =>
    simp only [step] at ht
    split at ht <;> cases ht
    rename_i hg
    refine coreOk_update h rfl ⟨(h c).round,fun call hc => ?_,fun call hc hpc => ?_⟩
    · cases hc
      exact hg.2
    · cases hc
      exact absurd rfl hpc
  | setLocal c =>
    simp only [step] at ht
    split at ht <;> cases ht
    rename_i egrp egrpGen num saved hcall
    obtain ⟨current,hcurrent,hcore⟩ := core_setLocal (s.setCore c { s.core c with
      call := some ⟨egrp,egrpGen,num,saved,.setLocal⟩ }) c egrp egrpGen num
    refine coreOk_update (c := c) (k := { s.core c with
      current, call := some ⟨egrp,egrpGen,num,saved,.setLocal⟩ }) h
      (hcore.trans (by simp [setCore])) ⟨(h c).round,fun call hc => ?_,fun call hc _ => ?_⟩
    · cases hc
      exact (h c).call ⟨egrp,egrpGen,num,saved,.tagged⟩ hcall
    · cases hc
      exact hcurrent
  | sendDevice c outcome =>
    simp only [step] at ht
    split at ht
    swap
    · cases ht
    rename_i egrp egrpGen num saved hcall
    split at ht <;> cases ht
    refine coreOk_update h rfl ⟨(h c).round,fun call hc => ?_,fun call hc _ => ?_⟩
    · cases hc
      exact (h c).call ⟨egrp,egrpGen,num,saved,.setLocal⟩ hcall
    · cases hc
      exact (h c).current ⟨egrp,egrpGen,num,saved,.setLocal⟩ hcall (by simp)
  | returned c =>
    simp only [step] at ht
    split at ht <;> cases ht
    rename_i egrp egrpGen num saved numSent hcall
    refine coreOk_update (c := c) (k := { s.core c with current := saved, call := none }) h ?_
      (coreOk_round rfl (h c).round)
    simp only [returnSent, eventGroupCountDecrement, setAccount, setCore]
    repeat' split
    all_goals rfl
  | apply egrp count =>
    simp only [step] at ht
    split at ht
    swap
    · cases ht
    split at ht <;> cases ht <;> exact h
  | increment c count =>
    simp only [step] at ht
    split at ht
    · cases ht
      exact h
    split at ht
    swap
    · cases ht
    split at ht <;> cases ht <;> exact h
  | abort c egrp =>
    simp only [step] at ht
    split at ht
    · cases ht
      exact h
    split at ht <;> cases ht
    · exact coreOk_update h rfl ⟨(h c).round,(h c).call,fun _ _ _ => .inl rfl⟩
    · exact h

/-- Every chained send sends exactly what its group accepts. -/
def SendsAccepted (s : State ι γ) : Label ι γ → Prop
  | .returned c => ∀ k ∈ (s.core c).call, k.numSent = if s.Accepts c k then k.num else 0
  | _ => True

instance (s : State ι γ) (l : Label ι γ) : Decidable (s.SendsAccepted l) := by
  cases l <;> simp only [SendsAccepted] <;> infer_instance

theorem books_step {l : Label ι γ} (h : s.Books) (hcores : ∀ d, CoreOk (s.core d))
    (ht : s.step l = some t) (hsends : s.SendsAccepted l) : t.Books := by
  cases l with
  | receive c tag num =>
    simp only [step] at ht
    split at ht
    swap
    · cases ht
    have hround : (s.setCore c { s.core c with round := some num }).Books := h.congr rfl rfl rfl
    cases tag with
    | none =>
      cases ht
      exact hround
    | some tag =>
      cases ht
      exact books_setLocal hround
  | processingEnd c =>
    simp only [step] at ht
    split at ht <;> cases ht
    rename_i num hcall hround
    exact (books_countProcessed h ((hcores c).round num hround)).congr rfl rfl rfl
  | assign c egrp =>
    simp only [step] at ht
    split at ht
    swap
    · cases ht
    split at ht <;> cases ht
    · exact h
    · rename_i w hw
      obtain ⟨-,happlied,-,hpost,ha,-⟩ := EgrpCounter.emEventGroupAssign_some hw
      exact h.recount rfl hpost (ha.trans happlied.symm) rfl rfl
  | roundEnd c =>
    simp only [step] at ht
    split at ht <;> cases ht
    rename_i num hcall hround
    exact (books_countProcessed h ((hcores c).round num hround)).congr rfl rfl rfl
  | send c egrp num =>
    simp only [step] at ht
    split at ht <;> cases ht
    exact h.congr rfl rfl rfl
  | setLocal c =>
    simp only [step] at ht
    split at ht <;> cases ht
    refine books_setLocal (h.congr ?_ ?_ ?_) <;> rfl
  | sendDevice c outcome =>
    simp only [step] at ht
    split at ht
    swap
    · cases ht
    split at ht <;> cases ht
    exact h.congr rfl rfl rfl
  | returned c =>
    simp only [step] at ht
    split at ht <;> cases ht
    rename_i egrp egrpGen num saved numSent hcall
    have hnum := (hcores c).call _ hcall
    have hcurrent := (hcores c).current _ hcall (by simp)
    exact books_returnSent h hnum hcurrent (hsends _ hcall)
  | apply egrp count =>
    simp only [step] at ht
    split at ht
    swap
    · cases ht
    rename_i hc
    split at ht <;> cases ht
    · exact h
    · rename_i w hw
      obtain ⟨-,-,hpost,ha,-⟩ := EgrpCounter.emEventGroupApply_some hc.2 hw
      refine h.rebook rfl rfl (fun hf => ?_) (fun _ => ?_) h.completed
      · rw [ha] at hf
        cases hf
      · simpa using hpost
  | increment c count =>
    simp only [step] at ht
    split at ht
    · cases ht
      exact h
    rename_i egrp hcurrent
    split at ht
    swap
    · cases ht
    split at ht <;> cases ht
    · exact h
    · rename_i w hw
      obtain ⟨-,happlied,-,hpost,ha,-⟩ := EgrpCounter.emEventGroupIncrement_some hw
      have hbalance := h.balance egrp happlied
      refine h.rebook rfl rfl (fun hf => ?_) (fun _ => ?_) h.completed
      · rw [ha] at hf
        cases hf
      · dsimp only
        omega
  | abort c egrp =>
    simp only [step] at ht
    split at ht
    · cases ht
      exact h
    rename_i w hw
    obtain ⟨-,rfl⟩ := EgrpCounter.emEventGroupAbort_some hw
    have haborted : State.Books { s with
        counts := Function.update s.counts egrp
          { s.counts egrp with preCnt := 0, postCnt := 0, applied := false } } := by
      refine h.rebook (a := s.account egrp) rfl (Function.update_eq_self _ _).symm (fun _ => rfl)
        nofun h.completed
    split at ht <;> cases ht
    · exact haborted.congr rfl rfl rfl
    · exact haborted

end State
end EmOdp.Chaining
