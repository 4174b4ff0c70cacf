import EmOdp.Chaining.Steps

/-! A call of a core from its start to its return, whatever the other cores do meanwhile. -/
namespace EmOdp.Chaining
open Lib EventGroup
variable {ι γ : Type} [DecidableEq ι] [DecidableEq γ]

namespace State
variable {s t : State ι γ} {c d : ι} {egrp : γ}

/-- A call goes on, whatever the cores do, until it returns. -/
theorem call_step {l : Label ι γ} {k : Call γ} (hcall : (s.core c).call = some k)
    (ht : s.step l = some t) (hl : l ≠ .returned c) :
    ∃ pc, (t.core c).call = some { k with pc } := by
  have hkept (hcore : t.core c = s.core c) : ∃ pc, (t.core c).call = some { k with pc } := by
    rw [hcore]
    exact ⟨k.pc,hcall⟩
  cases l with
  | receive d tag num =>
    simp only [step] at ht
    split at ht
    swap
    · cases ht
    rename_i hg
    have hd : c ≠ d := fun he => by
      rw [he, hg.2.1] at hcall
      cases hcall
    cases tag with
    | none =>
      cases ht
      exact hkept (Function.update_of_ne hd _ _)
    | some tag =>
      cases ht
      obtain ⟨current,-,hcore⟩ := core_setLocal (s.setCore d { s.core d with round := some num })
        d tag.1 tag.2 num
      refine hkept ?_
      rw [hcore]
      simp [setCore, Function.update_of_ne hd]
  | processingEnd d =>
    simp only [step] at ht
    split at ht <;> cases ht
    rename_i num hnone hround
    have hd : c ≠ d := fun he => by
      rw [he, hnone] at hcall
      cases hcall
    exact hkept (by simp [setCurrent, setCore, core_countProcessed, Function.update_of_ne hd])
  | assign d egrp =>
    simp only [step] at ht
    split at ht
    swap
    · cases ht
    rename_i num hnone hround hcurrent
    have hd : c ≠ d := fun he => by
      rw [he, hnone] at hcall
      cases hcall
    split at ht <;> cases ht
    · exact ⟨k.pc,hcall⟩
    · exact hkept (Function.update_of_ne hd _ _)
  | roundEnd d =>
    simp only [step] at ht
    split at ht <;> cases ht
    rename_i num hnone hround
    have hd : c ≠ d := fun he => by
      rw [he, hnone] at hcall
      cases hcall
    exact hkept (by simp [setCore, core_countProcessed, Function.update_of_ne hd])
  | send d egrp num =>
    simp only [step] at ht
    split at ht <;> cases ht
    rename_i hg
    have hd : c ≠ d := fun he => by
      rw [he, hg.1] at hcall
      cases hcall
    exact hkept (Function.update_of_ne hd _ _)
  | setLocal d =>
    simp only [step] at ht
    split at ht <;> cases ht
    rename_i egrp egrpGen num saved hd
    obtain ⟨current,-,hcore⟩ := core_setLocal (s.setCore d { s.core d with
      call := some ⟨egrp,egrpGen,num,saved,.setLocal⟩ }) d egrp egrpGen num
    by_cases he : c = d
    · subst he
      obtain rfl : k = ⟨egrp,egrpGen,num,saved,.tagged⟩ := Option.some.inj (hcall.symm.trans hd)
      refine ⟨.setLocal,?_⟩
      rw [hcore]
      simp [setCore]
    · refine hkept ?_
      rw [hcore]
      simp [setCore, Function.update_of_ne he]
  | sendDevice d outcome =>
    simp only [step] at ht
    split at ht
    swap
    · cases ht
    rename_i egrp egrpGen num saved hd
    split at ht <;> cases ht
    by_cases he : c = d
    · subst he
      obtain rfl : k = ⟨egrp,egrpGen,num,saved,.setLocal⟩ := Option.some.inj (hcall.symm.trans hd)
      exact ⟨.sent outcome.sendChaining,by simp [setCore]⟩
    · exact hkept (Function.update_of_ne he _ _)
  | returned d =>
    simp only [step] at ht
    split at ht <;> cases ht
    have hd : c ≠ d := fun he => hl (by rw [he])
    refine hkept ?_
    simp only [returnSent, eventGroupCountDecrement, setAccount, setCore]
    repeat' split
    all_goals exact Function.update_of_ne hd _ _
  | apply egrp count =>
    simp only [step] at ht
    split at ht
    swap
    · cases ht
    split at ht <;> cases ht <;> exact ⟨k.pc,hcall⟩
  | increment d count =>
    simp only [step] at ht
    split at ht
    · cases ht
      exact ⟨k.pc,hcall⟩
    split at ht
    swap
    · cases ht
    split at ht <;> cases ht <;> exact ⟨k.pc,hcall⟩
  | abort d egrp =>
    simp only [step] at ht
    split at ht
    · cases ht
      exact ⟨k.pc,hcall⟩
    split at ht <;> cases ht
    · by_cases he : c = d
      · subst he
        exact ⟨k.pc,by simpa [setCurrent, setCore] using hcall⟩
      · exact hkept (Function.update_of_ne he _ _)
    · exact ⟨k.pc,hcall⟩

/-- The current event group that a call has saved is kept until the call returns. -/
theorem saved_path {ls : List (Label ι γ)} {saved : Current γ}
    (hpath : System.Path (machine ι γ) s ls t)
    (hcall : ∃ k, (s.core c).call = some k ∧ k.saved = saved) (hls : ∀ l ∈ ls, l ≠ .returned c) :
    ∃ k, (t.core c).call = some k ∧ k.saved = saved := by
  induction hpath with
  | nil => exact hcall
  | cons ht _ ih =>
    obtain ⟨k,hk,hsaved⟩ := hcall
    obtain ⟨pc,hpc⟩ := call_step hk ht (hls _ (by simp))
    exact ih ⟨_,hpc,hsaved⟩ fun l hl => hls l (List.mem_cons_of_mem _ hl)

/-- The current event group of the core is the same after the call as before it. -/
theorem current_restored {s₀ s₁ : State ι γ} {num : Nat} {ls : List (Label ι γ)}
    (hsend : s₀.step (.send c egrp num) = some s₁) (hpath : System.Path (machine ι γ) s₁ ls s)
    (hls : ∀ l ∈ ls, l ≠ .returned c) (ht : s.step (.returned c) = some t) :
    (t.core c).current = (s₀.core c).current := by
  simp only [step] at hsend
  split at hsend <;> cases hsend
  have hstart : ((s₀.setCore c { s₀.core c with
      call := some ⟨egrp,(s₀.counts egrp).gen,num,(s₀.core c).current,.tagged⟩ }).core c).call =
      some ⟨egrp,(s₀.counts egrp).gen,num,(s₀.core c).current,.tagged⟩ := by
    simp only [setCore, Function.update_self]
  obtain ⟨k,hcall,hsaved⟩ := saved_path hpath ⟨_,hstart,rfl⟩ hls
  simp only [step] at ht
  split at ht
  swap
  · cases ht
  rename_i hk
  obtain rfl := Option.some.inj (hcall.symm.trans hk)
  rw [← Option.some.inj ht, core_returnSent]
  exact hsaved

end State
end EmOdp.Chaining
