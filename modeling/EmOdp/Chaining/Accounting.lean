import Mathlib.Tactic.Common
import EmOdp.Chaining.Machine

/-! The post-count of a group against the events that were processed and that left. -/
namespace EmOdp.Chaining
open Lib EventGroup
variable {ι γ : Type}

namespace State

/-- The post-count of an applied group counts the events that are neither processed nor
left, and the notifications were sent when there were none. -/
structure Books (s : State ι γ) : Prop where
  idle : ∀ g, (s.counts g).applied = false → (s.counts g).postCnt = 0
  balance : ∀ g, (s.counts g).applied = true → (s.counts g).postCnt.toNat +
    (s.account g).processed + (s.account g).left = (s.account g).events
  completed : ∀ a ∈ s.completed, a.events = a.processed + a.left

/-- The current event group in a call is the one of the call, where its events were
counted, and counts are not zero. -/
structure CoreOk (k : Core γ) : Prop where
  round : ∀ num ∈ k.round, 0 < num
  call : ∀ call ∈ k.call, 0 < call.num
  current : ∀ call ∈ k.call, call.pc ≠ .tagged →
    k.current.egrpElem = none ∨ k.current = ⟨some call.egrp,call.egrpGen⟩

variable {s t : State ι γ} {c d : ι} {g egrp : γ}

theorem Books.congr (h : s.Books) (hcounts : t.counts = s.counts) (haccount : t.account = s.account)
    (hcompleted : t.completed = s.completed) : t.Books := by
  refine ⟨fun g => ?_,fun g => ?_,?_⟩
  · rw [hcounts]
    exact h.idle g
  · rw [hcounts, haccount]
    exact h.balance g
  · rw [hcompleted]
    exact h.completed

variable [DecidableEq γ] {w : EgrpCounter} {a : Account}

/-- Only the word of one group has changed, and not its post-count. -/
theorem Books.recount (h : s.Books) (hcounts : t.counts = Function.update s.counts egrp w)
    (hpost : w.postCnt = (s.counts egrp).postCnt) (happlied : w.applied = (s.counts egrp).applied)
    (haccount : t.account = s.account) (hcompleted : t.completed = s.completed) : t.Books := by
  refine ⟨fun g => ?_,fun g => ?_,by rw [hcompleted]; exact h.completed⟩
  all_goals rw [hcounts]
  all_goals by_cases hg : g = egrp
  · subst hg
    rw [Function.update_self, happlied, hpost]
    exact h.idle g
  · rw [Function.update_of_ne hg]
    exact h.idle g
  · subst hg
    rw [Function.update_self, happlied, hpost, haccount]
    exact h.balance g
  · rw [Function.update_of_ne hg, haccount]
    exact h.balance g

/-- The word and the account of one group have changed. -/
theorem Books.rebook (h : s.Books) (hcounts : t.counts = Function.update s.counts egrp w)
    (haccount : t.account = Function.update s.account egrp a)
    (hidle : w.applied = false → w.postCnt = 0)
    (hbalance : w.applied = true → w.postCnt.toNat + a.processed + a.left = a.events)
    (hcompleted : ∀ a ∈ t.completed, a.events = a.processed + a.left) : t.Books := by
  refine ⟨fun g => ?_,fun g => ?_,hcompleted⟩
  all_goals rw [hcounts]
  all_goals by_cases hg : g = egrp
  · subst hg
    rw [Function.update_self]
    exact hidle
  · rw [Function.update_of_ne hg]
    exact h.idle g
  · subst hg
    rw [Function.update_self, haccount, Function.update_self]
    exact hbalance
  · rw [Function.update_of_ne hg, haccount, Function.update_of_ne hg]
    exact h.balance g

omit [DecidableEq γ] in
theorem Books.applied (h : s.Books) (hpost : 0 < (s.counts g).postCnt.toNat) :
    (s.counts g).applied = true := by
  by_contra hc
  rw [Bool.not_eq_true] at hc
  rw [h.idle g hc] at hpost
  exact absurd hpost (by simp)

/-- `decr` events of the group are counted by the post-count and by the account. -/
theorem Books.counted {decr : Nat} {egrpGen : Gen} (h : s.Books) (hdecr : 0 < decr)
    (hw : (s.counts egrp).postCountDecrement decr egrpGen = some w)
    (hevents : a.events = (s.account egrp).events)
    (hsum : a.processed + a.left = (s.account egrp).processed + (s.account egrp).left + decr)
    (hcounts : t.counts = Function.update s.counts egrp w)
    (haccount : t.account = Function.update s.account egrp a)
    (hcompleted : t.completed = if w.postCnt = 0 then a :: s.completed else s.completed) :
    t.Books := by
  obtain ⟨hle,-,hpost,-,-,happlied⟩ := EgrpCounter.postCountDecrement_some hw
  have ha := h.applied (g := egrp) (by omega)
  have hbalance := h.balance egrp ha
  rw [ha] at happlied
  refine h.rebook hcounts haccount (fun hf => ?_) (fun hf => by omega) ?_
  · by_contra hc
    rw [happlied, if_neg hc] at hf
    cases hf
  · rw [hcompleted]
    split
    · rename_i hzero
      intro b hb
      rcases List.mem_cons.1 hb with rfl | hb
      · rw [hzero] at hpost
        have : (0 : BitVec egrpCntBits).toNat = 0 := rfl
        omega
      · exact h.completed b hb
    · exact h.completed

variable [DecidableEq ι]

theorem books_setLocal {egrpGen : Gen} {decr : Nat} (h : s.Books) :
    (s.eventGroupSetLocal c egrp egrpGen decr).Books := by
  simp only [eventGroupSetLocal]
  split
  · exact h.congr rfl rfl rfl
  · rename_i w hw
    obtain ⟨-,ha,-,-,hpost,happlied,-⟩ := EgrpCounter.preCountDecrement_some hw
    exact h.recount rfl hpost (happlied.trans ha.symm) rfl rfl

theorem postCnt_setLocal {egrpGen : Gen} {decr : Nat} (g : γ) :
    ((s.eventGroupSetLocal c egrp egrpGen decr).counts g).postCnt = (s.counts g).postCnt := by
  simp only [eventGroupSetLocal]
  split
  · rfl
  · rename_i w hw
    obtain ⟨-,-,-,-,hpost,-⟩ := EgrpCounter.preCountDecrement_some hw
    by_cases hg : g = egrp
    · subst hg
      simp [setCurrent, setCore, hpost]
    · simp [setCurrent, setCore, Function.update_of_ne hg]

omit [DecidableEq γ] [DecidableEq ι] in
theorem postCountDecrement_of_valid {decr : Nat} {egrpGen : Gen}
    (h : (s.counts g).validPostCnt decr egrpGen = true) :
    ∃ w, (s.counts g).postCountDecrement decr egrpGen = some w :=
  ⟨_,by simp only [EgrpCounter.postCountDecrement, h, if_true]; rfl⟩

omit [DecidableEq γ] [DecidableEq ι] in
theorem postCountDecrement_of_not_valid {decr : Nat} {egrpGen : Gen}
    (h : ¬(s.counts g).validPostCnt decr egrpGen = true) :
    (s.counts g).postCountDecrement decr egrpGen = none := by
  simp only [EgrpCounter.postCountDecrement, if_neg h]

omit [DecidableEq ι] in
theorem books_countProcessed {num : Nat} (h : s.Books) (hnum : 0 < num) :
    (s.countProcessed c num).Books := by
  simp only [countProcessed]
  split
  · exact h
  simp only [eventGroupCountDecrement]
  split
  · rename_i hvalid
    obtain ⟨w,hw⟩ := postCountDecrement_of_valid hvalid
    simp only [hw]
    refine h.counted hnum hw ?_ ?_ rfl rfl rfl
    · rfl
    · dsimp only
      omega
  · rename_i hvalid
    simp only [postCountDecrement_of_not_valid hvalid]
    exact h

/-- The group counts the events of the call: they passed the pre-count and pass the
post-count. -/
def Accepts (s : State ι γ) (c : ι) (k : Call γ) : Prop :=
  (s.core c).current.egrpElem.isSome = true ∧
    (s.counts k.egrp).validPostCnt k.num k.egrpGen = true

instance (s : State ι γ) (c : ι) (k : Call γ) : Decidable (s.Accepts c k) := by
  unfold Accepts
  infer_instance

/-- The counting at the end of a call, by whether the group accepts it. -/
theorem returnSent_cases {k : Call γ} (numSent : Nat)
    (hcurrent : (s.core c).current.egrpElem = none ∨
      (s.core c).current = ⟨some k.egrp,k.egrpGen⟩) :
    (¬s.Accepts c k ∧ (s.returnSent c k numSent).counts = s.counts ∧
      (s.returnSent c k numSent).completed = s.completed) ∨
    (s.Accepts c k ∧ ∃ w, (s.counts k.egrp).postCountDecrement k.num k.egrpGen = some w ∧
      (s.returnSent c k numSent).counts = Function.update s.counts k.egrp w ∧
      (s.returnSent c k numSent).completed = if w.postCnt = 0 then
        { s.account k.egrp with left := (s.account k.egrp).left + numSent } :: s.completed
        else s.completed) := by
  rcases hcurrent with hnone | hcurrent
  · left
    refine ⟨fun h => ?_,?_,?_⟩
    · rw [Accepts, hnone] at h
      exact Bool.noConfusion h.1
    · simp only [returnSent, hnone, setAccount, setCore]
    · simp only [returnSent, hnone, setAccount, setCore]
  · simp only [Accepts, returnSent, hcurrent, eventGroupCountDecrement, Option.isSome_some, true_and]
    by_cases hvalid : (s.counts k.egrp).validPostCnt k.num k.egrpGen = true
    · obtain ⟨w,hw⟩ := postCountDecrement_of_valid hvalid
      refine .inr ⟨hvalid,w,hw,?_⟩
      simp only [hw, setAccount, setCore, and_self]
    · refine .inl ⟨hvalid,?_⟩
      simp only [postCountDecrement_of_not_valid hvalid, setAccount, setCore, and_self]

theorem account_returnSent {k : Call γ} {numSent : Nat} :
    (s.returnSent c k numSent).account = Function.update s.account k.egrp
      { s.account k.egrp with left := (s.account k.egrp).left + numSent } := by
  simp only [returnSent, eventGroupCountDecrement, setAccount, setCore]
  repeat' split
  all_goals rfl

theorem core_returnSent {k : Call γ} {numSent : Nat} :
    ((s.returnSent c k numSent).core c).current = k.saved := by
  simp [returnSent, setCore]

/-- The call counts exactly what was sent if and only if everything was sent that the group
accepts. -/
theorem returnSent_postCnt_iff {k : Call γ} {numSent : Nat}
    (hcurrent : (s.core c).current.egrpElem = none ∨
      (s.core c).current = ⟨some k.egrp,k.egrpGen⟩) :
    (s.counts k.egrp).postCnt.toNat =
        ((s.returnSent c k numSent).counts k.egrp).postCnt.toNat + numSent ↔
      numSent = if s.Accepts c k then k.num else 0 := by
  rcases returnSent_cases numSent hcurrent with ⟨hnot,hcounts,-⟩ | ⟨hacc,w,hw,hcounts,-⟩
  · rw [hcounts, if_neg hnot]
    omega
  · obtain ⟨hle,-,hpost,-⟩ := EgrpCounter.postCountDecrement_some hw
    rw [hcounts, if_pos hacc, Function.update_self]
    omega

theorem books_returnSent {k : Call γ} {numSent : Nat} (h : s.Books) (hnum : 0 < k.num)
    (hcurrent : (s.core c).current.egrpElem = none ∨
      (s.core c).current = ⟨some k.egrp,k.egrpGen⟩)
    (hsent : numSent = if s.Accepts c k then k.num else 0) :
    (s.returnSent c k numSent).Books := by
  rcases returnSent_cases numSent hcurrent with
    ⟨hnot,hcounts,hcompleted⟩ | ⟨hacc,w,hw,hcounts,hcompleted⟩
  · rw [if_neg hnot] at hsent
    refine h.congr hcounts ?_ hcompleted
    rw [account_returnSent, hsent]
    exact Function.update_eq_self _ _
  · rw [if_pos hacc] at hsent
    refine h.counted hnum hw ?_ ?_ hcounts account_returnSent hcompleted
    · rfl
    · dsimp only
      omega

end State

end EmOdp.Chaining
