import EmOdp.QueueTable.OutputQueues

/-! The creation of queues keeps the output queues consistent. -/
namespace EmOdp.QueueTable
open Lib
variable {ι γ α : Type}

namespace State
variable {s t u : State ι γ α} {q : ι}

section Create
variable [DecidableEq ι] {p : Create ι γ α}

private theorem sameOutputs_queueSetup [DecidableEq γ] (hp : p.type ≠ .output) :
    SameOutputs s (s.queueSetup q p).1 := by
  simp only [queueSetup, queueSetupScheduled, queueSetupUnscheduled, queueSetupLocal]
  split
  case h_6 htype => exact absurd htype hp
  all_goals repeat' split
  all_goals exact ⟨rfl,rfl,rfl⟩

variable [DecidableEq γ] [DecidableEq α] [Fintype ι]

theorem OutputsOk.createOther (h : s.OutputsOk) (hp : p.type ≠ .output) (hfresh : s.Fresh q p) :
    (s.queueCreate q p).1.OutputsOk := by
  have hq : ¬s.IsOutput q := fun hc => Bool.noConfusion (hc.1.symm.trans hfresh.1)
  obtain ⟨helems,htype⟩ := sameElems_queueSetup hfresh.2.1
  have hsame := sameOutputs_queueSetup (s := s) (q := q) hp
  rcases s.queueCreate_cases q p with ⟨-,he⟩ | ⟨u,hu,he⟩ | ⟨u,-,hu,he⟩
  · rw [he]
    exact h
  · rw [hu] at helems hsame
    rw [he]
    exact h.same hq (queueFree_not_output u q) (helems.update _)
      (hsame.trans ⟨rfl,rfl,rfl⟩)
  · rw [hu] at helems hsame htype
    have hok : u.OutputsOk := h.same hq (fun hc => hp (htype.symm.trans hc.2)) helems hsame
    rcases he with he | ⟨a,he⟩
    · rw [he]
      exact hok
    · rw [he]
      exact ⟨hok.count,hok.idx,hok.idxUnique,hok.args,hok.argsUnique⟩

end Create

end State

/-- The functions that the setup of an output queue calls succeed. -/
def Create.CalleesOk (p : Create ι γ α) : Prop :=
  (p.hasArgs = true → p.argsEvent ≠ none) ∧ p.nonblockingOk = true ∧ p.odpQueueOk = true

instance (p : Create ι γ α) : Decidable p.CalleesOk := by
  unfold Create.CalleesOk
  infer_instance

namespace State
variable {s t : State ι γ α} {q : ι} [DecidableEq ι]

section
variable {p : Create ι γ α}

/-- What a successful setup of an output queue leaves behind. -/
structure OutputSetup (s t : State ι γ α) (q : ι) (p : Create ι γ α)
    (i : Fin emMaxOutputQueues) : Prop where
  count : t.outputQueueCount = s.outputQueueCount
  idxFree : t.outputQueueIdxFree = Function.update s.outputQueueIdxFree i false
  argsEvents : t.argsEvents =
    if p.hasArgs then p.argsEvent.elim s.argsEvents (insert · s.argsEvents) else s.argsEvents
  elem : t.elem = Function.update s.elem q (t.elem q)
  isOutput : (s.elem q).type = .output → (s.elem q).allocated = true → t.IsOutput q
  idx : (t.elem q).idx = i
  argsEvent : (t.elem q).argsEvent = if p.hasArgs then p.argsEvent else none

private theorem queueSetupOutputArgs_spec {i : Fin emMaxOutputQueues} (hok : p.CalleesOk)
    (hfind : (List.finRange emMaxOutputQueues).find? s.outputQueueIdxFree = some i) :
    ∃ t, (s.takeIdx q).queueSetupOutputArgs q p = (t,true) ∧ OutputSetup s t q p i := by
  obtain ⟨hargs,hnb,hodp⟩ := hok
  simp only [takeIdx, hfind, queueSetupOutputArgs]
  cases hp : p.hasArgs with
  | false =>
    simp only [hnb, hodp, Bool.false_eq_true, if_false, Bool.not_true, Bool.or_self]
    refine ⟨_,rfl,?_⟩
    constructor <;> simp [setElem, IsOutput, hp]
    exact fun h h' => ⟨h',h⟩
  | true =>
    obtain ⟨e,he⟩ := Option.ne_none_iff_exists'.1 (hargs hp)
    simp only [hnb, hodp, he, if_true, Bool.false_eq_true, if_false, Bool.not_true, Bool.or_self]
    refine ⟨_,rfl,?_⟩
    constructor <;> simp [setElem, IsOutput, hp, he]
    exact fun h h' => ⟨h',h⟩

section
variable [DecidableEq γ]

/-- Too many output queues: the count is as before. -/
private theorem queueSetup_tooMany (hp : p.type = .output)
    (hcount : BitVec.ofNat 32 emMaxOutputQueues < s.outputQueueCount + 1) :
    ∃ t, s.queueSetup q p = (t,false) ∧ SameOutputs s t := by
  simp only [queueSetup, hp, queueSetupOutput, queueSetupCommon, setElem, if_pos hcount, errorDecCnt]
  exact ⟨_,rfl,BitVec.add_sub_cancel _ _,rfl,rfl⟩

/-- The setup of an output queue succeeds and counts it. -/
private theorem queueSetup_output {i : Fin emMaxOutputQueues} (hp : p.type = .output)
    (hfn : p.outputFn = true) (hok : p.CalleesOk)
    (hcount : ¬BitVec.ofNat 32 emMaxOutputQueues < s.outputQueueCount + 1)
    (hfind : (List.finRange emMaxOutputQueues).find? s.outputQueueIdxFree = some i) :
    ∃ t e, s.queueSetup q p = (t,true) ∧
      OutputSetup { s.setElem q e with outputQueueCount := s.outputQueueCount + 1 } t q p i ∧
      e.type = .output ∧ e.allocated = true := by
  let e : QueueElem ι γ α :=
    { s.elem q with
      allocated := true, type := .output, state := .unscheduled, queueGroup := none
      atomicGroup := p.atomicGroup, highestPrio := p.highestPrio, odpQueue := false
      isPktin := false, aggrQueues := [] }
  let u : State ι γ α := { s.setElem q e with outputQueueCount := s.outputQueueCount + 1 }
  have hstart : s.queueSetup q p = (u.takeIdx q).queueSetupOutputArgs q p := by
    simp only [queueSetup, hp, queueSetupOutput, queueSetupCommon]
    rw [if_neg (by simpa [setElem] using hcount)]
    simp [hfn, u, e, setElem]
  obtain ⟨t,heq,hsetup⟩ := queueSetupOutputArgs_spec (s := u) (q := q) hok hfind
  exact ⟨t,e,hstart.trans heq,hsetup,rfl,rfl⟩

variable [DecidableEq α] [Fintype ι]

/-- An output queue is created while there are fewer than `EM_MAX_OUTPUT_QUEUES`. -/
theorem created_output (h : s.OutputsOk) (hfresh : s.Fresh q p) (hp : p.type = .output)
    (hcheck : s.queueCreateCheckArgs p = true) (hok : p.CalleesOk)
    (hlt : (Finset.univ.filter s.IsOutput).card < emMaxOutputQueues) :
    ∃ t, s.queueCreate q p = (t,true) ∧ t.OutputsOk ∧ t.IsOutput q ∧
      ∀ r, r ≠ q → t.elem r = s.elem r := by
  obtain ⟨i,hfind,hi⟩ := h.exists_free hlt
  have hargs : p.atomicGroup = none ∧ p.outputFn = true := by
    simp only [queueCreateCheckArgs, hp, Bool.and_eq_true, Option.isNone_iff_eq_none] at hcheck
    exact ⟨hcheck.1.2,hcheck.2⟩
  have hcount : ¬BitVec.ofNat 32 emMaxOutputQueues < s.outputQueueCount + 1 := by
    rw [BitVec.not_lt, BitVec.le_def, BitVec.toNat_add, h.count_toNat]
    simp only [emMaxOutputQueues] at hlt ⊢
    rw [Nat.mod_eq_of_lt (by simp; omega)]
    simp
    omega
  obtain ⟨t,e,heq,hsetup,htype,halloc⟩ := queueSetup_output (q := q) hp hargs.2 hok hcount hfind
  have helem : ∀ r, r ≠ q → t.elem r = s.elem r := fun r hr => by
    rw [hsetup.elem]
    simp [setElem, Function.update_of_ne hr]
  have hout : t.IsOutput q := hsetup.isOutput (by simp [setElem, htype]) (by simp [setElem, halloc])
  have hq : ¬s.IsOutput q := fun hc => Bool.noConfusion (hc.1.symm.trans hfresh.1)
  refine ⟨t,by simp [queueCreate, hcheck, heq, hargs.1],?_,hout,helem⟩
  refine h.add hq hi hout hsetup.count (fun j => ?_) hsetup.idx (fun r hr => .inl (helem r hr))
    (fun e => ?_) fun e he => ?_
  · rw [hsetup.idxFree, Function.update_apply]
    rfl
  · rw [hsetup.argsEvents, hsetup.argsEvent]
    cases hargs : p.hasArgs with
    | false => simp [setElem]
    | true => cases he : p.argsEvent <;> simp [setElem, eq_comm, or_comm]
  · rw [hsetup.argsEvent] at he
    split at he
    · exact hfresh.2.2 e he
    · cases he

theorem OutputsOk.createOutput (h : s.OutputsOk) (hfresh : s.Fresh q p) (hp : p.type = .output)
    (hcond : s.queueCreateCheckArgs p = true →
      s.outputQueueCount < BitVec.ofNat 32 emMaxOutputQueues → p.CalleesOk) :
    (s.queueCreate q p).1.OutputsOk := by
  by_cases hcheck : s.queueCreateCheckArgs p = true
  · by_cases hlt : s.outputQueueCount < BitVec.ofNat 32 emMaxOutputQueues
    · have hcard : (Finset.univ.filter s.IsOutput).card < emMaxOutputQueues := by
        rw [BitVec.lt_def, h.count_toNat] at hlt
        simpa [emMaxOutputQueues] using hlt
      obtain ⟨t,heq,hok,-⟩ := created_output h hfresh hp hcheck (hcond hcheck hlt) hcard
      rw [heq]
      exact hok
    · have hle := h.card_le
      have hmany : BitVec.ofNat 32 emMaxOutputQueues < s.outputQueueCount + 1 := by
        rw [BitVec.not_lt, BitVec.le_def, h.count_toNat] at hlt
        rw [BitVec.lt_def, BitVec.toNat_add, h.count_toNat]
        simp only [emMaxOutputQueues] at hlt hle ⊢
        rw [Nat.mod_eq_of_lt (by simp; omega)]
        simp at hlt ⊢
        omega
      obtain ⟨t,heq,hsame⟩ := queueSetup_tooMany (q := q) hp hmany
      have hq : ¬s.IsOutput q := fun hc => Bool.noConfusion (hc.1.symm.trans hfresh.1)
      have helems := (sameElems_queueSetup hfresh.2.1).1
      rw [heq] at helems
      simp only [queueCreate, hcheck, heq, Bool.not_true, Bool.false_eq_true, if_false]
      exact h.same hq (queueFree_not_output t q) (helems.update _)
        (hsame.trans ⟨rfl,rfl,rfl⟩)
  · simp only [queueCreate, hcheck, Bool.not_false, if_true]
    exact h

end

end

end State

end EmOdp.QueueTable
