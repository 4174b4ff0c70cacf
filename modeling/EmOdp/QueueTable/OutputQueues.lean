import Mathlib.Data.Fintype.Card
import EmOdp.QueueTable.Elements

/-! The output queues of the queue table: what their count, their indexes and their
argument events are when the table is consistent. -/
namespace EmOdp.QueueTable
open Lib
variable {ι γ α : Type}

namespace State

/-- `q` is an allocated output queue. -/
def IsOutput (s : State ι γ α) (q : ι) : Prop :=
  (s.elem q).allocated = true ∧ (s.elem q).type = .output

instance (s : State ι γ α) : DecidablePred s.IsOutput := fun _ => inferInstanceAs (Decidable (_ ∧ _))

/-- The number of output queues, their indexes and their argument events agree. -/
structure OutputsOk [Fintype ι] (s : State ι γ α) : Prop where
  count : s.outputQueueCount = BitVec.ofNat 32 (Finset.univ.filter s.IsOutput).card
  idx : ∀ i, s.outputQueueIdxFree i = false ↔ ∃ q, s.IsOutput q ∧ (s.elem q).idx = i
  idxUnique : ∀ q r, s.IsOutput q → s.IsOutput r → (s.elem q).idx = (s.elem r).idx → q = r
  args : ∀ e, e ∈ s.argsEvents ↔ ∃ q, s.IsOutput q ∧ (s.elem q).argsEvent = some e
  argsUnique : ∀ q r e, s.IsOutput q → s.IsOutput r → (s.elem q).argsEvent = some e →
    (s.elem r).argsEvent = some e → q = r

/-- The bookkeeping of the output queues is the same. -/
structure SameOutputs (s t : State ι γ α) : Prop where
  count : t.outputQueueCount = s.outputQueueCount
  idxFree : t.outputQueueIdxFree = s.outputQueueIdxFree
  argsEvents : t.argsEvents = s.argsEvents

variable {s t u : State ι γ α} {q r : ι}

theorem queueFree_not_output [DecidableEq ι] (s : State ι γ α) (q : ι) :
    ¬(s.queueFree q).IsOutput q :=
  fun hc => Bool.noConfusion ((queueFree_not_allocated s q).symm.trans hc.1)

theorem SameOutputs.refl (s : State ι γ α) : SameOutputs s s := ⟨rfl,rfl,rfl⟩

theorem SameOutputs.trans (h : SameOutputs s t) (h' : SameOutputs t u) : SameOutputs s u :=
  ⟨h'.count.trans h.count,h'.idxFree.trans h.idxFree,h'.argsEvents.trans h.argsEvents⟩

theorem sameOutputs_queueDestroy [DecidableEq ι] [DecidableEq α] (s : State ι γ α) (q : ι) (destroyOk : Bool) :
    SameOutputs s (s.queueDestroy q destroyOk).1 := by
  simp only [queueDestroy, atomicGroupRemoveQueue, atomicGroupRemQueueList]
  repeat' split
  all_goals exact ⟨rfl,rfl,rfl⟩

theorem IsOutput.live (h : s.IsOutput q) : (s.elem q).Live := by
  refine ⟨h.1,?_⟩
  rw [h.2]
  decide

theorem isOutput_iff (h : SameElems s.elem t.elem q) (hr : r ≠ q) :
    t.IsOutput r ↔ s.IsOutput r := by
  constructor
  · intro ht
    have he := h.eq_of_live hr ((h.live_iff hr).1 ht.live)
    simpa only [IsOutput, he] using ht
  · intro hs
    have he := h.eq_of_live hr hs.live
    simpa only [IsOutput, he] using hs

theorem IsOutput.elem_eq (hs : s.IsOutput r) (h : SameElems s.elem t.elem q) (hr : r ≠ q) :
    t.elem r = s.elem r := h.eq_of_live hr hs.live

theorem OutputsOk.same [Fintype ι] (h : s.OutputsOk) (hs : ¬s.IsOutput q) (ht : ¬t.IsOutput q)
    (helems : SameElems s.elem t.elem q) (hsame : SameOutputs s t) : t.OutputsOk := by
  have hout : ∀ r, t.IsOutput r ↔ s.IsOutput r := fun r => by
    by_cases hr : r = q
    · subst hr
      exact iff_of_false ht hs
    · exact isOutput_iff helems hr
  have hne : ∀ r, s.IsOutput r → r ≠ q := fun r hr he => hs (he ▸ hr)
  refine ⟨?_,fun i => ?_,fun r r' hr hr' he => ?_,fun e => ?_,fun r r' e hr hr' he he' => ?_⟩
  · rw [hsame.count, h.count]
    congr 2
    ext r
    simp [hout]
  · rw [hsame.idxFree, h.idx]
    refine exists_congr fun r => ?_
    rw [hout]
    exact and_congr_right fun hr => by rw [hr.elem_eq helems (hne r hr)]
  · rw [hout] at hr hr'
    rw [hr.elem_eq helems (hne r hr), hr'.elem_eq helems (hne r' hr')] at he
    exact h.idxUnique r r' hr hr' he
  · rw [hsame.argsEvents, h.args]
    refine exists_congr fun r => ?_
    rw [hout]
    exact and_congr_right fun hr => by rw [hr.elem_eq helems (hne r hr)]
  · rw [hout] at hr hr'
    rw [hr.elem_eq helems (hne r hr)] at he
    rw [hr'.elem_eq helems (hne r' hr')] at he'
    exact h.argsUnique r r' e hr hr' he he'

section Count
variable [Fintype ι] (h : s.OutputsOk)
include h

theorem OutputsOk.card_le : (Finset.univ.filter s.IsOutput).card ≤ emMaxOutputQueues := by
  have hinj : Set.InjOn (fun q => (s.elem q).idx) (Finset.univ.filter s.IsOutput : Finset ι) := by
    intro q hq r hr he
    simp only [Finset.mem_coe, Finset.mem_filter, Finset.mem_univ, true_and] at hq hr
    exact h.idxUnique q r hq hr he
  have hcard := Finset.card_le_card_of_injOn (t := Finset.univ) _ (fun _ _ => Finset.mem_univ _) hinj
  simpa using hcard

theorem OutputsOk.count_toNat :
    s.outputQueueCount.toNat = (Finset.univ.filter s.IsOutput).card := by
  have hle := h.card_le
  rw [h.count, BitVec.toNat_ofNat, Nat.mod_eq_of_lt (lt_of_le_of_lt hle (by decide))]

/-- An index is free while there are fewer output queues than indexes. -/
theorem OutputsOk.exists_free (hlt : (Finset.univ.filter s.IsOutput).card < emMaxOutputQueues) :
    ∃ i, (List.finRange emMaxOutputQueues).find? s.outputQueueIdxFree = some i ∧
      s.outputQueueIdxFree i = true := by
  cases hfind : (List.finRange emMaxOutputQueues).find? s.outputQueueIdxFree with
  | some i => exact ⟨i,rfl,List.find?_some hfind⟩
  | none =>
    have hall : ∀ i, s.outputQueueIdxFree i = false := fun i => by
      simpa using List.find?_eq_none.1 hfind i (List.mem_finRange i)
    have hsub : (Finset.univ : Finset (Fin emMaxOutputQueues)) ⊆
        (Finset.univ.filter s.IsOutput).image fun q => (s.elem q).idx := fun i _ => by
      obtain ⟨q,hq,hi⟩ := (h.idx i).1 (hall i)
      exact Finset.mem_image.2 ⟨q,by simpa using hq,hi⟩
    have hcard := (Finset.card_le_card hsub).trans Finset.card_image_le
    simp only [Finset.card_univ, Fintype.card_fin] at hcard
    omega

end Count

/-- `q` has become an output queue with index `i`. -/
theorem OutputsOk.add [DecidableEq ι] [Fintype ι] {i : Fin emMaxOutputQueues} (h : s.OutputsOk)
    (hq : ¬s.IsOutput q) (hi : s.outputQueueIdxFree i = true) (ht : t.IsOutput q)
    (hcount : t.outputQueueCount = s.outputQueueCount + 1)
    (hidxFree : ∀ j, t.outputQueueIdxFree j = if j = i then false else s.outputQueueIdxFree j)
    (hidx : (t.elem q).idx = i) (helems : SameElems s.elem t.elem q)
    (hargs : ∀ e, e ∈ t.argsEvents ↔ e ∈ s.argsEvents ∨ (t.elem q).argsEvent = some e)
    (hnew : ∀ e, (t.elem q).argsEvent = some e → e ∉ s.argsEvents) : t.OutputsOk := by
  have hmem : ∀ r, t.IsOutput r ↔ r = q ∨ s.IsOutput r := fun r => by
    by_cases hr : r = q
    · subst hr
      exact iff_of_true ht (.inl rfl)
    · rw [isOutput_iff helems hr]
      exact ⟨.inr,fun hc => hc.resolve_left hr⟩
  have hne : ∀ r, s.IsOutput r → r ≠ q := fun r hr he => hq (he ▸ hr)
  have hused : ∀ r, s.IsOutput r → (s.elem r).idx ≠ i := fun r hr he => by
    rw [(h.idx i).2 ⟨r,hr,he⟩] at hi
    cases hi
  refine ⟨?_,fun j => ?_,fun r r' hr hr' he => ?_,fun e => ?_,fun r r' e hr hr' he he' => ?_⟩
  · have hfilter : Finset.univ.filter t.IsOutput = insert q (Finset.univ.filter s.IsOutput) := by
      ext r
      simp [hmem]
    rw [hcount, h.count, hfilter, Finset.card_insert_of_notMem (by simpa using hq),
      BitVec.ofNat_add]
    rfl
  · rw [hidxFree]
    split
    · subst j
      exact iff_of_true rfl ⟨q,ht,hidx⟩
    · rename_i hj
      rw [h.idx]
      constructor
      · rintro ⟨r,hr,he⟩
        exact ⟨r,(hmem r).2 (.inr hr),by rw [hr.elem_eq helems (hne r hr), he]⟩
      · rintro ⟨r,hr,he⟩
        rcases (hmem r).1 hr with rfl | hr
        · exact absurd (he.symm.trans hidx) hj
        · exact ⟨r,hr,by rw [← hr.elem_eq helems (hne r hr), he]⟩
  · rcases (hmem r).1 hr with rfl | hs <;> rcases (hmem r').1 hr' with rfl | hs'
    · rfl
    · rw [hidx, hs'.elem_eq helems (hne r' hs')] at he
      exact absurd he.symm (hused r' hs')
    · rw [hidx, hs.elem_eq helems (hne r hs)] at he
      exact absurd he (hused r hs)
    · rw [hs.elem_eq helems (hne r hs), hs'.elem_eq helems (hne r' hs')] at he
      exact h.idxUnique r r' hs hs' he
  · rw [hargs, h.args]
    constructor
    · rintro (⟨r,hr,he⟩ | he)
      · exact ⟨r,(hmem r).2 (.inr hr),by rw [hr.elem_eq helems (hne r hr), he]⟩
      · exact ⟨q,ht,he⟩
    · rintro ⟨r,hr,he⟩
      rcases (hmem r).1 hr with rfl | hr
      · exact .inr he
      · exact .inl ⟨r,hr,by rw [← hr.elem_eq helems (hne r hr), he]⟩
  · have hold : ∀ r, s.IsOutput r → (t.elem r).argsEvent = some e → e ∈ s.argsEvents :=
      fun r hr he => (h.args e).2 ⟨r,hr,by rw [← hr.elem_eq helems (hne r hr), he]⟩
    rcases (hmem r).1 hr with rfl | hs <;> rcases (hmem r').1 hr' with rfl | hs'
    · rfl
    · exact absurd (hold r' hs' he') (hnew e he)
    · exact absurd (hold r hs he) (hnew e he')
    · rw [hs.elem_eq helems (hne r hs)] at he
      rw [hs'.elem_eq helems (hne r' hs')] at he'
      exact h.argsUnique r r' e hs hs' he he'

/-- The output queue `q` has been released. -/
theorem OutputsOk.remove [DecidableEq ι] [Fintype ι] (h : s.OutputsOk) (hq : s.IsOutput q) (ht : ¬t.IsOutput q)
    (hcount : t.outputQueueCount = s.outputQueueCount - 1)
    (hidxFree : ∀ j, t.outputQueueIdxFree j =
      if j = (s.elem q).idx then true else s.outputQueueIdxFree j)
    (helems : SameElems s.elem t.elem q)
    (hargs : ∀ e, e ∈ t.argsEvents ↔ e ∈ s.argsEvents ∧ (s.elem q).argsEvent ≠ some e) :
    t.OutputsOk := by
  have hmem : ∀ r, t.IsOutput r ↔ r ≠ q ∧ s.IsOutput r := fun r => by
    by_cases hr : r = q
    · subst hr
      exact iff_of_false ht fun hc => hc.1 rfl
    · rw [isOutput_iff helems hr]
      exact ⟨fun hs => ⟨hr,hs⟩,And.right⟩
  refine ⟨?_,fun j => ?_,fun r r' hr hr' he => ?_,fun e => ?_,fun r r' e hr hr' he he' => ?_⟩
  · have hfilter : Finset.univ.filter s.IsOutput = insert q (Finset.univ.filter t.IsOutput) := by
      ext r
      by_cases hr : r = q
      · subst hr
        simpa using hq
      · simp [hmem, hr]
    rw [hcount, h.count, hfilter, Finset.card_insert_of_notMem (by simpa using ht),
      BitVec.ofNat_add]
    exact BitVec.add_sub_cancel _ _
  · rw [hidxFree]
    split
    · refine iff_of_false (by simp) ?_
      rintro ⟨r,hr,he⟩
      obtain ⟨hne,hs⟩ := (hmem r).1 hr
      rw [hs.elem_eq helems hne] at he
      exact hne (h.idxUnique r q hs hq (he.trans ‹_›))
    · rename_i hj
      rw [h.idx]
      constructor
      · rintro ⟨r,hr,he⟩
        have hne : r ≠ q := fun hc => hj (by rw [← he, hc])
        exact ⟨r,(hmem r).2 ⟨hne,hr⟩,by rw [hr.elem_eq helems hne, he]⟩
      · rintro ⟨r,hr,he⟩
        obtain ⟨hne,hs⟩ := (hmem r).1 hr
        exact ⟨r,hs,by rw [← hs.elem_eq helems hne, he]⟩
  · obtain ⟨hne,hs⟩ := (hmem r).1 hr
    obtain ⟨hne',hs'⟩ := (hmem r').1 hr'
    rw [hs.elem_eq helems hne, hs'.elem_eq helems hne'] at he
    exact h.idxUnique r r' hs hs' he
  · rw [hargs, h.args]
    constructor
    · rintro ⟨⟨r,hr,he⟩,hqe⟩
      have hne : r ≠ q := fun hc => hqe (by rw [← hc, he])
      exact ⟨r,(hmem r).2 ⟨hne,hr⟩,by rw [hr.elem_eq helems hne, he]⟩
    · rintro ⟨r,hr,he⟩
      obtain ⟨hne,hs⟩ := (hmem r).1 hr
      rw [hs.elem_eq helems hne] at he
      exact ⟨⟨r,hs,he⟩,fun hqe => hne (h.argsUnique r q e hs hq he hqe)⟩
  · obtain ⟨hne,hs⟩ := (hmem r).1 hr
    obtain ⟨hne',hs'⟩ := (hmem r').1 hr'
    rw [hs.elem_eq helems hne] at he
    rw [hs'.elem_eq helems hne'] at he'
    exact h.argsUnique r r' e hs hs' he he'

end State

end EmOdp.QueueTable
