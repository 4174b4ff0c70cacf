import Mathlib.Data.List.Basic
import Mathlib.Data.List.Infix
import Mathlib.Data.List.TakeWhile

/-! Lists cut from left to right into parts that are as long as they can be: no other cut into
such parts has fewer of them. -/
namespace EmOdp.Lib
variable {α : Type*} {P : List α → Prop} {l l' p : List α} {ps qs : List (List α)}

/-- Parts with the property `P`, which together are the list -/
structure IsCut (P : List α → Prop) (ps : List (List α)) (l : List α) : Prop where
  flatten : ps.flatten = l
  part : ∀ p ∈ ps, P p

/-- No part can be longer, given the parts before it. -/
def Greedy (P : List α → Prop) : List (List α) → List α → Prop
  | [], l => l = []
  | p :: ps, l => P p ∧ p ≠ [] ∧ (∀ q, P q → q <+: l → q.length ≤ p.length) ∧
    ∃ l', l = p ++ l' ∧ Greedy P ps l'

theorem Greedy.isCut (h : Greedy P ps l) : IsCut P ps l := by
  induction ps generalizing l with
  | nil => exact ⟨Eq.symm h,fun _ hp => absurd hp List.not_mem_nil⟩
  | cons p ps ih =>
    obtain ⟨hp,-,-,l',rfl,hl'⟩ := h
    obtain ⟨hflat,hps⟩ := ih hl'
    exact ⟨congrArg _ hflat,List.forall_mem_cons.2 ⟨hp,hps⟩⟩

theorem Greedy.ne_nil (h : Greedy P ps l) : ∀ p ∈ ps, p ≠ [] := by
  induction ps generalizing l with
  | nil => exact fun _ hp => absurd hp List.not_mem_nil
  | cons p ps ih =>
    obtain ⟨-,hne,-,_,-,hl'⟩ := h
    exact List.forall_mem_cons.2 ⟨hne,ih hl'⟩

/-- What is left of a list cannot need more parts than a cut of the whole list has. -/
theorem Greedy.length_le_of_suffix (hP : ∀ p q, P p → q <:+ p → P q) (h : Greedy P ps l)
    (hcut : IsCut P qs l') (hl : l <:+ l') : ps.length ≤ qs.length := by
  -- the parts of the greedy cut never end before those of the other one
  induction qs generalizing ps l l' with
  | nil =>
    obtain rfl : [] = l' := hcut.flatten
    cases ps with
    | nil => exact le_refl _
    | cons p ps =>
      obtain ⟨-,hne,-,m,rfl,-⟩ := h
      exact absurd (List.append_eq_nil_iff.1 (List.suffix_nil.1 hl)).1 hne
  | cons q qs ih =>
    obtain ⟨rfl,hqs⟩ := hcut
    have hrest : IsCut P qs qs.flatten := ⟨rfl,fun p hp => hqs p (List.mem_cons_of_mem _ hp)⟩
    cases ps with
    | nil => exact Nat.zero_le _
    | cons p ps =>
      rw [List.flatten_cons] at hl
      rcases List.suffix_or_suffix_of_suffix hl (List.suffix_append q qs.flatten) with h' | ⟨q',hq'⟩
      · exact (ih h hrest h').trans (Nat.le_succ _)
      · obtain ⟨t,ht⟩ := hl
        rw [← hq', ← List.append_assoc] at ht
        have hq : q' <:+ q := ⟨t,List.append_cancel_right ht⟩
        obtain ⟨-,-,hlongest,m,hm,hps⟩ := h
        have hle := hlongest q' (hP q q' (hqs q List.mem_cons_self) hq) ⟨_,hq'⟩
        have hlen := congrArg List.length (hq'.trans hm)
        simp only [List.length_append] at hlen
        have hsuf : m <:+ qs.flatten :=
          List.suffix_of_suffix_length_le ⟨p,hm.symm⟩ ⟨q',hq'⟩ (by omega)
        exact Nat.succ_le_succ (ih hps hrest hsuf)

theorem Greedy.length_le (hP : ∀ p q, P p → q <:+ p → P q) (h : Greedy P ps l)
    (hcut : IsCut P qs l) : ps.length ≤ qs.length :=
  h.length_le_of_suffix hP hcut List.suffix_rfl

section Runs
variable {r : α → α → Prop} {g rest : List α}

/-- Related elements `g`, which the next one of `rest` does not belong to -/
structure IsRun (r : α → α → Prop) (g rest : List α) : Prop where
  related : ∀ a ∈ g, ∀ b ∈ g, r a b
  next : ∀ a ∈ g, ∀ b ∈ rest.head?, ¬r a b

theorem isRun_takeWhile {same : α → α → Bool} (h : Equivalence fun a b => same a b = true) (a : α)
    (l : List α) : IsRun (fun a b => same a b = true) (a :: l.takeWhile (same a))
      (l.dropWhile (same a)) := by
  have hall : ∀ b ∈ a :: l.takeWhile (same a), same a b = true :=
    List.forall_mem_cons.2 ⟨h.refl a,fun _ hb => List.mem_takeWhile_imp hb⟩
  refine ⟨fun b hb c hc => h.trans (h.symm (hall b hb)) (hall c hc),fun b hb c hc hs => ?_⟩
  have hnot := List.head?_dropWhile_not (same a) l
  rw [Option.mem_def.1 hc] at hnot
  exact Bool.eq_false_iff.1 hnot (h.trans (hall b hb) hs)

theorem IsRun.drop (h : IsRun r g rest) (n : Nat) : IsRun r (g.drop n) rest :=
  ⟨fun a ha b hb => h.related a (List.drop_subset _ _ ha) b (List.drop_subset _ _ hb),
    fun a ha => h.next a (List.drop_subset _ _ ha)⟩

/-- A prefix of related elements does not go past the end of the run. -/
theorem IsRun.prefix_length_le (h : IsRun r g rest) (hne : g ≠ []) (hr : ∀ a ∈ p, ∀ b ∈ p, r a b)
    (hp : p <+: g ++ rest) : p.length ≤ g.length := by
  rcases List.prefix_or_prefix_of_prefix hp (List.prefix_append g rest) with hle | ⟨t,rfl⟩
  · exact hle.length_le
  · have ht : t <+: rest := (List.prefix_append_right_inj g).1 hp
    cases t with
    | nil => rw [List.append_nil]
    | cons b t =>
      obtain ⟨a,ha⟩ := List.exists_mem_of_ne_nil g hne
      obtain ⟨u,rfl⟩ := ht
      exact absurd (hr a (List.mem_append_left _ ha) b
        (List.mem_append_right _ List.mem_cons_self)) (h.next a ha b rfl)

/-- The run that starts at an index of a table -/
theorem exists_run {same : α → α → Bool} (h : Equivalence fun a b => same a b = true)
    {tbl : List α} {idx : Nat} (hidx : idx < tbl.length) :
    ∃ a l g rest, tbl.drop idx = a :: l ∧ g = a :: l.takeWhile (same a) ∧
      tbl.drop idx = g ++ rest ∧ IsRun (fun a b => same a b = true) g rest ∧
      tbl.drop (idx+g.length) = rest ∧ tbl.length = idx+g.length+rest.length := by
  obtain ⟨a,l,hl⟩ := List.exists_cons_of_ne_nil
    (List.ne_nil_of_length_pos (l := tbl.drop idx) (by rw [List.length_drop]; omega))
  have htbl : tbl.drop idx = (a :: l.takeWhile (same a)) ++ l.dropWhile (same a) := by
    rw [hl, List.cons_append, List.takeWhile_append_dropWhile]
  have hlen := congrArg List.length htbl
  rw [List.length_drop, List.length_append] at hlen
  refine ⟨a,l,_,_,hl,rfl,htbl,isRun_takeWhile h a l,?_,by omega⟩
  rw [← List.drop_drop, htbl, List.drop_left]

end Runs
end EmOdp.Lib
