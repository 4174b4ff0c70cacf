import Mathlib.Data.List.Perm.Basic

/-! Items taken in, of which each is passed on in order or dropped. -/
namespace EmOdp.Lib
variable {α : Type*} {input passed dropped : List α}

/-- Every item of the input is passed on once or dropped once, and the passed ones are
in the order of the input. -/
structure Handover (input passed dropped : List α) : Prop where
  inOrder : passed.Sublist input
  complete : (passed ++ dropped).Perm input

namespace Handover

theorem nil : Handover ([] : List α) [] [] := ⟨.refl _,.refl _⟩

theorem pass (h : Handover input passed dropped) (xs : List α) :
    Handover (input ++ xs) (passed ++ xs) dropped := by
  have hswap : (passed ++ xs ++ dropped).Perm (passed ++ dropped ++ xs) := by
    rw [List.append_assoc, List.append_assoc]
    exact List.perm_append_comm.append_left _
  exact ⟨h.inOrder.append (.refl _),hswap.trans (h.complete.append_right _)⟩

theorem drop (h : Handover input passed dropped) (xs : List α) :
    Handover (input ++ xs) passed (dropped ++ xs) := by
  refine ⟨h.inOrder.trans (List.sublist_append_left _ _),?_⟩
  rw [← List.append_assoc]
  exact h.complete.append_right _

/-- A batch is taken as far as it is accepted, the rest of it is dropped. -/
theorem batch (h : Handover input passed dropped) (xs : List α) (n : Nat) :
    Handover (input ++ xs) (passed ++ xs.take n) (dropped ++ xs.drop n) := by
  have hsplit := (h.pass (xs.take n)).drop (xs.drop n)
  rwa [List.append_assoc, List.take_append_drop] at hsplit

theorem nodup (h : Handover input passed dropped) (hn : input.Nodup) :
    (passed ++ dropped).Nodup := h.complete.nodup_iff.2 hn

end Handover
end EmOdp.Lib
