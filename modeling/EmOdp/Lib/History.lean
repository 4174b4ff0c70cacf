import Mathlib.Data.List.Basic

/-! Histories whose entries each meet a condition on what came before them. -/
namespace EmOdp.Lib
variable {α : Type*} {P : List α → α → Prop} {log : List α} {a : α}

def Throughout (P : List α → α → Prop) (log : List α) : Prop :=
  ∀ pre a post, log = pre ++ a :: post → P pre a

namespace Throughout

theorem nil : Throughout P [] := fun _ _ _ h => absurd h (by simp)

theorem snoc (h : Throughout P log) (ha : P log a) : Throughout P (log ++ [a]) := by
  intro pre b post heq
  rcases List.eq_nil_or_concat post with rfl | ⟨post,c,rfl⟩
  · obtain ⟨rfl,hab⟩ := List.append_inj' heq rfl
    obtain rfl := List.singleton_inj.1 hab
    exact ha
  · rw [List.concat_eq_append, ← List.cons_append, ← List.append_assoc] at heq
    exact h pre b post (List.append_inj' heq rfl).1

end Throughout
end EmOdp.Lib
