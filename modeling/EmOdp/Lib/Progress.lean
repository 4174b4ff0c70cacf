import EmOdp.Lib.TransitionSystem

/-! Runs of a restricted system: stages that counted steps pass through, and a measure
that bounds the length of a run. -/
namespace EmOdp.Lib.System
variable {S L : Type*} {M : System S L} {s t : S} {ls : List L}

/-- The steps of `M` that are allowed. -/
def restrict (M : System S L) (allowed : S → L → S → Prop) : System S L :=
  ⟨M.init,fun s l t => M.step s l t ∧ allowed s l t⟩

theorem ReachableVia.restrict_path {allowed : S → L → S → Prop} (h : M.ReachableVia allowed s)
    (hpath : (M.restrict allowed).Path s ls t) : M.ReachableVia allowed t := by
  induction hpath with
  | nil => exact h
  | cons hst _ ih => exact ih (.step h hst.1 hst.2)

theorem Path.restrict_exec {init : S → Prop} {f : S → L → Option S} {allowed : S → L → S → Prop}
    {ok : S → L → S → Bool} (hok : ∀ s l t, ok s l t = true → allowed s l t)
    (h : System.exec f ok s ls = some t) : ((ofFn init f).restrict allowed).Path s ls t := by
  induction ls generalizing s with
  | nil =>
    cases h
    exact .nil _
  | cons l ls ih =>
    obtain ⟨u,hu,h⟩ := Option.bind_eq_some_iff.1 h
    obtain ⟨hl,h⟩ := Option.ite_none_right_eq_some.1 h
    exact .cons ⟨hu,hok _ _ _ hl⟩ (ih h)

/-- A counted step leads to the next stage and any other step keeps the stage, until
`bound` steps were counted. -/
theorem Path.stage (J : Nat → S → Prop) (counted : L → Bool) (bound : Nat)
    (hnext : ∀ {k s l t}, k < bound → J k s → M.step s l t → counted l = true → J (k+1) t)
    (hkeep : ∀ {k s l t}, k ≤ bound → J k s → M.step s l t → counted l = false → J k t)
    (h : M.Path s ls t) {k : Nat} (hs : J k s) (hle : k + ls.countP counted ≤ bound) :
    J (k + ls.countP counted) t := by
  induction h generalizing k with
  | nil => exact hs
  | @cons s t u l ls hst _ ih =>
    rw [List.countP_cons] at hle ⊢
    cases hl : counted l
    · simp only [hl, Bool.false_eq_true, if_false, Nat.add_zero] at hle ⊢
      exact ih (hkeep (by omega) hs hst hl) hle
    · simp only [hl, if_true] at hle ⊢
      have ht := ih (hnext (by omega) hs hst hl) (by omega)
      rwa [show k + (ls.countP counted + 1) = k + 1 + ls.countP counted by omega]

/-- A run whose steps all make the measure smaller is no longer than the measure. -/
theorem Path.length_le {I : S → Prop} {μ : S → Nat} {ok : L → Prop}
    (hstep : ∀ {s l t}, I s → M.step s l t → ok l → I t ∧ μ t < μ s)
    (h : M.Path s ls t) (hs : I s) (hls : ∀ l ∈ ls, ok l) : I t ∧ ls.length + μ t ≤ μ s := by
  induction h with
  | nil => exact ⟨hs,by simp⟩
  | cons hst _ ih =>
    obtain ⟨hl,hls⟩ := List.forall_mem_cons.1 hls
    obtain ⟨ht,hlt⟩ := hstep hs hst hl
    obtain ⟨hu,hle⟩ := ih ht hls
    exact ⟨hu,by simp only [List.length_cons]; omega⟩

end EmOdp.Lib.System
