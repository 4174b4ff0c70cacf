import EmOdp.Lib.TransitionSystem

/-! Components that are called: a call returns something and leaves a state, or is not allowed. -/
namespace EmOdp.Lib
variable {S T L O : Type*}

/-- What a list of calls returns, none if one of them is not allowed -/
def outputs (step : S → L → Option (O × S)) : S → List L → Option (List O)
  | _, [] => some []
  | s, l :: ls => (step s l).bind fun r => (outputs step r.2 ls).map (r.1 :: ·)

/-- A component whose states are images of another's, and whose calls are the other's, returns the same. -/
theorem outputs_map {step : S → L → Option (O × S)} {step' : T → L → Option (O × T)} {f : T → S}
    (hstep : ∀ t l, step (f t) l = (step' t l).map fun r => (r.1,f r.2)) (t : T) (ls : List L) :
    outputs step (f t) ls = outputs step' t ls := by
  induction ls generalizing t with
  | nil => rfl
  | cons l ls ih =>
    rw [outputs, outputs, hstep]
    cases step' t l with
    | none => rfl
    | some r =>
      rw [Option.map_some, Option.bind_some, Option.bind_some]
      apply congrArg
      exact ih r.2

end EmOdp.Lib
