import Mathlib.Algebra.GroupWithZero.Nat
import Mathlib.Data.List.Perm.Basic
import Mathlib.Logic.Function.Basic

/-! Runs of instructions that each access one cell of a memory. What a run makes of a cell is what the
instructions at its address make of it, one after the other. -/
namespace EmOdp.Lib.Pointwise
variable {α σ ι : Type*} {x y : σ}

/-- The instructions at one cell; one that fails ends the run. -/
def fold : List (σ → Option σ) → σ → Option σ
  | [], x => some x
  | act :: acts, x => (act x).bind (fold acts)

theorem fold_cons (act : σ → Option σ) (acts : List (σ → Option σ)) (x : σ) :
    fold (act :: acts) x = (act x).bind (fold acts) := rfl

theorem fold_append (acts acts' : List (σ → Option σ)) (x : σ) :
    fold (acts ++ acts') x = (fold acts x).bind (fold acts') := by
  induction acts generalizing x with
  | nil => rfl
  | cons act acts ih =>
    rw [List.cons_append, fold_cons, fold_cons, Option.bind_assoc]
    exact congrArg _ (funext ih)

/-- What each instruction keeps, the run keeps. -/
theorem fold_preserves {I : σ → Prop} {acts : List (σ → Option σ)}
    (hI : ∀ act ∈ acts, ∀ x y, I x → act x = some y → I y) (hx : I x) (h : fold acts x = some y) :
    I y := by
  induction acts generalizing x with
  | nil =>
    cases h
    exact hx
  | cons act acts ih =>
    rw [fold_cons, Option.bind_eq_some_iff] at h
    obtain ⟨z,hz,h⟩ := h
    exact ih (fun a ha => hI a (List.mem_cons_of_mem _ ha)) (hI act List.mem_cons_self x z hx hz) h

/-- Instructions that do nothing -/
theorem fold_id {acts : List (σ → Option σ)} (h : ∀ act ∈ acts, act x = some x) :
    fold acts x = some x := by
  induction acts with
  | nil => rfl
  | cons act acts ih =>
    rw [fold_cons, h act List.mem_cons_self, Option.bind_some]
    exact ih fun a ha => h a (List.mem_cons_of_mem _ ha)

/-- The order of instructions that commute does not matter. -/
theorem fold_perm {I : σ → Prop} {acts acts' : List (σ → Option σ)} (hperm : acts.Perm acts')
    (hI : ∀ act ∈ acts, ∀ x y, I x → act x = some y → I y)
    (hcomm : ∀ f ∈ acts, ∀ g ∈ acts, ∀ x, I x → (f x).bind g = (g x).bind f) (hx : I x) :
    fold acts x = fold acts' x := by
  induction hperm generalizing x with
  | nil => rfl
  | @cons act acts acts' _ ih =>
    rw [fold_cons, fold_cons]
    refine Option.bind_congr fun y hy => ?_
    exact ih (fun a ha => hI a (List.mem_cons_of_mem _ ha))
      (fun f hf g hg => hcomm f (List.mem_cons_of_mem _ hf) g (List.mem_cons_of_mem _ hg))
      (hI act List.mem_cons_self x y hx hy)
  | swap f g acts =>
    have hswap := hcomm g List.mem_cons_self f (List.mem_cons_of_mem _ List.mem_cons_self) x hx
    have hfold (a b : σ → Option σ) : fold (a :: b :: acts) x = ((a x).bind b).bind (fold acts) := by
      rw [Option.bind_assoc]
      rfl
    rw [hfold, hfold, hswap]
  | trans h₁ _ ih₁ ih₂ =>
    have hmem := fun a => (h₁.mem_iff (a := a)).2
    exact (ih₁ hI hcomm hx).trans (ih₂ (fun a ha => hI a (hmem a ha))
      (fun f hf g hg => hcomm f (hmem f hf) g (hmem g hg)) hx)

/-- If no instruction changes the cell, then the run ends if none of them fails. -/
theorem fold_fixed {acts : List (σ → Option σ)} (hfix : ∀ act ∈ acts, ∀ y, act x = some y → y = x)
    (h : fold acts x = some y) : ∀ act ∈ acts, act x = some x := by
  induction acts with
  | nil => exact fun act hact => absurd hact List.not_mem_nil
  | cons act acts ih =>
    rw [fold_cons, Option.bind_eq_some_iff] at h
    obtain ⟨z,hz,h⟩ := h
    obtain rfl := hfix act List.mem_cons_self z hz
    exact List.forall_mem_cons.2 ⟨hz,ih (fun a ha => hfix a (List.mem_cons_of_mem _ ha)) h⟩

section Takes
variable {P Q R : σ → Prop} {I : Nat → σ → Prop} {acts acts' : List (σ → Option σ)} {act : σ → Option σ}

/-- From each cell in `P` the instructions get to one in `Q`. -/
def Takes (P : σ → Prop) (acts : List (σ → Option σ)) (Q : σ → Prop) : Prop :=
  ∀ x, P x → ∃ y, fold acts x = some y ∧ Q y

theorem Takes.nil : Takes P [] P := fun x hx => ⟨x,rfl,hx⟩

theorem Takes.append (h : Takes P acts Q) (h' : Takes Q acts' R) : Takes P (acts ++ acts') R := by
  intro x hx
  obtain ⟨y,hy,hQ⟩ := h x hx
  obtain ⟨z,hz,hR⟩ := h' y hQ
  exact ⟨z,by rw [fold_append, hy, Option.bind_some, hz],hR⟩

theorem Takes.single (h : ∀ x, P x → ∃ y, act x = some y ∧ Q y) : Takes P [act] Q := by
  intro x hx
  obtain ⟨y,hy,hQ⟩ := h x hx
  exact ⟨y,by rw [fold_cons, hy]; rfl,hQ⟩

/-- An instruction that does nothing -/
theorem Takes.replicate_id (h : ∀ x, P x → act x = some x) (c : Nat) : Takes P (List.replicate c act) P :=
  fun x hx => ⟨x,fold_id fun _ hact => by rw [List.eq_of_mem_replicate hact]; exact h x hx,hx⟩

/-- An instruction that takes `I` one up -/
theorem Takes.replicate_up {j c : Nat} (h : ∀ i < c, Takes (I (j+i)) [act] (I (j+i+1))) :
    Takes (I j) (List.replicate c act) (I (j+c)) := by
  induction c with
  | zero => exact .nil
  | succ c ih =>
    rw [List.replicate_succ']
    exact (ih fun i hi => h i (Nat.lt_succ_of_lt hi)).append (h c (Nat.lt_succ_self c))

/-- An instruction that takes `I` one down -/
theorem Takes.replicate_down {j c : Nat} (h : ∀ i < c, Takes (I (j+i+1)) [act] (I (j+i))) :
    Takes (I (j+c)) (List.replicate c act) (I j) := by
  induction c with
  | zero => exact .nil
  | succ c ih =>
    rw [List.replicate_succ]
    exact (h c (Nat.lt_succ_self c)).append (ih fun i hi => h i (Nat.lt_succ_of_lt hi))

/-- Blocks of instructions, each of which takes `I` up by its weight -/
theorem Takes.flatMap_up {f : ι → List (σ → Option σ)} {k : ι → Nat} {n j : Nat} {xs : List ι}
    (h : ∀ x ∈ xs, ∀ j, j + k x ≤ n → Takes (I j) (f x) (I (j + k x))) (hj : j + (xs.map k).sum ≤ n) :
    Takes (I j) (xs.flatMap f) (I (j + (xs.map k).sum)) := by
  induction xs generalizing j with
  | nil => exact .nil
  | cons x xs ih =>
    rw [List.map_cons, List.sum_cons, ← Nat.add_assoc] at hj ⊢
    rw [List.flatMap_cons]
    exact (h x List.mem_cons_self j (by omega)).append
      (ih (fun y hy => h y (List.mem_cons_of_mem _ hy)) hj)

/-- Blocks of instructions, each of which takes `I` down by its weight -/
theorem Takes.flatMap_down {f : ι → List (σ → Option σ)} {k : ι → Nat} {n j : Nat} {xs : List ι}
    (h : ∀ x ∈ xs, ∀ j, j + k x ≤ n → Takes (I (j + k x)) (f x) (I j)) (hj : j + (xs.map k).sum ≤ n) :
    Takes (I (j + (xs.map k).sum)) (xs.flatMap f) (I j) := by
  induction xs generalizing j with
  | nil => exact .nil
  | cons x xs ih =>
    rw [List.map_cons, List.sum_cons] at hj ⊢
    rw [List.flatMap_cons, Nat.add_comm (k x), ← Nat.add_assoc]
    exact (h x List.mem_cons_self _ (by omega)).append
      (ih (fun y hy => h y (List.mem_cons_of_mem _ hy)) (by omega))

end Takes

section Run
variable [DecidableEq α] {m m' : α → σ} {p : α} {ops ops' : List (α × (σ → Option σ))}

def run : List (α × (σ → Option σ)) → (α → σ) → Option (α → σ)
  | [], m => some m
  | (p,act) :: ops, m => (act (m p)).bind fun x => run ops (Function.update m p x)

theorem run_cons (p : α) (act : σ → Option σ) (ops : List (α × (σ → Option σ))) (m : α → σ) :
    run ((p,act) :: ops) m = (act (m p)).bind fun x => run ops (Function.update m p x) := rfl

/-- The instructions of a run at one address -/
def accesses (p : α) (ops : List (α × (σ → Option σ))) : List (σ → Option σ) :=
  ops.filterMap fun op => if op.1 = p then some op.2 else none

theorem run_append (ops ops' : List (α × (σ → Option σ))) (m : α → σ) :
    run (ops ++ ops') m = (run ops m).bind (run ops') := by
  induction ops generalizing m with
  | nil => rfl
  | cons op ops ih =>
    rw [List.cons_append, run_cons, run_cons, Option.bind_assoc]
    exact congrArg _ (funext fun x => ih _)

theorem accesses_append (p : α) (ops ops' : List (α × (σ → Option σ))) :
    accesses p (ops ++ ops') = accesses p ops ++ accesses p ops' := List.filterMap_append

theorem accesses_cons (p q : α) (act : σ → Option σ) (ops : List (α × (σ → Option σ))) :
    accesses p ((q,act) :: ops) = if q = p then act :: accesses p ops else accesses p ops := by
  rw [accesses, List.filterMap_cons]
  by_cases hqp : q = p
  · rw [if_pos hqp, if_pos hqp]
    rfl
  · rw [if_neg hqp, if_neg hqp]
    rfl

theorem mem_accesses {act : σ → Option σ} : act ∈ accesses p ops ↔ (p,act) ∈ ops := by
  simp only [accesses, List.mem_filterMap, Option.ite_none_right_eq_some, Option.some.injEq]
  exact ⟨fun ⟨op,hop,hp,hact⟩ => by rw [← hp, ← hact]; exact hop,fun h => ⟨_,h,rfl,rfl⟩⟩

theorem accesses_eq_nil (h : ∀ op ∈ ops, op.1 ≠ p) : accesses p ops = [] :=
  List.filterMap_eq_nil_iff.2 fun op hop => if_neg (h op hop)

theorem accesses_flatMap (p : α) (f : ι → List (α × (σ → Option σ))) (xs : List ι) :
    accesses p (xs.flatMap f) = xs.flatMap fun x => accesses p (f x) := by
  induction xs with
  | nil => rfl
  | cons x xs ih => rw [List.flatMap_cons, List.flatMap_cons, accesses_append, ih]

theorem accesses_map (p : α) (f : α → σ → Option σ) (xs : List α) :
    accesses p (xs.map fun q => (q,f q)) = List.replicate (xs.count p) (f p) := by
  induction xs with
  | nil => rfl
  | cons q xs ih =>
    rw [List.map_cons, accesses_cons, ih]
    by_cases hqp : q = p
    · obtain rfl := hqp
      rw [if_pos rfl, List.count_cons_self, List.replicate_succ]
    · rw [if_neg hqp, List.count_cons_of_ne hqp]

theorem run_eq_some_iff : run ops m = some m' ↔ ∀ p, fold (accesses p ops) (m p) = some (m' p) := by
  induction ops generalizing m with
  | nil =>
    constructor
    · intro h p
      cases h
      rfl
    · intro h
      exact congrArg some (funext fun p => Option.some.inj (h p))
  | cons op ops ih =>
    obtain ⟨q,act⟩ := op
    rw [run_cons]
    cases hact : act (m q) with
    | none =>
      refine iff_of_false (by rintro ⟨⟩) fun h => ?_
      have hq := h q
      rw [accesses_cons, if_pos rfl, fold_cons, hact] at hq
      cases hq
    | some x =>
      rw [Option.bind_some, ih]
      refine forall_congr' fun p => ?_
      rw [accesses_cons]
      by_cases hqp : q = p
      · obtain rfl := hqp
        rw [if_pos rfl, fold_cons, hact, Function.update_self]
        rfl
      · rw [if_neg hqp, Function.update_of_ne (Ne.symm hqp)]

theorem run_exists (h : ∀ p, ∃ y, fold (accesses p ops) (m p) = some y) : ∃ m', run ops m = some m' := by
  choose m' hm' using h
  exact ⟨m',run_eq_some_iff.2 hm'⟩

/-- Two runs are the same if they are at each address. -/
theorem run_congr (h : ∀ p, fold (accesses p ops) (m p) = fold (accesses p ops') (m p)) :
    run ops m = run ops' m := by
  refine Option.ext fun m' => ?_
  rw [run_eq_some_iff, run_eq_some_iff]
  exact forall_congr' fun p => by rw [h p]

/-- What each instruction keeps of the cell at its address, the run keeps of all of them. -/
theorem run_preserves {I : α → σ → Prop} (hI : ∀ op ∈ ops, ∀ x y, I op.1 x → op.2 x = some y → I op.1 y)
    (hm : ∀ p, I p (m p)) (h : run ops m = some m') (p : α) : I p (m' p) :=
  fold_preserves (fun act hact => hI (p,act) (mem_accesses.1 hact)) (hm p) (run_eq_some_iff.1 h p)

end Run
end EmOdp.Lib.Pointwise
