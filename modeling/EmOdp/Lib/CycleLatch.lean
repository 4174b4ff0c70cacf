import EmOdp.Lib.TransitionSystem
import EmOdp.Lib.CoreSum

/-! A reusable countdown latch. Parties enter it with some of the events of the
current cycle and leave it when these are finished; the party that finishes the
last event of a cycle fires the latch. A cycle may be cancelled before that. -/
namespace EmOdp.Lib

/-- What one cycle of a latch has seen. -/
@[ext] structure Cycle where
  counted : Nat := 0
  finished : Nat := 0
  fires : Nat := 0
  cancelled : Bool := false
  deriving DecidableEq, Repr

/-- The latch fired at most once in the cycle, never in a cancelled one, and
exactly when all events counted into the cycle are finished. -/
structure Cycle.Exact (cy : Cycle) : Prop where
  once : cy.fires ≤ 1
  not_cancelled : cy.cancelled = true → cy.fires = 0
  fired_iff : cy.fires = 1 ↔ 0 < cy.counted ∧ cy.finished = cy.counted

@[ext] structure Latch (ι : Type*) where
  epoch : Nat
  isOpen : Bool
  /-- events of the current cycle that no party has entered with -/
  avail : Nat
  /-- events of the current cycle a party is inside with -/
  holds : ι → Nat
  cycle : Nat → Cycle

inductive LatchAct (ι : Type*) where
  | opens (n : Nat)
  | adds (n : Nat)
  | enters (c : ι) (n : Nat)
  | leaves (c : ι)
  | cancels

namespace Latch
variable {ι : Type*}

/-- Rewrite the record of the current cycle. -/
def record (a : Latch ι) (f : Cycle → Cycle) : Nat → Cycle :=
  Function.update a.cycle a.epoch (f (a.cycle a.epoch))

@[simp] theorem record_self (a : Latch ι) (f : Cycle → Cycle) :
    a.record f a.epoch = f (a.cycle a.epoch) := by simp [record]

theorem record_ne (a : Latch ι) (f : Cycle → Cycle) {g : Nat} (h : g ≠ a.epoch) :
    a.record f g = a.cycle g := by simp [record, h]

variable [DecidableEq ι]

inductive Step : Latch ι → LatchAct ι → Latch ι → Prop where
  | opens {a : Latch ι} {n : Nat} : a.isOpen = false → 0 < n →
      Step a (.opens n) ⟨a.epoch+1, true, n, fun _ => 0,
        Function.update a.cycle (a.epoch+1) { counted := n }⟩
  | adds {a : Latch ι} {n : Nat} : a.isOpen = true →
      Step a (.adds n) { a with
        avail := a.avail + n, cycle := a.record fun cy => { cy with counted := cy.counted + n } }
  | enters {a : Latch ι} {c : ι} {n : Nat} : a.isOpen = true → n ≤ a.avail → a.holds c = 0 →
      Step a (.enters c n) { a with avail := a.avail - n, holds := Function.update a.holds c n }
  | leaves {a : Latch ι} {c : ι} : a.isOpen = true → 0 < a.holds c →
      (a.cycle a.epoch).finished + a.holds c < (a.cycle a.epoch).counted →
      Step a (.leaves c) { a with
        holds := Function.update a.holds c 0,
        cycle := a.record fun cy => { cy with finished := cy.finished + a.holds c } }
  | fires {a : Latch ι} {c : ι} : a.isOpen = true → 0 < a.holds c →
      (a.cycle a.epoch).finished + a.holds c = (a.cycle a.epoch).counted →
      Step a (.leaves c) { a with
        isOpen := false, avail := 0, holds := fun _ => 0,
        cycle := a.record fun cy =>
          { cy with finished := cy.finished + a.holds c, fires := cy.fires + 1 } }
  | cancels {a : Latch ι} : a.isOpen = true →
      Step a .cancels { a with
        isOpen := false, avail := 0, holds := fun _ => 0,
        cycle := a.record fun cy => { cy with cancelled := true } }

/-- A closed latch at any epoch, no cycle of which has seen anything. -/
def Initial (a : Latch ι) : Prop :=
  a.isOpen = false ∧ a.avail = 0 ∧ (∀ c, a.holds c = 0) ∧ ∀ g, a.cycle g = {}

def system (ι : Type*) [DecidableEq ι] : System (Latch ι) (LatchAct ι) := ⟨Initial, Step⟩

variable [Fintype ι]

/-- In an open latch every counted event is finished, entered or available. -/
structure Sound (a : Latch ι) : Prop where
  balance : a.isOpen = true →
    (a.cycle a.epoch).finished + (a.avail + ∑ c, a.holds c) = (a.cycle a.epoch).counted
  unfinished : a.isOpen = true → (a.cycle a.epoch).finished < (a.cycle a.epoch).counted ∧
    (a.cycle a.epoch).fires = 0 ∧ (a.cycle a.epoch).cancelled = false
  emptied : a.isOpen = false → a.avail = 0 ∧ ∀ c, a.holds c = 0
  exact : ∀ g, (a.cycle g).Exact
  fresh : ∀ g, a.epoch < g → a.cycle g = {}

private theorem exact_empty : Cycle.Exact {} := ⟨by decide,by decide,by decide⟩

private theorem exact_unfired {cy : Cycle} (hf : cy.fires = 0) (hl : cy.finished < cy.counted) :
    cy.Exact :=
  ⟨by omega,fun _ => hf,by omega⟩

omit [DecidableEq ι] in
/-- A step that rewrites the record of the current cycle keeps soundness when
the new record balances the new holders. -/
private theorem sound_record {a : Latch ι} {o : Bool} {v : Nat} {k : ι → Nat} (f : Cycle → Cycle)
    (h : a.Sound) (hx : (f (a.cycle a.epoch)).Exact)
    (ho : o = true → (f (a.cycle a.epoch)).finished + (v + ∑ c, k c) = (f (a.cycle a.epoch)).counted ∧
      (f (a.cycle a.epoch)).finished < (f (a.cycle a.epoch)).counted ∧
      (f (a.cycle a.epoch)).fires = 0 ∧ (f (a.cycle a.epoch)).cancelled = false)
    (hc : o = false → v = 0 ∧ ∀ c, k c = 0) : Sound ⟨a.epoch, o, v, k, a.record f⟩ := by
  refine ⟨fun hop => ?_,fun hop => ?_,hc,fun g => ?_,fun g hg => ?_⟩
  · simpa only [record_self] using (ho hop).1
  · simpa only [record_self] using (ho hop).2
  · by_cases hg : g = a.epoch
    · subst hg; simpa only [record_self] using hx
    · simpa only [record_ne a f hg] using h.exact g
  · have hne : g ≠ a.epoch := by rintro rfl; exact lt_irrefl _ hg
    simpa only [record_ne a f hne] using h.fresh g hg

omit [DecidableEq ι] in
theorem sound_initial {a : Latch ι} (h : Initial a) : a.Sound := by
  obtain ⟨ho,ha,hh,hc⟩ := h
  refine ⟨by simp [ho],by simp [ho],fun _ => ⟨ha,hh⟩,?_,fun g _ => hc g⟩
  intro g; rw [hc]; exact exact_empty

theorem sound_step {a b : Latch ι} {l : LatchAct ι} (h : a.Sound) (hs : Step a l b) : b.Sound := by
  cases hs with
  | @opens n ho hn =>
    refine ⟨by simp,by simpa using hn,by simp,?_,?_⟩
    · intro g
      by_cases hg : g = a.epoch+1
      · subst hg; exact exact_unfired (by simp) (by simpa using hn)
      · simpa [Function.update_of_ne hg] using h.exact g
    · intro g hg
      have hne : g ≠ a.epoch+1 := by simp only at hg; omega
      simpa [Function.update_of_ne hne] using h.fresh g (by simp only at hg; omega)
  | @adds n ho =>
    have hb := h.balance ho
    obtain ⟨hu,hf,hcl⟩ := h.unfinished ho
    refine sound_record _ h (exact_unfired hf (by simp only; omega)) (fun _ => ?_) (by simp [ho])
    exact ⟨by simp only; omega,by simp only; omega,hf,hcl⟩
  | @enters c n ho hn hz =>
    have hsum := sum_update a.holds c n
    refine ⟨fun _ => ?_,h.unfinished,by simp [ho],h.exact,h.fresh⟩
    have hb := h.balance ho
    simp only
    omega
  | @leaves c ho hp hl =>
    have hsum := sum_update a.holds c 0
    have hb := h.balance ho
    obtain ⟨hu,hf,hcl⟩ := h.unfinished ho
    refine sound_record _ h (exact_unfired hf hl) (fun _ => ?_) (by simp [ho])
    exact ⟨by simp only; omega,hl,hf,hcl⟩
  | @fires c ho hp hl =>
    obtain ⟨hu,hf,hcl⟩ := h.unfinished ho
    have hpos : 0 < (a.cycle a.epoch).counted := by omega
    exact sound_record _ h ⟨by simp [hf],by simp [hcl],by simp [hf,hl,hpos]⟩ nofun
      fun _ => ⟨rfl,fun _ => rfl⟩
  | cancels ho =>
    obtain ⟨hu,hf,hcl⟩ := h.unfinished ho
    exact sound_record _ h (exact_unfired hf hu) nofun fun _ => ⟨rfl,fun _ => rfl⟩

theorem reachable_sound {a : Latch ι} (h : (system ι).Reachable a) : a.Sound :=
  h.invariant (I := Sound) (fun _ hi => sound_initial hi) fun _ _ _ hs hst _ => sound_step hs hst

end Latch
end EmOdp.Lib
