import EmOdp.EoQueues.Machine
import EmOdp.QueueTable.Lifetime

/-! The changes that the operations are made of, and the aggregator queues, which follow their
parent. -/
namespace EmOdp.EoQueues
open Lib QueueTable
open EoStart (EoState)
variable {ι γ α ε ρ : Type}

theorem check_bind {state : QueueState} : queueStateChangeCheck state .bind true = true ↔ state = .init := by
  cases state <;> decide

theorem check_init {state : QueueState} : queueStateChangeCheck state .init false = true ↔ state = .bind := by
  cases state <;> decide

theorem check_invalid {state : QueueState} :
    queueStateChangeCheck state .invalid false = true ↔ state = .init := by
  cases state <;> decide

/-- The state of a queue that is added to an EO. -/
def Active (state : QueueState) : Prop := state = .bind ∨ state = .ready

instance (state : QueueState) : Decidable (Active state) := inferInstanceAs (Decidable (_ ∨ _))

/-- What the queues of an EO have copied from it. -/
structure EoElem.SameFields (x y : EoElem ι ρ) : Prop where
  allocated : y.allocated = x.allocated
  maxEvents : y.maxEvents = x.maxEvents
  useMultiRcv : y.useMultiRcv = x.useMultiRcv
  receiveFunc : y.receiveFunc = x.receiveFunc
  receiveMultiFunc : y.receiveMultiFunc = x.receiveMultiFunc
  eoCtx : y.eoCtx = x.eoCtx

theorem EoElem.SameFields.refl (x : EoElem ι ρ) : x.SameFields x := ⟨rfl,rfl,rfl,rfl,rfl,rfl⟩

theorem EoElem.SameFields.trans {x y z : EoElem ι ρ} (h : x.SameFields y) (h' : y.SameFields z) :
    x.SameFields z :=
  ⟨h'.allocated.trans h.allocated,h'.maxEvents.trans h.maxEvents,
    h'.useMultiRcv.trans h.useMultiRcv,h'.receiveFunc.trans h.receiveFunc,
    h'.receiveMultiFunc.trans h.receiveMultiFunc,h'.eoCtx.trans h.eoCtx⟩

/-- The calls that start or stop EOs are the same. -/
structure SameCalls (ps qs : List (Pending ι ε)) : Prop where
  phases : qs.filterMap Pending.phase = ps.filterMap Pending.phase
  mem : ∀ p : Pending ι ε, p.phase ≠ none → (p ∈ qs ↔ p ∈ ps)

theorem SameCalls.refl (ps : List (Pending ι ε)) : SameCalls ps ps := ⟨rfl,fun _ _ => .rfl⟩

theorem SameCalls.trans {ps qs rs : List (Pending ι ε)} (h : SameCalls ps qs) (h' : SameCalls qs rs) :
    SameCalls ps rs :=
  ⟨h'.phases.trans h.phases,fun p hp => (h'.mem p hp).trans (h.mem p hp)⟩

theorem SameCalls.append {p : Pending ι ε} (hp : p.phase = none) (ps : List (Pending ι ε)) :
    SameCalls ps (ps ++ [p]) := by
  refine ⟨by simp [hp],fun r hr => ?_⟩
  have hne : r ≠ p := by
    rintro rfl
    exact hr hp
  simp [hne]

/-- What changes are limited to: a queue is removed from its own EO only, the queue groups of
queues are kept, no queue is enabled and no EO starts or stops, no EO is created or deleted. -/
structure Limits where
  own : Bool := false
  keep : Bool := false
  quiet : Bool := false
  fixed : Bool := false

namespace State
section
variable [DecidableEq ι] [DecidableEq γ] [DecidableEq α] [DecidableEq ε]

/-- What the operations are made of. -/
inductive Change (c : Limits) : State ι γ α ε ρ → State ι γ α ε ρ → Prop where
  | createQueue {s : State ι γ α ε ρ} {q : ι} {p : Create ι γ α} (h : s.tbl.Fresh q p)
      (hcheck : s.tbl.queueCreateCheckArgs p = true) : Change c s (s.queueCreate q p)
  | pktinQueue {s : State ι γ α ε ρ} {q : ι} {type : QueueType} {g : γ} (contextSetOk : Bool)
      (hq : (s.tbl.elem q).allocated = false) (htype : type.scheduled = true)
      (hg : s.tbl.groupAllocated g = true) : Change c s (s.pktinEventQueue2em q type g contextSetOk)
  | deleteQueue (s : State ι γ α ε ρ) (q : ι) (destroyOk : ι → Bool) :
      Change c s (s.queueDelete q destroyOk).1
  | createGroup {s : State ι γ α ε ρ} {tbl : QueueTable.State ι γ α} {g : γ}
      (h : s.tbl.step (.createGroup g) = some tbl) : Change c s { s with tbl }
  | deleteGroup {s : State ι γ α ε ρ} {tbl : QueueTable.State ι γ α} {g : γ}
      (h : s.tbl.step (.deleteGroup g) = some tbl)
      (hkeep : c.keep = true → ∀ q, (s.tbl.elem q).allocated = true →
        (s.tbl.elem q).queueGroup ≠ some g) : Change c s { s with tbl }
  | setState {s : State ι γ α ε ρ} {q : ι} {state : QueueState}
      (halloc : (s.tbl.elem q).allocated = true) (htype : ofEo (s.tbl.elem q).type = true)
      (hq : Active (s.tbl.elem q).state) (hstate : Active state)
      (hquiet : c.quiet = true → state = .bind) : Change c s (s.setQueueState q state)
  | addQueue {s : State ι γ α ε ρ} {e : ε} {q : ι} (he : (s.eoElem e).allocated = true)
      (hq : (s.tbl.elem q).allocated = true) (htype : ofEo (s.tbl.elem q).type = true)
      (hstate : (s.tbl.elem q).state = .init) : Change c s (s.eoAddQueue e q).1
  | removeQueue {s : State ι γ α ε ρ} {e : ε} {q : ι} (hstate : (s.tbl.elem q).state = .bind)
      (hown : c.own = true → (s.binding q).eoElem = some e) : Change c s (s.eoRemQueue e q).1
  | setEo {s : State ι γ α ε ρ} {e : ε} {x : EoElem ι ρ} (hlist : x.queueList = (s.eoElem e).queueList)
      (hnum : x.numQueues = BitVec.ofNat 32 x.queueList.length ∨
        x.numQueues = (s.eoElem e).numQueues)
      (hsame : x.queueList ≠ [] → (s.eoElem e).SameFields x) (hquiet : c.quiet = false)
      (hfixed : c.fixed = true → (s.eoElem e).SameFields x) : Change c s (s.setEo e x)
  | pending (s : State ι γ α ε ρ) (pending : List (Pending ι ε))
      (hquiet : c.quiet = true → SameCalls s.pending pending) :
      Change c s { s with pending }

abbrev Changes (c : Limits) : State ι γ α ε ρ → State ι γ α ε ρ → Prop :=
  Relation.ReflTransGen (Change c)

omit [DecidableEq ε] in
theorem createGroup_tbl {tbl tbl' : QueueTable.State ι γ α} {g : γ}
    (h : tbl.step (.createGroup g) = some tbl') :
    tbl'.elem = tbl.elem ∧ tbl'.groupAllocated = Function.update tbl.groupAllocated g true := by
  simp only [QueueTable.State.step] at h
  split at h <;> cases h
  exact ⟨rfl,rfl⟩

omit [DecidableEq ε] in
theorem deleteGroup_tbl {tbl tbl' : QueueTable.State ι γ α} {g : γ}
    (h : tbl.step (.deleteGroup g) = some tbl') :
    tbl'.elem = tbl.elem ∧ tbl'.groupAllocated = Function.update tbl.groupAllocated g false := by
  simp only [QueueTable.State.step] at h
  split at h <;> cases h
  exact ⟨rfl,rfl⟩

end

section
variable [DecidableEq ι] [DecidableEq ε] {s : State ι γ α ε ρ} {e : ε} {q : ι}

/-- A queue in its initial state is added to an EO. -/
theorem eoAddQueue_ok (h : (s.tbl.elem q).state = .init) : s.eoAddQueue e q = ({ s with
    tbl := s.tbl.setElem q { s.tbl.elem q with state := .bind }
    binding := Function.update s.binding q { s.binding q with
      maxEvents := (s.eoElem e).maxEvents.setWidth 16
      useMultiRcv := (s.eoElem e).useMultiRcv
      receive := if (s.eoElem e).useMultiRcv then (s.eoElem e).receiveMultiFunc
        else (s.eoElem e).receiveFunc
      eo := some e
      eoCtx := (s.eoElem e).eoCtx
      eoElem := some e }
    eoElem := Function.update s.eoElem e { s.eoElem e with
      queueList := (s.eoElem e).queueList ++ [q]
      numQueues := (s.eoElem e).numQueues + 1 } },.ok) := by
  simp only [eoAddQueue, check_bind.2 h, Bool.not_true, Bool.false_eq_true, if_false]

theorem eoAddQueue_failed (h : (s.tbl.elem q).state ≠ .init) : s.eoAddQueue e q = (s,.badState) := by
  simp only [eoAddQueue, Bool.eq_false_of_not_eq_true (mt check_bind.1 h), Bool.not_false, if_true]

/-- A queue that is disabled is removed. -/
theorem eoRemQueue_ok (h : (s.tbl.elem q).state = .bind) : s.eoRemQueue e q = ({ s with
    tbl := s.tbl.setElem q { s.tbl.elem q with state := .init }
    binding := Function.update s.binding q { s.binding q with eo := none, eoElem := none }
    eoElem := fun d => { s.eoElem d with
      queueList := (s.eoElem d).queueList.erase q
      numQueues := if d = e then (s.eoElem d).numQueues - 1 else (s.eoElem d).numQueues } },.ok) := by
  simp only [eoRemQueue, check_init.2 h, Bool.not_true, Bool.false_eq_true, if_false, listRem, setEo]
  refine congrArg (fun eoElem => (({ s with
    tbl := s.tbl.setElem q { s.tbl.elem q with state := .init }
    binding := Function.update s.binding q { s.binding q with eo := none, eoElem := none }
    eoElem } : State ι γ α ε ρ),Status.ok)) ?_
  funext d
  by_cases hd : d = e
  · rw [hd, Function.update_self, if_pos rfl]
  · rw [Function.update_of_ne hd, if_neg hd]

theorem eoRemQueue_failed (h : (s.tbl.elem q).state ≠ .bind) : s.eoRemQueue e q = (s,.badState) := by
  simp only [eoRemQueue, Bool.eq_false_of_not_eq_true (mt check_init.1 h), Bool.not_false, if_true]

end

end State
end EmOdp.EoQueues
