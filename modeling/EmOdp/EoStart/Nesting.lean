import Mathlib.Logic.Basic

/-! What one core executes while start functions nest: the core-local `start_eo_elem` and
`current.q_elem`, and where the events sent to scheduled queues go. -/
namespace EmOdp.EoStart.Nesting

/-- `locm->current.q_elem` -/
inductive QElem where
  | null
  | queue (queue : Nat)
  /-- the temporary queue element of a start or stop function of an EO -/
  | tmp (eo : Nat)
  /-- a control queue -/
  | ctrl
  deriving DecidableEq, Repr

/-- The fields of `em_locm_t` that the start functions set. -/
@[ext] structure Locm where
  startEo : Option Nat
  qElem : QElem
  deriving DecidableEq, Repr

/-- Calls executed by one core. -/
inductive Calls where
  | skip
  | seq (p q : Calls)
  /-- `em_send` and its variants to a scheduled queue -/
  | send (event : Nat)
  /-- `em_eo_start`, or `em_eo_start_sync` up to its poll, with the global start function -/
  | emEoStart (eo : Nat) (startFunc : Calls)
  /-- a local start function, run by `i_event__eo_local_func_call_req` -/
  | localStart (eo : Nat) (startLocalFunc : Calls)
  | localStop (eo : Nat) (stopLocalFunc : Calls)
  /-- `poll_unsched_ctrl_queue` of a sync API with the handlers that it runs -/
  | poll (handlers : Calls)
  /-- `eo_start_send_buffered_events` -/
  | flush (events : List Nat)

/-- What can be observed of an execution. -/
inductive Obs where
  /-- an event sent by the start function of an EO, or else on behalf of another operation,
  and the EO for which it is buffered -/
  | sent (event : Nat) (sender bufferedFor : Option Nat)
  /-- a call has returned -/
  | returned (before after : Locm)
  deriving DecidableEq, Repr

/-- The event is buffered for the EO whose start function has sent it, and a call leaves the
core-local fields as they were. -/
def Obs.Right : Obs → Prop
  | .sent _ sender bufferedFor => bufferedFor = sender
  | .returned before after => after = before

/-- Executes the calls on behalf of `sender`, the EO whose start function they are in. -/
def Calls.run (sender : Option Nat) : Calls → Locm → Locm × List Obs
  | .skip, locm => (locm,[])
  | .seq p q, locm =>
    let (locm,obs) := p.run sender locm
    let (locm,obs') := q.run sender locm
    (locm,obs ++ obs')
  | .send event, locm => (locm,[.sent event sender locm.startEo])
  | .emEoStart eo startFunc, locm =>
    let (after,obs) := startFunc.run (some eo) ⟨some eo,.tmp eo⟩
    -- the queue element is restored, the EO is reset
    let after := { after with qElem := locm.qElem, startEo := none }
    (after,obs ++ [.returned locm after])
  | .localStart eo startLocalFunc, locm =>
    let (after,obs) := startLocalFunc.run (some eo) ⟨some eo,.tmp eo⟩
    let after := { after with qElem := locm.qElem, startEo := none }
    (after,obs ++ [.returned locm after])
  | .localStop eo stopLocalFunc, locm =>
    let (after,obs) := stopLocalFunc.run none { locm with qElem := .tmp eo }
    let after := { after with qElem := locm.qElem }
    (after,obs ++ [.returned locm after])
  | .poll handlers, locm =>
    let (after,obs) := handlers.run none { locm with qElem := .ctrl }
    -- `locm->current` is saved and restored
    let after := { after with qElem := locm.qElem }
    (after,obs ++ [.returned locm after])
  | .flush events, locm => (locm,events.map fun event => .sent event none locm.startEo)

/-- No start function is run and nothing is sent to a scheduled queue. -/
def Calls.Quiet : Calls → Prop
  | .skip => True
  | .seq p q => p.Quiet ∧ q.Quiet
  | .send _ | .emEoStart .. | .localStart .. => False
  | .localStop _ p | .poll p => p.Quiet
  | .flush events => events = []

/-- A start function that runs no other start function, in which no other operation sends. -/
def Calls.Unnested : Calls → Prop
  | .skip | .send _ => True
  | .seq p q => p.Unnested ∧ q.Unnested
  | .emEoStart .. | .localStart .. => False
  | .localStop _ p | .poll p => p.Quiet
  | .flush events => events = []

/-- Calls in which all start functions are unnested. -/
def Calls.AllUnnested : Calls → Prop
  | .skip | .send _ | .flush _ => True
  | .seq p q => p.AllUnnested ∧ q.AllUnnested
  | .emEoStart _ p | .localStart _ p => p.Unnested
  | .localStop _ p | .poll p => p.AllUnnested

/-- Whatever nests, the queue element is the same again after the calls. -/
theorem Calls.qElem_run (p : Calls) (sender : Option Nat) (locm : Locm) :
    (p.run sender locm).1.qElem = locm.qElem := by
  induction p generalizing sender locm with
  | skip => rfl
  | seq p q hp hq => exact (hq ..).trans (hp ..)
  | send => rfl
  | emEoStart => rfl
  | localStart => rfl
  | localStop => rfl
  | poll => rfl
  | flush => rfl

/-- All that is observed is right. -/
def Right (obs : List Obs) : Prop := ∀ o ∈ obs, o.Right

@[simp] theorem right_nil : Right [] := nofun

@[simp] theorem right_append {obs obs' : List Obs} : Right (obs ++ obs') ↔ Right obs ∧ Right obs' :=
  List.forall_mem_append

@[simp] theorem right_singleton {o : Obs} : Right [o] ↔ o.Right := by simp [Right]

theorem right_flush {events : List Nat} {bufferedFor : Option Nat} :
    Right (events.map fun event => .sent event none bufferedFor) ↔ events = [] ∨ bufferedFor = none := by
  cases events with
  | nil => simp
  | cons event events =>
    simp only [Right, List.forall_mem_map, Obs.Right, List.cons_ne_nil, false_or]
    exact ⟨fun h => h event List.mem_cons_self,fun h _ _ => h⟩

/-- A nested start function resets `start_eo_elem`. -/
theorem Obs.not_right_reset {locm : Locm} {eo : Nat} {qElem : QElem}
    (h : locm.startEo = some eo) : ¬(Obs.returned locm ⟨none,qElem⟩).Right := fun hr => by
  rw [← (hr : (⟨none,qElem⟩ : Locm) = locm)] at h
  cases h

/-- What another operation sends is buffered for the EO. -/
theorem Obs.not_right_sent {bufferedFor : Option Nat} {event eo : Nat} (h : bufferedFor = some eo) :
    ¬(Obs.sent event none bufferedFor).Right := fun hr => by
  cases h.symm.trans hr

theorem not_right_append {obs : List Obs} {o : Obs} (h : ¬o.Right) : ¬Right (obs ++ [o]) :=
  fun hr => h (right_singleton.1 (right_append.1 hr).2)

/-- While the core is in a start function, what is done for other operations is right only
if it is quiet. -/
theorem Calls.quiet_iff (p : Calls) (eo : Nat) (locm : Locm) (h : locm.startEo = some eo) :
    (Right (p.run none locm).2 ↔ p.Quiet) ∧ (p.Quiet → (p.run none locm).1.startEo = some eo) := by
  induction p generalizing locm with
  | skip => exact ⟨iff_of_true right_nil trivial,fun _ => h⟩
  | seq p q hp hq =>
    obtain ⟨hpr,hpe⟩ := hp locm h
    refine ⟨right_append.trans ?_,fun hs => (hq _ (hpe hs.1)).2 hs.2⟩
    rw [hpr]
    exact and_congr_right fun hs => (hq _ (hpe hs)).1
  | send event => exact ⟨iff_of_false (mt right_singleton.1 (Obs.not_right_sent h)) id,nofun⟩
  | emEoStart e p _ => exact ⟨iff_of_false (not_right_append (Obs.not_right_reset h)) id,nofun⟩
  | localStart e p _ => exact ⟨iff_of_false (not_right_append (Obs.not_right_reset h)) id,nofun⟩
  | localStop e p hp =>
    obtain ⟨hpr,hpe⟩ := hp { locm with qElem := .tmp e } h
    refine ⟨right_append.trans ?_,hpe⟩
    rw [hpr, right_singleton]
    exact and_iff_left_of_imp fun hs => Locm.ext ((hpe hs).trans h.symm) rfl
  | poll p hp =>
    obtain ⟨hpr,hpe⟩ := hp { locm with qElem := .ctrl } h
    refine ⟨right_append.trans ?_,hpe⟩
    rw [hpr, right_singleton]
    exact and_iff_left_of_imp fun hs => Locm.ext ((hpe hs).trans h.symm) rfl
  | flush events =>
    have hsome : locm.startEo ≠ none := by
      rw [h]
      exact Option.some_ne_none eo
    exact ⟨right_flush.trans (or_iff_left hsome),fun _ => h⟩

/-- The start function of an EO. -/
theorem Calls.unnested_iff (p : Calls) (eo : Nat) (locm : Locm) (h : locm.startEo = some eo) :
    (Right (p.run (some eo) locm).2 ↔ p.Unnested) ∧
      (p.Unnested → (p.run (some eo) locm).1.startEo = some eo) := by
  induction p generalizing locm with
  | skip => exact ⟨iff_of_true right_nil trivial,fun _ => h⟩
  | seq p q hp hq =>
    obtain ⟨hpr,hpe⟩ := hp locm h
    refine ⟨right_append.trans ?_,fun hs => (hq _ (hpe hs.1)).2 hs.2⟩
    rw [hpr]
    exact and_congr_right fun hs => (hq _ (hpe hs)).1
  | send event => exact ⟨iff_of_true (right_singleton.2 h) trivial,fun _ => h⟩
  | emEoStart e p _ => exact ⟨iff_of_false (not_right_append (Obs.not_right_reset h)) id,nofun⟩
  | localStart e p _ => exact ⟨iff_of_false (not_right_append (Obs.not_right_reset h)) id,nofun⟩
  | localStop e p _ =>
    obtain ⟨hpr,hpe⟩ := p.quiet_iff eo { locm with qElem := .tmp e } h
    refine ⟨right_append.trans ?_,hpe⟩
    rw [hpr, right_singleton]
    exact and_iff_left_of_imp fun hs => Locm.ext ((hpe hs).trans h.symm) rfl
  | poll p _ =>
    obtain ⟨hpr,hpe⟩ := p.quiet_iff eo { locm with qElem := .ctrl } h
    refine ⟨right_append.trans ?_,hpe⟩
    rw [hpr, right_singleton]
    exact and_iff_left_of_imp fun hs => Locm.ext ((hpe hs).trans h.symm) rfl
  | flush events =>
    have hsome : locm.startEo ≠ none := by
      rw [h]
      exact Option.some_ne_none eo
    exact ⟨right_flush.trans (or_iff_left hsome),fun _ => h⟩

/-- Outside of all start functions the core-local EO is never set. -/
theorem Calls.startEo_run (p : Calls) (sender : Option Nat) (locm : Locm)
    (h : locm.startEo = none) : (p.run sender locm).1.startEo = none := by
  induction p generalizing sender locm with
  | skip => exact h
  | seq p q hp hq => exact hq _ _ (hp _ _ h)
  | send => exact h
  | emEoStart => rfl
  | localStart => rfl
  | localStop e p hp => exact hp _ _ h
  | poll p hp => exact hp _ _ h
  | flush => exact h

/-- The buffering context nests exactly if no start function runs within a start function
and no other operation sends to a scheduled queue within one. -/
theorem Calls.context_nests_iff (p : Calls) (qElem : QElem) :
    Right (p.run none ⟨none,qElem⟩).2 ↔ p.AllUnnested := by
  induction p generalizing qElem with
  | skip => simp [run, AllUnnested]
  | seq p q hp hq =>
    have hlocm : (p.run none ⟨none,qElem⟩).1 = ⟨none,qElem⟩ :=
      Locm.ext (p.startEo_run none _ rfl) (p.qElem_run none _)
    simp only [run, right_append, hp, AllUnnested, hlocm, hq]
  | send event => simp [run, AllUnnested, Obs.Right]
  | emEoStart e p _ =>
    simp [run, AllUnnested, Obs.Right, (p.unnested_iff e ⟨some e,.tmp e⟩ rfl).1]
  | localStart e p _ =>
    simp [run, AllUnnested, Obs.Right, (p.unnested_iff e ⟨some e,.tmp e⟩ rfl).1]
  | localStop e p hp =>
    have hstart := p.startEo_run none ⟨none,.tmp e⟩ rfl
    simp [run, AllUnnested, Obs.Right, hp, hstart]
  | poll p hp =>
    have hstart := p.startEo_run none ⟨none,.ctrl⟩ rfl
    simp [run, AllUnnested, Obs.Right, hp, hstart]
  | flush events => simp [run, right_flush, AllUnnested]

/-- The start function of EO 1 starts EO 2 and then sends event 7, which is not buffered. -/
theorem Calls.nested_start_not_buffered :
    ¬Right (run none (.emEoStart 1 (.seq (.emEoStart 2 .skip) (.send 7))) ⟨none,.null⟩).2 := by
  intro h
  have hsent := h (.sent 7 (some 1) none) (by decide)
  cases hsent

end EmOdp.EoStart.Nesting
