import EmOdp.EoQueues.Stuck

/-! The calls that wait until an operation on an EO is done. -/
namespace EmOdp.EoQueues
open Lib QueueTable
open EoStart (EoState)
variable {ι γ α ε ρ : Type}

/-- The core of a call; `inProgress` is `locm->sync_api.in_progress`. -/
structure SyncCore (ι γ α ε ρ : Type) where
  state : State ι γ α ε ρ
  inProgress : Bool

/-- What happens until a function returns: its steps and those of the other cores, and what it
does with the flag of its core by calls of its own. -/
structure Meanwhile (ι γ α ε ρ : Type) where
  steps : List (Label ι γ α ε ρ) := []
  inProgress : Bool → Bool := id

/-- A run of a start or stop function -/
structure UserFunc (ι γ α ε ρ : Type) extends Meanwhile ι γ α ε ρ where
  ok : Bool := true

/-- A control event that the core handles while it waits. -/
inductive Handled (ι γ α ε ρ : Type) where
  /-- the done event of its own call; the local functions have succeeded or not -/
  | doneEvent (ok : Bool) (destroyOk : ι → Bool)
  | other (m : Meanwhile ι γ α ε ρ)

/-- A start or stop comes to its end by its own call only. -/
def Pending.allows [DecidableEq ε] (p : Pending ι ε) (l : Label ι γ α ε ρ) : Bool :=
  p.phase.all fun y => !l.endsCall y.1

/-- `eo_stop_sync_done_callback` leaves the rest to its caller. -/
def Pending.doneSteps (p : Pending ι ε) (ok : Bool) (destroyOk : ι → Bool) : List (Label ι γ α ε ρ) :=
  match p with
  | .stopLocal _ => []
  | p => [.done p ok .zero true destroyOk]

def Handled.steps (p : Pending ι ε) : Handled ι γ α ε ρ → List (Label ι γ α ε ρ)
  | .doneEvent ok destroyOk => p.doneSteps ok destroyOk
  | .other m => m.steps

/-- The steps of all polls -/
def Handled.allSteps (p : Pending ι ε) (polls : List (List (Handled ι γ α ε ρ))) :
    List (Label ι γ α ε ρ) :=
  polls.flatten.flatMap (Handled.steps p)

variable [DecidableEq ι] [DecidableEq γ] [DecidableEq α] [DecidableEq ε]

namespace SyncCore
variable (c : SyncCore ι γ α ε ρ)

def steps (allows : Label ι γ α ε ρ → Bool) (ls : List (Label ι γ α ε ρ)) (inProgress : Bool) :
    Option (SyncCore ι γ α ε ρ) :=
  (System.exec State.step (fun _ l _ => allows l) c.state ls).map (⟨·,inProgress⟩)

/-- `eo_start_sync_done_callback`, `eo_stop_sync_done_callback`,
`eo_remove_queue_sync_done_callback` and `eo_remove_queue_all_sync_done_callback`, or what
another event is for -/
def handle (p : Pending ι ε) : Handled ι γ α ε ρ → Option (SyncCore ι γ α ε ρ)
  | .doneEvent ok destroyOk => c.steps (fun _ => true) (p.doneSteps ok destroyOk) false
  | .other m => c.steps p.allows m.steps (m.inProgress c.inProgress)

/-- `poll_unsched_ctrl_queue`, with the events that it finds -/
def pollUnschedCtrlQueue (p : Pending ι ε) (events : List (Handled ι γ α ε ρ)) :
    Option (SyncCore ι γ α ε ρ) :=
  events.foldlM (handle · p) c

/-- The core polls while `in_progress` is set. -/
def wait (p : Pending ι ε) :
    SyncCore ι γ α ε ρ → List (List (Handled ι γ α ε ρ)) → Option (SyncCore ι γ α ε ρ)
  | c, [] => if c.inProgress then none else some c
  | c, events :: polls =>
    if c.inProgress then (c.pollUnschedCtrlQueue p events).bind (wait p · polls) else none

/-- `em_eo_start_sync` after the start function -/
def startSyncFuncDone (e : ε) (startOk : Bool) (reqsSent : ReqsSent)
    (polls : List (List (Handled ι γ α ε ρ))) : Option (SyncCore ι γ α ε ρ × Status) :=
  let s := { c.state with pending := c.state.pending.erase (.startFunc e true) }
  let startLocalFunc := (s.eoElem e).startLocalFunc.isSome
  if !startOk then some (⟨s.setEoState e .error,c.inProgress⟩,.err)
  else if startLocalFunc && reqsSent = .failed then
    some (⟨s.setEoState e .error,false⟩,.operationFailed)
  else if startLocalFunc && reqsSent = .some then
    (wait (.startLocal e) ⟨s.add (.startLocal e),true⟩ polls).map (·,.ok)
  else
    let r := s.queueEnableAll e
    if r.2 ≠ .ok then some (⟨r.1.setEoState e .error,false⟩,r.2)
    else some (⟨r.1.setEoState e .running,c.inProgress⟩,.ok)

/-- `em_eo_start_sync` -/
def emEoStartSync (e : ε) (stashOk : Bool) (start : UserFunc ι γ α ε ρ) (reqsSent : ReqsSent)
    (polls : List (List (Handled ι γ α ε ρ))) : Option (SyncCore ι γ α ε ρ × Status) :=
  let r := c.state.emEoStart e true true stashOk
  if r.2 ≠ .ok then some (⟨r.1,c.inProgress⟩,r.2)
  else (steps ⟨r.1,c.inProgress⟩ (Pending.startFunc e true).allows start.steps
    (start.inProgress c.inProgress)).bind (startSyncFuncDone · e start.ok reqsSent polls)

/-- `eo_stop_done`; anything may happen until the stop function returns. -/
def eoStopDone (e : ε) (stop : UserFunc ι γ α ε ρ) : Option (SyncCore ι γ α ε ρ × Status) :=
  (steps ⟨c.state.eoStopDone e,c.inProgress⟩ (fun _ => true) stop.steps
    (stop.inProgress c.inProgress)).map (·,if stop.ok then .ok else .err)

/-- `em_eo_stop_sync` -/
def emEoStopSync (e : ε) (reqsSent : ReqsSent) (polls : List (List (Handled ι γ α ε ρ)))
    (stop : UserFunc ι γ α ε ρ) : Option (SyncCore ι γ α ε ρ × Status) :=
  let s := c.state
  if !(s.eoElem e).allocated then some (c,.badArg)
  else if !(s.eoElem e).state.acceptsStop then some (c,.badState)
  else
    let r := (s.setEoState e .stopping).queueDisableAll e
    if r.2 ≠ .ok then some (⟨r.1,false⟩,r.2)
    else match reqsSent with
      | .failed => some (⟨r.1.setEoState e .error,false⟩,.operationFailed)
      | .zero => eoStopDone ⟨r.1,true⟩ e stop
      | .some => (wait (.stopLocal e) ⟨r.1.add (.stopLocal e),true⟩ polls).bind fun c : SyncCore ι γ α ε ρ =>
        eoStopDone ⟨{ c.state with pending := c.state.pending.erase (.stopLocal e) },c.inProgress⟩ e stop

/-- `em_eo_remove_queue_sync` -/
def emEoRemoveQueueSync (e : ε) (q : ι) (reqsSent : ReqsSent)
    (polls : List (List (Handled ι γ α ε ρ))) : Option (SyncCore ι γ α ε ρ × Status) :=
  let s := c.state
  if !(s.eoElem e).allocated || !(s.tbl.elem q).allocated then some (c,.notCreated)
  else if !ofEo (s.tbl.elem q).type then some (c,.badType)
  else if (s.binding q).eoElem ≠ some e then some (c,.badPointer)
  else
    let r := if (s.tbl.elem q).state = .ready then s.queueDisable q else (s,.ok)
    if r.2 ≠ .ok then some (⟨r.1,false⟩,r.2)
    else match reqsSent with
      | .failed => some (⟨r.1,false⟩,.operationFailed)
      | .some =>
        (wait (.removeQueue e q) ⟨r.1.add (.removeQueue e q),true⟩ polls).map (·,.ok)
      | .zero =>
        let r := r.1.eoRemQueue e q
        if r.2 ≠ .ok then some (⟨r.1,false⟩,r.2) else some (⟨r.1,true⟩,.ok)

/-- `em_eo_remove_queue_all_sync` -/
def emEoRemoveQueueAllSync (e : ε) (deleteQueues : Bool) (reqsSent : ReqsSent)
    (polls : List (List (Handled ι γ α ε ρ))) (destroyOk : ι → Bool) :
    Option (SyncCore ι γ α ε ρ × Status) :=
  let s := c.state
  if !(s.eoElem e).allocated then some (c,.notCreated)
  else
    let r := s.queueDisableAll e
    if r.2 ≠ .ok then some (⟨r.1,false⟩,r.2)
    else match reqsSent with
      | .failed => some (⟨r.1,false⟩,.operationFailed)
      | .some =>
        (wait (.removeQueueAll e deleteQueues) ⟨r.1.add (.removeQueueAll e deleteQueues),true⟩
          polls).map (·,.ok)
      | .zero =>
        let r := r.1.removeAll e deleteQueues destroyOk
        if r.2 ≠ .ok then some (⟨r.1,false⟩,r.2) else some (⟨r.1,true⟩,.ok)

/-- The call has ended, and the EO is not left in its start or stop. -/
structure Clean (e : ε) : Prop where
  inProgress : c.inProgress = false
  notStuck : ¬c.state.Stuck e

variable {c} {c' : SyncCore ι γ α ε ρ} {e : ε} {q : ι} {p : Pending ι ε} {r : SyncCore ι γ α ε ρ × Status}
  {stashOk : Bool} {start stop : UserFunc ι γ α ε ρ} {reqsSent : ReqsSent} {deleteQueues : Bool}
  {polls : List (List (Handled ι γ α ε ρ))} {destroyOk : ι → Bool}

theorem steps_path {allows : Label ι γ α ε ρ → Bool} {ls : List (Label ι γ α ε ρ)} {inProgress : Bool}
    (h : c.steps allows ls inProgress = some c') :
    System.Path (State.machine ι γ α ε ρ) c.state ls c'.state ∧ (∀ l ∈ ls, allows l = true) ∧
      c'.inProgress = inProgress := by
  obtain ⟨s,hs,rfl⟩ := Option.map_eq_some_iff.1 h
  obtain ⟨hpath,hls⟩ := System.Path.of_exec hs
  exact ⟨hpath,hls,rfl⟩

theorem handle_path {event : Handled ι γ α ε ρ} (h : c.handle p event = some c') :
    System.Path (State.machine ι γ α ε ρ) c.state (event.steps p) c'.state ∧
      ∀ l ∈ event.steps p, p.allows l = true ∨ ∃ ok destroyOk, l ∈ p.doneSteps ok destroyOk := by
  cases event with
  | doneEvent ok destroyOk =>
    obtain ⟨hpath,-,-⟩ := steps_path h
    exact ⟨hpath,fun l hl => .inr ⟨ok,destroyOk,hl⟩⟩
  | other m =>
    obtain ⟨hpath,hls,-⟩ := steps_path h
    exact ⟨hpath,fun l hl => .inl (hls l hl)⟩

theorem pollUnschedCtrlQueue_path {events : List (Handled ι γ α ε ρ)}
    (h : c.pollUnschedCtrlQueue p events = some c') :
    System.Path (State.machine ι γ α ε ρ) c.state (events.flatMap (Handled.steps p)) c'.state ∧
      ∀ l ∈ events.flatMap (Handled.steps p),
        p.allows l = true ∨ ∃ ok destroyOk, l ∈ p.doneSteps ok destroyOk := by
  induction events generalizing c with
  | nil =>
    cases h
    exact ⟨.nil _,fun _ hl => absurd hl List.not_mem_nil⟩
  | cons event events ih =>
    rw [pollUnschedCtrlQueue, List.foldlM_cons, Option.bind_eq_bind, Option.bind_eq_some_iff] at h
    obtain ⟨c₁,h₁,h⟩ := h
    obtain ⟨hpath₁,hls₁⟩ := handle_path h₁
    obtain ⟨hpath,hls⟩ := ih h
    rw [List.flatMap_cons]
    exact ⟨hpath₁.append hpath,fun l hl => (List.mem_append.1 hl).elim (hls₁ l) (hls l)⟩

/-- The flag is clear after the loop. -/
theorem wait_path (h : wait p c polls = some c') : c'.inProgress = false ∧
    System.Path (State.machine ι γ α ε ρ) c.state (Handled.allSteps p polls) c'.state ∧
      ∀ l ∈ Handled.allSteps p polls,
        p.allows l = true ∨ ∃ ok destroyOk, l ∈ p.doneSteps ok destroyOk := by
  induction polls generalizing c with
  | nil =>
    simp only [wait] at h
    split at h <;> cases h
    exact ⟨Bool.eq_false_of_not_eq_true ‹_›,.nil _,fun _ hl => absurd hl List.not_mem_nil⟩
  | cons events polls ih =>
    simp only [wait] at h
    split at h
    swap
    · cases h
    rw [Option.bind_eq_some_iff] at h
    obtain ⟨c₁,h₁,h⟩ := h
    obtain ⟨hpath₁,hls₁⟩ := pollUnschedCtrlQueue_path h₁
    obtain ⟨hflag,hpath,hls⟩ := ih h
    rw [Handled.allSteps, List.flatten_cons, List.flatMap_append]
    exact ⟨hflag,hpath₁.append hpath,fun l hl => (List.mem_append.1 hl).elim (hls₁ l) (hls l)⟩

omit [DecidableEq ι] [DecidableEq γ] [DecidableEq α] in
theorem endsCall_of_allows {l : Label ι γ α ε ρ} {state : EoState} (hp : p.phase = some (e,state))
    (h : p.allows l = true) : l.endsCall e = false := by
  simpa [Pending.allows, hp] using h

/-- The start leaves the flag clear and the EO not in its start: -/
def StartsCleanly (c : SyncCore ι γ α ε ρ) (e : ε) (stashOk : Bool) (start : UserFunc ι γ α ε ρ)
    (reqsSent : ReqsSent) (polls : List (List (Handled ι γ α ε ρ))) : Prop :=
  let x := c.state.eoElem e
  ¬c.state.Stuck e ∧
    if x.allocated = true ∧ x.state.acceptsStart = true ∧ stashOk = true then
      if start.ok = true ∧ x.startLocalFunc.isSome = true ∧ reqsSent ≠ .zero then
        reqsSent = .some → ∀ l ∈ Handled.allSteps (.startLocal e) polls, l.failsLocalStart e = false
      else start.inProgress c.inProgress = false
    else c.inProgress = false

omit [DecidableEq ι] [DecidableEq γ] [DecidableEq α] in
/-- The start is accepted. -/
theorem emEoStart_ok {s : State ι γ α ε ρ} : (s.emEoStart e true true stashOk).2 = .ok ↔
    (s.eoElem e).allocated = true ∧ (s.eoElem e).state.acceptsStart = true ∧ stashOk = true := by
  simp only [State.emEoStart]
  cases (s.eoElem e).allocated <;> cases (s.eoElem e).state.acceptsStart <;> cases stashOk <;> simp

theorem clean_of_step {s t : State ι γ α ε ρ} {l : Label ι γ α ε ρ} {inProgress : Bool}
    (hs : (State.machine ι γ α ε ρ).Reachable s) (hst : s.step l = some t)
    (hl : l.failsLocalStart e = false) :
    Clean ⟨t,inProgress⟩ e ↔ ¬s.Stuck e ∧ inProgress = false := by
  obtain ⟨hinv,hclosed⟩ := State.reachable_calls hs
  have hstuck := State.step_stuck (e := e) hinv hclosed hst
  rw [hl, or_iff_left Bool.false_ne_true] at hstuck
  exact ⟨fun h => ⟨hstuck.not.1 h.notStuck,h.inProgress⟩,fun h => ⟨h.2,hstuck.not.2 h.1⟩⟩

theorem clean_of_path {s : State ι γ α ε ρ} {ls : List (Label ι γ α ε ρ)}
    (hs : (State.machine ι γ α ε ρ).Reachable s)
    (hpath : System.Path (State.machine ι γ α ε ρ) s ls c.state) :
    c.Clean e ↔ ¬s.Stuck e ∧ c.inProgress = false ∧ ∀ l ∈ ls, l.failsLocalStart e = false := by
  have hstuck := State.path_stuck (e := e) hs hpath
  constructor
  · rintro ⟨hflag,hno⟩
    rw [hstuck, not_or] at hno
    exact ⟨hno.1,hflag,fun l hl => Bool.eq_false_of_not_eq_true fun hf => hno.2 ⟨l,hl,hf⟩⟩
  · rintro ⟨hno,hflag,hls⟩
    refine ⟨hflag,fun h => (hstuck.1 h).elim hno ?_⟩
    rintro ⟨l,hl,hf⟩
    exact Bool.false_ne_true ((hls l hl).symm.trans hf)

omit [DecidableEq ι] [DecidableEq γ] [DecidableEq α] in
theorem clean_iff (h : ¬c.state.Stuck e) : c.Clean e ↔ c.inProgress = false :=
  ⟨Clean.inProgress,fun hflag => ⟨hflag,h⟩⟩

/-- The rest of the start takes the step of its start function, and waits or not. -/
theorem startSyncFuncDone_spec {startOk : Bool} (hs : (State.machine ι γ α ε ρ).Reachable c.state)
    (hmem : .startFunc e true ∈ c.state.pending)
    (h : c.startSyncFuncDone e startOk reqsSent polls = some r) :
    r.1.Clean e ↔
      if startOk = true ∧ (c.state.eoElem e).startLocalFunc.isSome = true ∧ reqsSent ≠ .zero then
        reqsSent = .some → ∀ l ∈ Handled.allSteps (.startLocal e) polls, l.failsLocalStart e = false
      else c.inProgress = false := by
  have hp : (Pending.startFunc (ι := ι) e true).startsOrStops e = true := by
    simp [Pending.startsOrStops, Pending.phase]
  have hdone : c.state.step (.done (.startFunc e true) startOk reqsSent true fun _ => true) =
      some (c.state.done (.startFunc e true) startOk reqsSent true fun _ => true) := if_pos hmem
  obtain ⟨hinv,hclosed⟩ := State.reachable_calls hs
  obtain ⟨-,hstuck⟩ := State.done_stuck hinv hclosed hmem hp startOk reqsSent true fun _ => true
  have hstuck := hstuck.not.2 Bool.false_ne_true
  have hs' := hs.step hdone trivial
  obtain ⟨-,halloc,-⟩ := hclosed.erase hmem rfl
  have hinv' : State.Inv { c.state with pending := c.state.pending.erase (.startFunc e true) } :=
    hinv.changes (.single (.pending (c := {}) _ _ (fun h => by cases h)))
  have henable := (State.queueEnableAll_switched hinv' halloc).1
  simp only [startSyncFuncDone] at h
  simp only [State.done, State.startFuncDone, State.startRunning] at hstuck hs'
  cases startOk with
  | false =>
    cases h
    refine (clean_iff hstuck).trans ?_
    simp
  | true =>
    cases hfunc : (c.state.eoElem e).startLocalFunc.isSome with
    | false =>
      simp only [hfunc, henable, Bool.not_true, Bool.false_eq_true, if_false, Bool.false_and, ne_eq,
        not_true_eq_false] at h hstuck
      cases h
      refine (clean_iff hstuck).trans ?_
      simp
    | true =>
      cases reqsSent with
      | failed =>
        simp only [hfunc, Bool.not_true, Bool.false_eq_true, if_false, decide_true, Bool.and_self,
          if_true] at h hstuck
        cases h
        refine (clean_iff hstuck).trans ?_
        simp
      | zero =>
        simp only [hfunc, henable, Bool.not_true, Bool.false_eq_true, if_false, if_true, ne_eq,
          not_true_eq_false, Bool.false_and] at h hstuck
        cases h
        refine (clean_iff hstuck).trans ?_
        simp
      | some =>
        simp only [hfunc, Bool.not_true, Bool.false_eq_true, if_false, if_true] at h hstuck hs'
        obtain ⟨c₁,h₁,rfl⟩ := Option.map_eq_some_iff.1 h
        obtain ⟨hflag,hpath,-⟩ := wait_path h₁
        rw [clean_of_path hs' hpath]
        simp [hstuck, hflag]

theorem emEoStartSync_clean (hs : (State.machine ι γ α ε ρ).Reachable c.state)
    (h : c.emEoStartSync e stashOk start reqsSent polls = some r) :
    r.1.Clean e ↔ c.StartsCleanly e stashOk start reqsSent polls := by
  have hstart : c.state.step (.start e true true stashOk) =
      some (c.state.emEoStart e true true stashOk).1 := rfl
  simp only [emEoStartSync] at h
  split at h
  · rename_i hok
    cases h
    rw [clean_of_step hs hstart rfl, StartsCleanly, if_neg (mt emEoStart_ok.2 hok)]
  rename_i hok
  have haccept := emEoStart_ok.1 (not_not.1 hok)
  obtain ⟨c₁,h₁,h⟩ := Option.bind_eq_some_iff.1 h
  obtain ⟨hpath,hallows,hflag⟩ := steps_path h₁
  have hs₀ := hs.step hstart trivial
  have hs₁ := hs₀.path hpath
  -- the start function returns while the EO is being started
  have hpending : (c.state.emEoStart e true true stashOk).1 =
      (c.state.setEoState e .starting).add (.startFunc e true) := by
    simp [State.emEoStart, haccept]
  have hsame : (c.state.emEoStart e true true stashOk).1.SameEo c₁.state e := by
    refine State.path_busy hs₀ hpath ⟨.startFunc e true,?_,?_⟩ fun l hl => ?_
    · rw [hpending]
      simp [State.add]
    · simp [Pending.startsOrStops, Pending.phase]
    · exact endsCall_of_allows rfl (hallows l hl)
  have hmem : .startFunc e true ∈ c₁.state.pending := by
    refine (hsame.calls _ ?_).2 ?_
    · simp [Pending.startsOrStops, Pending.phase]
    · rw [hpending]
      simp [State.add]
  have hlocal : (c₁.state.eoElem e).startLocalFunc = (c.state.eoElem e).startLocalFunc := by
    rw [hsame.startLocalFunc, hpending]
    simp [State.add, State.setEoState, State.setEo]
  have hno : ¬c.state.Stuck e := by
    rintro ⟨-,hstate | hstate,-⟩ <;> simp [hstate, EoState.acceptsStart] at haccept
  rw [startSyncFuncDone_spec hs₁ hmem h, StartsCleanly, if_pos haccept, hlocal, hflag]
  exact (and_iff_right hno).symm

/-- The stop leaves the flag clear and the EO not in its start or stop: -/
def StopsCleanly (c : SyncCore ι γ α ε ρ) (e : ε) (reqsSent : ReqsSent) (stop : UserFunc ι γ α ε ρ) :
    Prop :=
  let x := c.state.eoElem e
  ¬c.state.Stuck e ∧
    if x.allocated = true ∧ x.state.acceptsStop = true then
      reqsSent ≠ .failed → stop.inProgress (decide (reqsSent = .zero)) = false ∧
        ∀ l ∈ stop.steps, l.failsLocalStart e = false
    else c.inProgress = false

theorem eoStopDone_clean (hs : (State.machine ι γ α ε ρ).Reachable (c.state.eoStopDone e))
    (h : c.eoStopDone e stop = some r) : r.1.Clean e ↔
      stop.inProgress c.inProgress = false ∧ ∀ l ∈ stop.steps, l.failsLocalStart e = false := by
  obtain ⟨c₁,h₁,rfl⟩ := Option.map_eq_some_iff.1 h
  obtain ⟨hpath,-,hflag⟩ := steps_path h₁
  have hno : ¬(c.state.eoStopDone e).Stuck e := State.setEo_not_stuck nofun nofun
  rw [clean_of_path hs hpath, and_iff_right hno, hflag]

theorem emEoStopSync_clean (hs : (State.machine ι γ α ε ρ).Reachable c.state)
    (h : c.emEoStopSync e reqsSent polls stop = some r) :
    r.1.Clean e ↔ c.StopsCleanly e reqsSent stop := by
  simp only [emEoStopSync] at h
  split at h
  · rename_i halloc
    cases h
    rw [StopsCleanly, if_neg fun hc => by simp [hc.1] at halloc]
    exact ⟨fun h => ⟨h.notStuck,h.inProgress⟩,fun h => ⟨h.2,h.1⟩⟩
  rename_i halloc
  split at h
  · rename_i hstate
    cases h
    rw [StopsCleanly, if_neg fun hc => by simp [hc.2] at hstate]
    exact ⟨fun h => ⟨h.notStuck,h.inProgress⟩,fun h => ⟨h.2,h.1⟩⟩
  rename_i hstate
  simp only [Bool.not_eq_true', Bool.not_eq_false] at halloc hstate
  have hno : ¬c.state.Stuck e := by
    rintro ⟨-,hc | hc,-⟩ <;> simp [hc, EoState.acceptsStop] at hstate
  rw [StopsCleanly, if_pos ⟨halloc,hstate⟩, and_iff_right hno]
  have hinv := (State.reachable_calls hs).1
  have hinv' : (c.state.setEoState e .stopping).Inv :=
    hinv.changes (State.setEoState_changes (c := {}) rfl c.state e .stopping)
  have halloc' : ((c.state.setEoState e .stopping).eoElem e).allocated = true := by
    simpa [State.setEoState, State.setEo] using halloc
  have hdisable := (State.queueDisableAll_switched hinv' halloc').1
  rw [if_neg (not_not.2 hdisable)] at h
  have hst : c.state.step (.stop e true true reqsSent) =
      some (c.state.emEoStop e true true reqsSent).1 := rfl
  have hstop := hs.step hst trivial
  simp only [State.emEoStop, halloc, hstate, hdisable, Bool.not_true, Bool.false_eq_true, if_false, ne_eq,
    not_true_eq_false, and_false] at hstop
  cases reqsSent with
  | failed =>
    cases h
    refine (clean_iff ?_).trans (by simp)
    exact State.setEo_not_stuck (fun h => by cases h) (fun h => by cases h)
  | zero => simpa using eoStopDone_clean hstop h
  | some =>
    rw [Option.bind_eq_some_iff] at h
    obtain ⟨c₁,h₁,h⟩ := h
    obtain ⟨hflag,hpath,hls⟩ := wait_path h₁
    have hs₁ := hstop.path hpath
    have hp : (Pending.stopLocal (ι := ι) e).startsOrStops e = true := by
      simp [Pending.startsOrStops, Pending.phase]
    have hadded : .stopLocal e ∈ (((c.state.setEoState e .stopping).queueDisableAll e).1.add
        (.stopLocal e)).pending := by
      simp [State.add]
    have hsame := State.path_busy hstop hpath ⟨_,hadded,hp⟩ fun l hl => by
      rcases hls l hl with hallows | ⟨ok,destroyOk,hdone⟩
      · exact endsCall_of_allows rfl hallows
      · cases hdone
    have hmem : .stopLocal e ∈ c₁.state.pending := (hsame.calls _ hp).2 hadded
    have hdone : c₁.state.step (.done (.stopLocal e) true .zero true fun _ => true) =
        some (c₁.state.done (.stopLocal e) true .zero true fun _ => true) := if_pos hmem
    have hs₂ := hs₁.step hdone trivial
    refine (eoStopDone_clean hs₂ h).trans ?_
    rw [hflag]
    simp

/-- The remove leaves the flag clear, and the EO not in its start or stop: -/
def RemovesCleanly (c : SyncCore ι γ α ε ρ) (e : ε) (q : ι) (reqsSent : ReqsSent)
    (polls : List (List (Handled ι γ α ε ρ))) : Prop :=
  ¬c.state.Stuck e ∧
    if (c.state.eoElem e).allocated = true ∧ (c.state.tbl.elem q).allocated = true ∧
        ofEo (c.state.tbl.elem q).type = true ∧ (c.state.binding q).eoElem = some e then
      reqsSent ≠ .zero ∧ (reqsSent = .some →
        ∀ l ∈ Handled.allSteps (.removeQueue e q) polls, l.failsLocalStart e = false)
    else c.inProgress = false

omit [DecidableEq ι] [DecidableEq γ] [DecidableEq α] in
theorem clean_self : c.Clean e ↔ ¬c.state.Stuck e ∧ c.inProgress = false :=
  ⟨fun h => ⟨h.notStuck,h.inProgress⟩,fun h => ⟨h.2,h.1⟩⟩

omit [DecidableEq γ] [DecidableEq α] [DecidableEq ε] in
/-- A queue of an EO is disabled. -/
theorem queueDisable_bind {s : State ι γ α ε ρ} (hinv : s.Inv) (halloc : (s.tbl.elem q).allocated = true)
    (hq : (s.binding q).eoElem = some e) :
    (if (s.tbl.elem q).state = .ready then s.queueDisable q else (s,.ok)).2 = .ok ∧
      ((if (s.tbl.elem q).state = .ready then s.queueDisable q else (s,.ok)).1.tbl.elem q).state = .bind := by
  obtain ⟨htype,hactive⟩ := (hinv.linked.bound q).1 ⟨e,hq⟩
  split
  · obtain ⟨hok,hst⟩ := State.queueStateSet_switched hinv (.inl rfl) hactive htype
    rw [State.queueDisable, halloc]
    exact ⟨hok,hst.inList q (List.mem_singleton_self q)⟩
  · exact ⟨rfl,hactive.resolve_right ‹_›⟩

theorem emEoRemoveQueueSync_clean (hs : (State.machine ι γ α ε ρ).Reachable c.state)
    (h : c.emEoRemoveQueueSync e q reqsSent polls = some r) :
    r.1.Clean e ↔ c.RemovesCleanly e q reqsSent polls := by
  simp only [emEoRemoveQueueSync] at h
  split at h
  · rename_i halloc
    cases h
    rw [clean_self, RemovesCleanly, if_neg fun hc => by simp [hc.1, hc.2.1] at halloc]
  rename_i halloc
  split at h
  · rename_i htype
    cases h
    rw [clean_self, RemovesCleanly, if_neg fun hc => by simp [hc.2.2.1] at htype]
  rename_i htype
  split at h
  · rename_i hq
    cases h
    rw [clean_self, RemovesCleanly, if_neg fun hc => hq hc.2.2.2]
  rename_i hq
  simp only [Bool.or_eq_true, Bool.not_eq_true', not_or, Bool.not_eq_false, not_not] at halloc htype hq
  rw [RemovesCleanly, if_pos ⟨halloc.1,halloc.2,htype,hq⟩]
  obtain ⟨hok,hbind⟩ := queueDisable_bind (State.reachable_calls hs).1 halloc.2 hq
  have hst : c.state.step (.removeQueue e q true reqsSent) =
      some (c.state.emEoRemoveQueue e q true reqsSent).1 := rfl
  simp only [State.emEoRemoveQueue, halloc, htype, hq, Bool.not_true, Bool.or_self, Bool.false_eq_true,
    if_false, ne_eq, not_true_eq_false] at hst
  generalize (if (c.state.tbl.elem q).state = .ready then c.state.queueDisable q else (c.state,.ok)) = d
    at h hok hbind hst
  simp only [hok, ne_eq, not_true_eq_false, if_false] at h hst
  cases reqsSent with
  | failed =>
    cases h
    rw [clean_of_step hs hst rfl]
    simp
  | zero =>
    rw [State.eoRemQueue_ok hbind, if_neg (not_not.2 rfl)] at h
    cases h
    refine iff_of_false (fun hc => ?_) fun hc => hc.2.1 rfl
    cases hc.inProgress
  | some =>
    obtain ⟨c₁,h₁,rfl⟩ := Option.map_eq_some_iff.1 h
    obtain ⟨hflag,hpath,-⟩ := wait_path h₁
    rw [clean_of_path hs (.cons hst hpath), hflag]
    simp [Label.failsLocalStart]

/-- The removal of all queues leaves the flag clear, and the EO not in its start or stop: -/
def RemovesAllCleanly (c : SyncCore ι γ α ε ρ) (e : ε) (deleteQueues : Bool) (reqsSent : ReqsSent)
    (polls : List (List (Handled ι γ α ε ρ))) (destroyOk : ι → Bool) : Prop :=
  ¬c.state.Stuck e ∧
    if (c.state.eoElem e).allocated = true then
      (reqsSent = .zero → deleteQueues = true ∧
        ∃ q ∈ (c.state.eoElem e).queueList, ¬c.state.Deletable q destroyOk) ∧
      (reqsSent = .some → ∀ l ∈ Handled.allSteps (.removeQueueAll e deleteQueues) polls,
        l.failsLocalStart e = false)
    else c.inProgress = false

omit [DecidableEq γ] [DecidableEq α] in
/-- All queues of an EO that are disabled are removed. -/
theorem eoRemQueueAll_ok {s : State ι γ α ε ρ} (hnodup : (s.eoElem e).queueList.Nodup)
    (hbind : ∀ q ∈ (s.eoElem e).queueList, (s.tbl.elem q).state = .bind) :
    (s.eoRemQueueAll e).2 = .ok := by
  refine (forEach_complete (R := Status) (I := fun ys t => ∀ q ∈ (s.eoElem e).queueList, q ∉ ys →
    (t.tbl.elem q).state = .bind) (fun q hq _ => hbind q hq) fun ys y zs t hxs ht => ?_).1
  have hy : y ∉ ys := by
    rw [hxs] at hnodup
    exact fun hmem => (List.nodup_append.1 hnodup).2.2 y hmem y List.mem_cons_self rfl
  have hybind := ht y (hxs ▸ List.mem_append_right _ List.mem_cons_self) hy
  rw [State.eoRemQueue_ok hybind]
  refine ⟨rfl,fun q hq hqys => ?_⟩
  rw [List.mem_append, List.mem_singleton, not_or] at hqys
  simpa [hqys.2] using ht q hq hqys.1

omit [DecidableEq ι] [DecidableEq γ] [DecidableEq α] [DecidableEq ε] in
theorem deletable_switched {s t : State ι γ α ε ρ} {xs : List ι} {state : QueueState}
    (h : s.Switched t xs state) : t.Deletable q destroyOk ↔ s.Deletable q destroyOk := by
  obtain ⟨_,hq⟩ := h.same q
  simp only [State.Deletable, QueueTable.State.destroysOdpQueue, hq, h.groups]

/-- All queues of an EO that are disabled are removed, or deleted if they can be. -/
theorem removeAll_ok_iff {s : State ι γ α ε ρ} (hinv : s.Inv)
    (hbind : ∀ q ∈ (s.eoElem e).queueList, (s.tbl.elem q).state = .bind) (deleteQueues : Bool)
    (destroyOk : ι → Bool) :
    (s.removeAll e deleteQueues destroyOk).2 ≠ .ok ↔
      deleteQueues = true ∧ ∃ q ∈ (s.eoElem e).queueList, ¬s.Deletable q destroyOk := by
  cases deleteQueues with
  | false => simpa [State.removeAll] using eoRemQueueAll_ok (hinv.linked.nodup e) hbind
  | true => simp [State.removeAll, State.eoDeleteQueueAll_ok_iff hinv hbind]

theorem emEoRemoveQueueAllSync_clean (hs : (State.machine ι γ α ε ρ).Reachable c.state)
    (h : c.emEoRemoveQueueAllSync e deleteQueues reqsSent polls destroyOk = some r) :
    r.1.Clean e ↔ c.RemovesAllCleanly e deleteQueues reqsSent polls destroyOk := by
  simp only [emEoRemoveQueueAllSync] at h
  split at h
  · rename_i halloc
    cases h
    rw [clean_self, RemovesAllCleanly, if_neg fun hc => by simp [hc] at halloc]
  rename_i halloc
  simp only [Bool.not_eq_true', Bool.not_eq_false] at halloc
  rw [RemovesAllCleanly, if_pos halloc]
  have hinv := (State.reachable_calls hs).1
  have hst : c.state.step (.removeQueueAll e deleteQueues true reqsSent destroyOk) =
      some (c.state.emEoRemoveQueueAll e deleteQueues true reqsSent destroyOk).1 := rfl
  obtain ⟨hok,hdisabled⟩ := State.queueDisableAll_switched hinv halloc
  simp only [State.emEoRemoveQueueAll, halloc, hok, Bool.not_true, Bool.false_eq_true, if_false, ne_eq,
    not_true_eq_false] at hst
  rw [if_neg (not_not.2 hok)] at h
  cases reqsSent with
  | failed =>
    cases h
    rw [clean_of_step hs hst rfl]
    simp
  | zero =>
    have hinv' : (c.state.queueDisableAll e).1.Inv :=
      hinv.changes (State.queueDisableAll_changes (c := {}) hinv)
    have hremove := removeAll_ok_iff hinv' (hdisabled.eoElem ▸ hdisabled.inList) deleteQueues destroyOk
    simp only [hdisabled.eoElem, deletable_switched hdisabled] at hremove
    rw [← hremove]
    dsimp only at h
    split at h <;> cases h
    · rw [clean_of_step hs hst rfl]
      simpa using fun _ => ‹_ ≠ _›
    · refine iff_of_false (fun hc => ?_) fun hc => absurd (hc.2.1 rfl) ‹_›
      cases hc.inProgress
  | some =>
    obtain ⟨c₁,h₁,rfl⟩ := Option.map_eq_some_iff.1 h
    obtain ⟨hflag,hpath,-⟩ := wait_path h₁
    rw [clean_of_path hs (.cons hst hpath), hflag]
    simp [Label.failsLocalStart]

/-- Exactly when the calls leave the flag clear and the EO not in its start or stop. -/
theorem sync_calls_end_cleanly (hs : (State.machine ι γ α ε ρ).Reachable c.state) (e : ε) :
    (∀ stashOk start reqsSent polls r, c.emEoStartSync e stashOk start reqsSent polls = some r →
      (r.1.Clean e ↔ c.StartsCleanly e stashOk start reqsSent polls)) ∧
    (∀ reqsSent polls stop r, c.emEoStopSync e reqsSent polls stop = some r →
      (r.1.Clean e ↔ c.StopsCleanly e reqsSent stop)) ∧
    (∀ q reqsSent polls r, c.emEoRemoveQueueSync e q reqsSent polls = some r →
      (r.1.Clean e ↔ c.RemovesCleanly e q reqsSent polls)) ∧
    ∀ deleteQueues reqsSent polls destroyOk r,
      c.emEoRemoveQueueAllSync e deleteQueues reqsSent polls destroyOk = some r →
      (r.1.Clean e ↔ c.RemovesAllCleanly e deleteQueues reqsSent polls destroyOk) :=
  ⟨fun _ _ _ _ _ => emEoStartSync_clean hs,fun _ _ _ _ => emEoStopSync_clean hs,
    fun _ _ _ _ => emEoRemoveQueueSync_clean hs,fun _ _ _ _ _ => emEoRemoveQueueAllSync_clean hs⟩

end SyncCore

/-- An EO with a local start function and a queue -/
private def withQueue : Option (State (Fin 1) Unit Unit Unit Unit) :=
  System.exec State.step (fun _ _ _ => true) emptyState
    [.createGroup (), .createQueue 0 { type := .atomic, queueGroup := some () },
      .createEo () { eoParam with localStart := some () }, .addQueue () 0 true true]

private theorem withQueue_isSome : withQueue.isSome = true := by decide

private def addedCore : SyncCore (Fin 1) Unit Unit Unit Unit := ⟨withQueue.get withQueue_isSome,false⟩

private theorem addedCore_reachable :
    (State.machine (Fin 1) Unit Unit Unit Unit).Reachable addedCore.state :=
  System.ReachableVia.exec (fun _ _ _ _ => trivial) (.start emptyState_initial)
    (Option.some_get withQueue_isSome).symm

/-- The EO is started on all cores, whose local start functions succeed or not. -/
private def startSync (ok : Bool) : Option (SyncCore (Fin 1) Unit Unit Unit Unit × Status) :=
  addedCore.emEoStartSync () true {} .some [[.doneEvent ok fun _ => true]]

private theorem startedSync_isSome : (startSync true).isSome = true := by decide

theorem sync_calls_end_cleanly_started : ∃ (c : SyncCore (Fin 1) Unit Unit Unit Unit) (r : _ × Status),
    c.emEoStartSync () true {} .some [[.doneEvent true fun _ => true]] = some r ∧
      (r.1.state.eoElem ()).state = .running ∧ r.1.Clean () := by
  refine ⟨addedCore,(startSync true).get startedSync_isSome,(Option.some_get startedSync_isSome).symm,?_,?_⟩
  · decide
  · refine ((SyncCore.sync_calls_end_cleanly addedCore_reachable ()).1 _ _ _ _ _
      (Option.some_get startedSync_isSome).symm).2 ⟨fun h => ?_,?_⟩
    · have hstate := h.state
      revert hstate
      decide
    · decide

private theorem localStartFailed_isSome : (startSync false).isSome = true := by decide

private def removeSync : Option (SyncCore (Fin 1) Unit Unit Unit Unit × Status) :=
  addedCore.emEoRemoveQueueSync () 0 .zero []

private theorem removeSync_isSome : removeSync.isSome = true := by decide

/-- A remove without requests leaves the flag set, and local start functions that fail leave the
EO in its start. -/
theorem sync_calls_not_clean :
    (¬∀ c : SyncCore (Fin 1) Unit Unit Unit Unit,
      (State.machine (Fin 1) Unit Unit Unit Unit).Reachable c.state → c.inProgress = false →
        ∀ e q reqsSent polls r, c.emEoRemoveQueueSync e q reqsSent polls = some r →
          r.1.inProgress = false) ∧
    ¬∀ c : SyncCore (Fin 1) Unit Unit Unit Unit,
      (State.machine (Fin 1) Unit Unit Unit Unit).Reachable c.state → c.inProgress = false →
        ∀ e stashOk start reqsSent polls r,
          c.emEoStartSync e stashOk start reqsSent polls = some r → ¬r.1.state.Stuck e := by
  refine ⟨fun hall => ?_,fun hall => ?_⟩
  · have hflag := hall addedCore addedCore_reachable rfl () 0 .zero [] _
      (Option.some_get removeSync_isSome).symm
    revert hflag
    decide
  · refine hall addedCore addedCore_reachable rfl () true {} .some [[.doneEvent false fun _ => true]] _
      (Option.some_get localStartFailed_isSome).symm ⟨?_,?_,?_⟩
    · decide
    · decide
    · unfold State.Busy
      decide

end EmOdp.EoQueues
