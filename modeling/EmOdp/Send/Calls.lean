import EmOdp.Send.Destinations

/-! `em_send` and its variants for queues of this EM instance. -/
namespace EmOdp.Send
open EventState EventGroup Lib.Batch

/-- `event_group_elem_t` as far as a send looks at it -/
structure EgrpElem (γ : Type) where
  eventGroup : γ
  /-- `event_group_allocated` -/
  allocated : Bool
  gen : Gen
  deriving DecidableEq

variable {γ : Type}

/-- `egrp_tag_event` -/
def Event.egrpTag (egrpElem : Option (EgrpElem γ)) (e : Event γ) : Event γ :=
  match egrpElem with
  | some elem => { e with egrp := some elem.eventGroup, egrpGen := elem.gen }
  | none => { e with egrp := none }

/-- `egrp_tag_events_multi` for one event -/
def Event.egrpTagMulti (eventGroup : Option γ) (egrpElem : Option (EgrpElem γ)) (e : Event γ) :
    Event γ :=
  match egrpElem with
  | some elem => { e with egrp := eventGroup, egrpGen := elem.gen }
  | none => { e with egrp := eventGroup }

/-- Events of these types are not sent with an event group. -/
def Event.badType (e : Event γ) : Bool := e.hdr.odpType || e.timerInd

section Calls
variable (cfg : Config) (core : Core) (q : QueueElem) (res : Results)

section Multi
variable (tbl : List (Event γ))

/-- The event state of `&events[num_sent]` and on is reverted. -/
def revertUnsent (s : Sent γ) : Except EvstateError (Sent γ) :=
  if s.numSent ≠ s.tbl.length ∧ cfg.esvEnabled then
    (mapFrom (Event.evstateUsr2emRevert cfg .multi) s.numSent.toNat s.tbl).map fun tbl =>
      { s with tbl }
  else .ok s

/-- The events are marked as EM's, handed over by `send`, and unmarked from the first one
that is not sent on. -/
def markedSendMulti (send : List (Event γ) → Except EvstateError (Sent γ)) :
    Except EvstateError (Sent γ) := do
  let tbl ← tbl.mapM (Event.evstateUsr2em cfg .multi)
  let s ← send tbl
  revertUnsent cfg s

def sendInternalMulti : Except EvstateError (Sent γ) :=
  if 2 ≤ cfg.checkLevel ∧ !q.allocated then .ok ⟨0,[],tbl⟩
  else if core.startEo && q.scheduled then
    markedSendMulti cfg tbl fun tbl => .ok (eoStartBufferEvents res tbl)
  -- no marking for events that leave through an output queue
  else if q.type = .output then .ok (sendOutputMulti cfg q res tbl core)
  else markedSendMulti cfg tbl (sendTypeMulti cfg q res)

def emSendMulti : Except EvstateError (Sent γ) :=
  if 0 < cfg.checkLevel ∧ tbl = [] then .ok ⟨0,[],tbl⟩
  else
    -- the headers are written up to the first event that is not accepted
    let good := if 0 < cfg.checkLevel then tbl.takeWhile (!·.timerInd) else tbl
    if good.length = tbl.length then
      sendInternalMulti cfg core q res (tbl.map fun e => { e with egrp := none })
    else .ok ⟨0,[],(good.map fun e => { e with egrp := none }) ++ tbl.drop good.length⟩

/-- `event_group` with what `event_group_elem_get` finds for it -/
def emSendGroupMulti (eventGroup : Option γ) (egrpElem : Option (EgrpElem γ)) :
    Except EvstateError (Sent γ) :=
  if 0 < cfg.checkLevel ∧ (tbl = [] ∨ eventGroup.isSome ∧ egrpElem.isNone) then .ok ⟨0,[],tbl⟩
  else if 2 ≤ cfg.checkLevel ∧ eventGroup.isSome ∧ egrpElem.all (!·.allocated) then .ok ⟨0,[],tbl⟩
  else if 3 ≤ cfg.checkLevel ∧ eventGroup.isSome ∧ tbl.any (·.hasRef) then .ok ⟨0,[],tbl⟩
  else if 0 < cfg.checkLevel ∧ tbl.any Event.badType then .ok ⟨0,[],tbl⟩
  else
    let tbl := tbl.map (Event.egrpTagMulti eventGroup egrpElem)
    if 2 ≤ cfg.checkLevel ∧ !q.allocated then .ok ⟨0,[],tbl⟩
    else if 1 < cfg.checkLevel ∧ eventGroup.isSome ∧ q.type = .unscheduled then .ok ⟨0,[],tbl⟩
    else if core.startEo && q.scheduled then
      markedSendMulti cfg tbl fun tbl => .ok (eoStartBufferEvents res tbl)
    else markedSendMulti cfg tbl (sendTypeMulti cfg q res)

end Multi

section One
variable (event : Event γ)

/-- The event is marked as EM's, handed over by `send`, and unmarked where that fails. -/
def markedSend (send : Event γ → Except EvstateError (SentOne γ)) :
    Except EvstateError (SentOne γ) := do
  let event ← event.evstateUsr2em cfg .single
  let s ← send event
  if s.stat = .ok then return s
  let event ← s.event.evstateUsr2emRevert cfg .single
  return { s with event }

/-- `eo_start_buffer_events` for one event in `send_internal` and `em_send_group` -/
def eoStartBufferEvent : SentOne γ :=
  if res.put = 1 then ⟨.ok,[event],event⟩
  else ⟨.operationFailed,[event].take res.put.toNat,event⟩

def sendInternal : Except EvstateError (SentOne γ) :=
  if 2 ≤ cfg.checkLevel ∧ !q.allocated then .ok ⟨.badState,[],event⟩
  else if core.startEo && q.scheduled then
    markedSend cfg event fun event => .ok (eoStartBufferEvent res event)
  else if q.type = .output then .ok (sendOutput cfg q res event core)
  else markedSend cfg event (sendType cfg q res)

def emSend : Except EvstateError (SentOne γ) :=
  if 0 < cfg.checkLevel ∧ event.timerInd then .ok ⟨.badArg,[],event⟩
  else sendInternal cfg core q res { event with egrp := none }

/-- `event_group` with what `event_group_elem_get` finds for it -/
def emSendGroup (eventGroup : Option γ) (egrpElem : Option (EgrpElem γ)) :
    Except EvstateError (SentOne γ) :=
  if 0 < cfg.checkLevel ∧ eventGroup.isSome ∧ egrpElem.isNone then .ok ⟨.notFound,[],event⟩
  else if 2 ≤ cfg.checkLevel ∧ eventGroup.isSome ∧ egrpElem.all (!·.allocated) then
    .ok ⟨.notCreated,[],event⟩
  else if 3 ≤ cfg.checkLevel ∧ eventGroup.isSome ∧ event.hasRef then .ok ⟨.badContext,[],event⟩
  else if 0 < cfg.checkLevel ∧ event.badType then .ok ⟨.badArg,[],event⟩
  else
    let event := event.egrpTag egrpElem
    if 2 ≤ cfg.checkLevel ∧ !q.allocated then .ok ⟨.badState,[],event⟩
    else if 1 < cfg.checkLevel ∧ eventGroup.isSome ∧ q.type = .unscheduled then
      .ok ⟨.badContext,[],event⟩
    else if core.startEo && q.scheduled then
      markedSend cfg event fun event => .ok (eoStartBufferEvent res event)
    else markedSend cfg event (sendType cfg q res)

end One
end Calls
end EmOdp.Send
