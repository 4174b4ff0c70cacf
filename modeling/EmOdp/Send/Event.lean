import EmOdp.EventGroup.Counter
import EmOdp.EventState.Verify

/-! Events as the send functions see them: a handle, the header and, of a vector, the table
of its inner events. -/
namespace EmOdp.Send
open EventState EventGroup

structure Config where
  /-- `EM_CHECK_LEVEL` -/
  checkLevel : Nat
  esvEnabled : Bool
  preallocPools : Bool
  deriving DecidableEq, Repr

/-- `odp_event_type` of an inner event; a packet vector holds packets only. -/
inductive SlotType where
  | packet | buffer | vector | timeout | other
  deriving DecidableEq, Repr

/-- An entry of a vector's table with the header of its event. -/
@[ext] structure Slot where
  entry : EvHdl
  odpType : SlotType
  hdr : EvHdr
  /-- the header was initialized by EM -/
  userFlag : Bool
  /-- from a pool of EM's -/
  emPool : Bool
  deriving DecidableEq, Repr

@[ext] structure Event (γ : Type) where
  hdl : EvHdl
  hdr : EvHdr
  /-- `event_type == EM_EVENT_TYPE_TIMER_IND` -/
  timerInd : Bool
  /-- `event_has_ref` -/
  hasRef : Bool
  aggrSent : Bool
  egrp : Option γ
  egrpGen : Gen
  /-- the table of a vector event -/
  table : Option (List Slot)
  deriving DecidableEq

namespace Slot

/-- The generation is dropped from the handle. -/
def em2odp (s : Slot) : Slot := { s with entry := { s.entry with evgen := 0 } }

/-- The header of an event from outside of EM, in `evhdr_init_pkt`, `evhdr_init_evvec` and
`evhdr_init_pktvec` with `is_extev` false. -/
def evhdrInit (cfg : Config) (s : Slot) : Except EvstateError Slot :=
  -- the flags of a vector are cleared first, those of a packet after `evstate_init`
  let hdr := if s.odpType = .vector then { s.hdr with refsUsed := false } else s.hdr
  let init : Except EvstateError (EvHdl × EvHdr) :=
    if !cfg.esvEnabled then .ok (s.entry,{ hdr with event := s.entry })
    else if !cfg.preallocPools || hdr.refsUsed || !s.emPool then
      .ok (esvEvinit s.entry hdr initCntAlloc)
    else esvEm2usr s.entry hdr cntAlloc false
  init.map fun r =>
    { s with entry := r.1, hdr := { r.2 with refsUsed := false, odpType := false }, userFlag := true }

/-- `event_init_odp`, `event_init_odp_multi` and `event_init_pkt_multi` for one entry, with
`is_extev` false. -/
def initOdp (cfg : Config) (s : Slot) : Except EvstateError Slot :=
  match s.odpType with
  | .packet | .vector =>
    if s.userFlag then .ok (if cfg.esvEnabled then { s with entry := s.hdr.event } else s)
    else s.evhdrInit cfg
  | .buffer => .ok (if cfg.esvEnabled then { s with entry := s.hdr.event } else s)
  | .timeout =>
    let event := { s.entry with evgen := s.hdr.event.evgen }
    .ok (if cfg.esvEnabled then { s with entry := event, hdr := { s.hdr with event } } else s)
  | .other => .ok s

end Slot

/-- `event_vector_tbl`: what the user sees of a vector. -/
def eventVectorTbl (cfg : Config) (table : List Slot) : Except EvstateError (List Slot) :=
  (if cfg.esvEnabled then table.map Slot.em2odp else table).mapM (Slot.initOdp cfg)

namespace Event
variable {γ : Type}

/-- `pktvec_tbl2odp`, `evvec_tbl2odp`; nothing is done for other events. -/
def tbl2odp (e : Event γ) : Event γ := { e with table := e.table.map (List.map Slot.em2odp) }

/-- `pktvec_tbl2odp_revert`, `evvec_tbl2odp_revert` -/
def tbl2odpRevert (cfg : Config) (e : Event γ) : Except EvstateError (Event γ) :=
  match e.table with
  | none => .ok e
  | some table => (table.mapM (Slot.initOdp cfg)).map fun table => { e with table := some table }

/-- `flags.aggr_sent`, which shares its byte with `refs_used` and is not written for events
with references. -/
def setAggrSent (aggrSent : Bool) (e : Event γ) : Event γ :=
  if e.hdr.refsUsed then e else { e with aggrSent }

def evstateUsr2em (cfg : Config) (v : Variant) (e : Event γ) : Except EvstateError (Event γ) :=
  if cfg.esvEnabled then (EventState.evstateUsr2em v e.hdl e.hdr).map fun hdr => { e with hdr }
  else .ok e

def evstateUsr2emRevert (cfg : Config) (v : Variant) (e : Event γ) :
    Except EvstateError (Event γ) :=
  if cfg.esvEnabled then
    (EventState.evstateUsr2emRevert v e.hdl e.hdr).map fun hdr => { e with hdr }
  else .ok e

end Event
end EmOdp.Send
