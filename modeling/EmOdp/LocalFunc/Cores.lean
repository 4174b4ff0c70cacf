import EmOdp.EoStart.Machine
import EmOdp.Tables.Iteration

/-! Which cores run the local functions of the EOs: those that are EM cores when the requests are
sent, and a core that starts or terminates by itself, for the EOs that it finds running. -/
namespace EmOdp.LocalFunc.Cores
open Lib
open EoStart (EoState)

/-- A local start or a local stop function -/
inductive Kind where
  | start | stop
  deriving DecidableEq

/-- `em_eo_start_local_mode_t` and `em_eo_stop_local_mode_t` -/
inductive Mode where
  | configFile
  /-- `INIT_NORUN`, `TERM_NORUN` -/
  | noRun
  /-- `INIT_RUN`, `TERM_RUN` -/
  | run
  deriving DecidableEq

/-- What an EO is created with -/
structure EoParam where
  /-- `start_local_func` and `stop_local_func` are not null. -/
  func : Kind → Bool := fun _ => false
  /-- `start_local_mode` and `stop_local_mode` -/
  mode : Kind → Mode := fun _ => .configFile

structure Eo where
  state : EoState := .undef
  param : EoParam := {}
  /-- the starts of this element so far -/
  num : Nat := 0
  /-- an `em_eo_start` or `em_eo_stop` that has not sent its requests yet -/
  call : Option Kind := none
  /-- all requests are sent, and the done callback has not run -/
  waiting : Option Kind := none

namespace Eo

/-- `has_run_mode`, with the options from the config file -/
def hasRunMode (opt : Kind → Bool) (x : Eo) (k : Kind) : Bool :=
  x.param.mode k == .run || x.param.mode k == .configFile && opt k

/-- `has_local_fn && has_run_mode` -/
def runsFunc (opt : Kind → Bool) (x : Eo) (k : Kind) : Bool :=
  (x.param.func k && x.state == .running) && x.hasRunMode opt k

end Eo

/-- A request that a core runs a local function, from the start with this number or from the stop
that ends it -/
structure Req (n : Nat) where
  kind : Kind
  eo : Fin n
  num : Nat
  deriving DecidableEq

/-- Where a core is in `eo_start_local_fn_at_init` or `eo_stop_local_fn_at_term`. -/
inductive Pos (n : Nat) where
  /-- `em_eo_first` has not read the count yet. -/
  | first
  | look (i : Fin n)
  /-- element `i` is allocated; its lock is not taken yet -/
  | visit (i : Fin n)
  | inFunc (i : Fin n)
  deriving DecidableEq

inductive Phase (n : Nat) where
  | out
  /-- after `core_map_init_local`, or at the beginning of `term_core` -/
  | scan (k : Kind) (p : Pos n)
  | active
  /-- before `core_map_term_local` -/
  | scanned
  /-- no longer in the core mask, polling the control queues -/
  | leaving
  deriving DecidableEq

namespace Phase
variable {n : Nat}

/-- The core is in `logic_mask` and `thrmask_emcores`. -/
def inMask : Phase n → Bool
  | .out | .leaving => false
  | _ => true

/-- The core may handle events from its control queue. -/
def polls : Phase n → Bool
  | .scan _ (.inFunc _) | .active | .leaving => true
  | _ => false

/-- where the loop over the EOs ends -/
def finished : Kind → Phase n
  | .start => .active
  | .stop => .scanned

/-- `em_eo_next` at index `i` -/
def at_ (k : Kind) (i : Nat) : Phase n := if h : i < n then .scan k (.look ⟨i,h⟩) else finished k

end Phase

/-- One core. The requests and runs are those since it has become an EM core. -/
structure Core (n : Nat) where
  phase : Phase n := .out
  /-- in the control queue -/
  pending : Finset (Req n) := ∅
  asked : Finset (Req n) := ∅
  /-- handled while the core was in its loop over the EOs -/
  nested : Finset (Req n) := ∅
  /-- the start number and state of each EO as the loop has found it -/
  seen : Kind → Fin n → Option (Nat × EoState) := fun _ _ => none
  /-- calls of the local functions -/
  runs : Req n → Nat := fun _ => 0

structure State (n : Nat) (ι : Type) where
  tbl : Tables.State n
  eo : Fin n → Eo
  core : ι → Core n

inductive EoLabel where
  | create (param : EoParam)
  /-- `em_eo_delete` up to the state change in `eo_free` -/
  | delete
  | start
  /-- `em_eo_start` returns an error before it has sent a request -/
  | fails
  /-- `send_notifs` fails in `em_eo_start` -/
  | notifFails
  | stop
  /-- `queue_disable_all` fails in `em_eo_stop_sync` -/
  | stopFails

inductive CoreLabel (n : Nat) where
  /-- `core_map_init_local` -/
  | join
  | first
  | look
  | visit
  | returns
  /-- `i_event__eo_local_func_call_req` -/
  | handle (r : Req n)
  | term
  /-- `core_map_term_local` -/
  | leave
  | gone

inductive Label (n : Nat) (ι : Type) where
  | table (l : Tables.Label n)
  | eo (e : Fin n) (l : EoLabel)
  | request (e : Fin n)
  /-- some cores have got the request before `send_core_ctrl_events` fails -/
  | requestFails (e : Fin n) (sent : ι → Bool)
  | done (e : Fin n) (ok : Bool)
  | core (c : ι) (l : CoreLabel n)

def Eo.step (counted : Bool) (x : Eo) : EoLabel → Option Eo
  | .create param =>
    if counted = true ∧ x.state = .undef then some { x with state := .created, param } else none
  | .delete =>
    if x.state = .created ∨ x.state = .error then some { x with state := .undef } else none
  | .start =>
    if x.state = .created then
      some { x with state := .starting, num := x.num + 1, call := some .start }
    else none
  | .fails => if x.call = some .start then some { x with state := .error, call := none } else none
  | .notifFails => if x.state = .running then some { x with state := .error } else none
  | .stop =>
    if x.state = .running then some { x with state := .stopping, call := some .stop } else none
  | .stopFails => if x.call = some .stop then some { x with call := none } else none

namespace Core
variable {n : Nat} (opt : Kind → Bool) (eos : Fin n → Eo) (tbl : Tables.State n) (y : Core n)

/-- A request is sent to the core, if it is in the core mask. -/
def ask (r : Req n) : Core n :=
  if y.phase.inMask then { y with pending := insert r y.pending, asked := insert r y.asked } else y

/-- The core takes the lock of an EO, and calls its local function after that. -/
def visit (k : Kind) (i : Fin n) : Core n :=
  let r : Req n := ⟨k,i,(eos i).num⟩
  { y with
    seen := Function.update y.seen k (Function.update (y.seen k) i (some ((eos i).num,(eos i).state)))
    runs := if (eos i).runsFunc opt k then Function.update y.runs r (y.runs r + 1) else y.runs
    phase := if (eos i).runsFunc opt k then .scan k (.inFunc i) else .at_ k (i+1) }

def handle (r : Req n) : Core n :=
  { y with
    pending := y.pending.erase r
    nested := match y.phase with
      | .scan .start _ => insert r y.nested
      | _ => y.nested
    runs := if (eos r.eo).param.func r.kind then Function.update y.runs r (y.runs r + 1) else y.runs }

def step : CoreLabel n → Option (Core n)
  | .join =>
    if y.phase = .out ∧ y.pending = ∅ then some { phase := .scan .start .first } else none
  | .first =>
    match y.phase with
    | .scan k .first => some { y with phase := if tbl.count = 0 then .finished k else .at_ k 0 }
    | _ => none
  | .look =>
    match y.phase with
    | .scan k (.look i) =>
      some { y with phase := if (tbl.place i).allocated then .scan k (.visit i) else .at_ k (i+1) }
    | _ => none
  | .visit =>
    match y.phase with
    | .scan k (.visit i) => some (y.visit opt eos k i)
    | _ => none
  | .returns =>
    match y.phase with
    | .scan k (.inFunc i) => some { y with phase := .at_ k (i+1) }
    | _ => none
  | .handle r => if r ∈ y.pending ∧ y.phase.polls = true then some (y.handle eos r) else none
  | .term => if y.phase = .active then some { y with phase := .scan .stop .first } else none
  | .leave => if y.phase = .scanned then some { y with phase := .leaving } else none
  | .gone => if y.phase = .leaving ∧ y.pending = ∅ then some { y with phase := .out } else none

end Core

/-- `objpool_add` in `eo_free` -/
def putsBack {n : Nat} : Tables.Label n → Fin n → Bool
  | .add i, e => i == e
  | _, _ => false

/-- The state of an EO after its start or stop -/
def Kind.done : Kind → EoState
  | .start => .running
  | .stop => .created

namespace State
variable {n : Nat} {ι : Type} [Fintype ι] [DecidableEq ι] (opt : Kind → Bool) (s : State n ι)

/-- Requests are sent: there are cores, and for a start there is a local function. -/
def Asks (e : Fin n) (k : Kind) : Prop :=
  (k = .start → (s.eo e).param.func .start = true) ∧ ∃ c, (s.core c).phase.inMask = true

instance decidableAsks (e : Fin n) (k : Kind) : Decidable (s.Asks e k) :=
  inferInstanceAs (Decidable (_ ∧ _))

def setEo (e : Fin n) (x : Eo) : State n ι := { s with eo := Function.update s.eo e x }

/-- `eo_local_func_call_req` and what its callers do after it -/
def request (e : Fin n) (k : Kind) : State n ι :=
  if s.Asks e k then
    { s.setEo e { s.eo e with call := none, waiting := some k } with
      core := fun c => (s.core c).ask ⟨k,e,(s.eo e).num⟩ }
  else s.setEo e { s.eo e with call := none, state := k.done }

def step : Label n ι → Option (State n ι)
  | .table l =>
    if ∀ e, putsBack l e = true → (s.eo e).state = .undef then
      (s.tbl.step false l).map fun tbl => { s with tbl }
    else none
  | .eo e l => ((s.eo e).step (s.tbl.place e == .counted) l).map fun x => s.setEo e x
  | .request e => (s.eo e).call.map fun k => s.request e k
  | .requestFails e sent =>
    match (s.eo e).call with
    | some k =>
      if s.Asks e k then
        some { s.setEo e { s.eo e with call := none, state := .error } with
          core := fun c => if sent c then (s.core c).ask ⟨k,e,(s.eo e).num⟩ else s.core c }
      else none
    | none => none
  | .done e ok =>
    match (s.eo e).waiting with
    | some k =>
      if ∀ c, ⟨k,e,(s.eo e).num⟩ ∉ (s.core c).pending then
        some (s.setEo e
          { s.eo e with
            waiting := none
            state := if k = .stop ∨ ok = true then k.done else (s.eo e).state })
      else none
    | none => none
  | .core c l =>
    ((s.core c).step opt s.eo s.tbl l).map fun y => { s with core := Function.update s.core c y }

/-- No EO and no EM core -/
structure Initial : Prop where
  tbl : s.tbl.Initial
  eo : ∀ e, s.eo e = {}
  core : ∀ c, s.core c = {}

def machine (n : Nat) (ι : Type) [Fintype ι] [DecidableEq ι] (opt : Kind → Bool) :
    System (State n ι) (Label n ι) :=
  .ofFn Initial fun s l => s.step opt l

end State
end EmOdp.LocalFunc.Cores
