import Mathlib.Data.Finset.Basic
import EmOdp.Lib.TransitionSystem

/-! The calls that block a thread until the cores have answered. While it waits, the thread handles control
events, and the functions of the user that these run may call again; all waits share one flag. -/
namespace EmOdp.SyncApi
open Lib

/-- How a blocking call goes until it waits -/
inductive Outcome where
  /-- an error before it is marked as in progress -/
  | rejected
  /-- an error after that, or when the requests are sent -/
  | failed
  /-- no core is asked -/
  | nothing
  | sent
  deriving DecidableEq

/-- `sync_api.in_progress` when a call waits or has returned without that; `nothing` is for a call that asks no
core -/
def beforeWait (nothing : Bool → Bool) (inProgress : Bool) : Outcome → Bool
  | .rejected => inProgress
  | .failed => false
  | .nothing => nothing inProgress
  | .sent => true

/-- `em_eo_start_sync`, marked as in progress only when requests have been sent -/
def emEoStartSync := beforeWait id

/-- `em_eo_stop_sync` -/
def emEoStopSync := beforeWait fun _ => true

/-- `em_eo_remove_queue_sync` -/
def emEoRemoveQueueSync := beforeWait fun _ => true

/-- `em_eo_remove_queue_all_sync` -/
def emEoRemoveQueueAllSync := beforeWait fun _ => true

/-- `queue_group_modify_sync`, also for `em_queue_group_delete_sync` -/
def queueGroupModifySync := beforeWait fun _ => false

inductive Call where
  | startSync | stopSync | removeQueueSync | removeQueueAllSync | modifySync
  deriving DecidableEq

def Call.run : Call → Bool → Outcome → Bool
  | .startSync => emEoStartSync
  | .stopSync => emEoStopSync
  | .removeQueueSync => emEoRemoveQueueSync
  | .removeQueueAllSync => emEoRemoveQueueAllSync
  | .modifySync => queueGroupModifySync

/-- The call has written that nothing is in progress. -/
def Call.clears (c : Call) : Outcome → Bool
  | .failed => true
  | .nothing => c = .modifySync
  | _ => false

/-- A call that waits in its loop or in `poll_unsched_ctrl_queue` -/
structure Wait where
  op : Nat
  /-- another call has written, during this wait, that nothing is in progress -/
  disturbed : Bool := false
  polling : Bool := false
  deriving DecidableEq

inductive Frame where
  | wait (w : Wait)
  /-- a function of the user that a control event runs -/
  | handler
  deriving DecidableEq

/-- A wait that is over -/
structure Return where
  op : Nat
  /-- its done-callback has not run -/
  early : Bool
  disturbed : Bool
  deriving DecidableEq

/-- A thread with its calls, the innermost one first -/
structure State where
  inProgress : Bool := false
  stack : List Frame := []
  /-- the number of calls that have sent requests -/
  count : Nat := 0
  /-- the calls whose done-callbacks are still to run, all on this thread -/
  pending : Finset Nat := ∅
  returned : List Return := []

inductive Label where
  | call (c : Call) (o : Outcome)
  /-- the done-callback of a call runs -/
  | done (op : Nat)
  /-- a control event runs a function of the user -/
  | enter
  | exit
  /-- `while (locm->sync_api.in_progress)` -/
  | check
  /-- `poll_unsched_ctrl_queue` finds no more events -/
  | empty
  deriving DecidableEq

/-- The waits of calls other than `op` are disturbed. -/
def disturb (op : Option Nat) (stack : List Frame) : List Frame :=
  stack.map fun
    | .wait w => .wait (if op = some w.op then w else { w with disturbed := true })
    | .handler => .handler

def waits : List Frame → List Wait
  | [] => []
  | .wait w :: stack => w :: waits stack
  | .handler :: stack => waits stack

namespace State
variable (s : State)

/-- Code of the user runs, where a call may be made. -/
def userRuns : Bool :=
  match s.stack with
  | [] | .handler :: _ => true
  | .wait _ :: _ => false

/-- Control events are handled: in a poll, or by `em_dispatch` when no call is made. -/
def handles : Bool :=
  match s.stack with
  | [] => true
  | .wait w :: _ => w.polling
  | .handler :: _ => false

def call (c : Call) (o : Outcome) : State :=
  let stack := if c.clears o then disturb none s.stack else s.stack
  let s : State := { s with inProgress := c.run s.inProgress o, stack }
  if o = .sent then
    { s with stack := .wait { op := s.count } :: s.stack, count := s.count + 1, pending := insert s.count s.pending }
  else s

/-- The done-callbacks of all calls: `eo_start_sync_done_callback` and the like -/
def doneCallback (op : Nat) : State :=
  { s with inProgress := false, stack := disturb (some op) s.stack, pending := s.pending.erase op }

/-- The loop of a call either polls or is left. -/
def check (w : Wait) (stack : List Frame) : State :=
  if s.inProgress then { s with stack := .wait { w with polling := true } :: stack }
  else { s with stack, returned := ⟨w.op,w.op ∈ s.pending,w.disturbed⟩ :: s.returned }

def step : Label → Option State
  | .call c o => if s.userRuns then some (s.call c o) else none
  | .done op => if s.handles ∧ op ∈ s.pending then some (s.doneCallback op) else none
  | .enter =>
    match s.stack with
    | .wait w :: stack => if w.polling then some { s with stack := .handler :: .wait w :: stack } else none
    | _ => none
  | .exit =>
    match s.stack with
    | .handler :: stack => some { s with stack }
    | _ => none
  | .check =>
    match s.stack with
    | .wait w :: stack => if w.polling then none else some (s.check w stack)
    | _ => none
  | .empty =>
    match s.stack with
    | .wait w :: stack =>
      if w.polling then some { s with stack := .wait { w with polling := false } :: stack } else none
    | _ => none

end State

def machine : System State Label := System.ofFn (fun s => s = {}) State.step

theorem waits_disturb (op : Option Nat) (stack : List Frame) : waits (disturb op stack) =
    (waits stack).map fun w => if op = some w.op then w else { w with disturbed := true } := by
  induction stack with
  | nil => rfl
  | cons f stack ih =>
    cases f with
    | wait w => exact congrArg (_ :: ·) ih
    | handler => exact ih

/-- A wait that was not disturbed ends when its own done-callback has run. -/
structure Inv (s : State) : Prop where
  waiting : ∀ w ∈ waits s.stack, w.disturbed = false → w.op ∈ s.pending → s.inProgress = true
  returned : ∀ r ∈ s.returned, r.early = true → r.disturbed = true

variable {s t : State} {l : Label}

theorem disturbed_of_mem {op : Option Nat} {stack : List Frame} {w : Wait} (hw : w ∈ waits (disturb op stack))
    (hd : w.disturbed = false) : op = some w.op ∧ w ∈ waits stack := by
  rw [waits_disturb] at hw
  obtain ⟨v,hv,rfl⟩ := List.mem_map.1 hw
  by_cases hop : op = some v.op
  · rw [if_pos hop]
    exact ⟨hop,hv⟩
  · rw [if_neg hop] at hd
    cases hd

/-- A call that does not clear the flag leaves it or sets it. -/
theorem Call.run_of_not_clears {c : Call} {o : Outcome} (h : c.clears o = false) {b : Bool} (hb : b = true) :
    c.run b o = true := by
  subst hb
  cases o with
  | rejected => cases c <;> rfl
  | failed => cases h
  | nothing =>
    cases c with
    | modifySync => cases h
    | startSync | stopSync | removeQueueSync | removeQueueAllSync => rfl
  | sent => cases c <;> rfl

theorem Call.run_sent (c : Call) (b : Bool) : c.run b .sent = true := by cases c <;> rfl

theorem Inv.call (h : Inv s) (c : Call) (o : Outcome) : Inv (s.call c o) := by
  rw [State.call]
  split
  · rename_i ho
    subst ho
    exact ⟨fun _ _ _ _ => c.run_sent _,h.returned⟩
  · refine ⟨fun w hw hd hp => ?_,h.returned⟩
    dsimp only at hw hp ⊢
    cases hc : c.clears o with
    | true =>
      rw [hc, if_pos rfl] at hw
      cases (disturbed_of_mem hw hd).1
    | false =>
      rw [hc] at hw
      exact Call.run_of_not_clears hc (h.waiting w hw hd hp)

theorem Inv.doneCallback (h : Inv s) (op : Nat) : Inv (s.doneCallback op) := by
  refine ⟨fun w hw hd hp => ?_,h.returned⟩
  obtain ⟨hop,-⟩ := disturbed_of_mem hw hd
  obtain rfl := Option.some.inj hop
  exact absurd hp (Finset.notMem_erase w.op s.pending)

/-- The waits stay, or some of them. -/
theorem Inv.setStack (h : Inv s) {stack : List Frame}
    (hs : ∀ w ∈ waits stack, ∃ v ∈ waits s.stack, v.op = w.op ∧ v.disturbed = w.disturbed) :
    Inv { s with stack } := by
  refine ⟨fun w hw hd hp => ?_,h.returned⟩
  obtain ⟨v,hv,hop,hvd⟩ := hs w hw
  exact h.waiting v hv (hvd.trans hd) (hop ▸ hp)

theorem mem_waits_same {w v : Wait} {stack : List Frame} (hop : v.op = w.op) (hd : v.disturbed = w.disturbed) :
    ∀ u ∈ waits (.wait w :: stack), ∃ u' ∈ waits (.wait v :: stack), u'.op = u.op ∧ u'.disturbed = u.disturbed := by
  intro u hu
  rcases List.mem_cons.1 hu with rfl | hu
  · exact ⟨v,List.mem_cons_self,hop,hd⟩
  · exact ⟨u,List.mem_cons_of_mem v hu,rfl,rfl⟩

theorem Inv.check (h : Inv s) {w : Wait} {stack : List Frame} (hs : s.stack = .wait w :: stack) :
    Inv (s.check w stack) := by
  rw [State.check]
  split
  · refine h.setStack ?_
    rw [hs]
    exact mem_waits_same rfl rfl
  · rename_i hp
    have hw : w ∈ waits s.stack := by
      rw [hs]
      exact List.mem_cons_self
    refine ⟨(h.setStack fun v hv => ⟨v,?_,rfl,rfl⟩).waiting,List.forall_mem_cons.2 ⟨fun he => ?_,h.returned⟩⟩
    · rw [hs]
      exact List.mem_cons_of_mem w hv
    · by_contra hd
      exact hp (h.waiting w hw (Bool.eq_false_of_not_eq_true hd) (of_decide_eq_true he))

/-- What a step can do: a call is made, a done-callback runs, a loop is checked, or the stack changes otherwise. -/
theorem step_cases (hst : s.step l = some t) :
    (∃ c o, l = .call c o ∧ s.userRuns = true ∧ t = s.call c o) ∨
    (∃ op, l = .done op ∧ s.handles = true ∧ op ∈ s.pending ∧ t = s.doneCallback op) ∨
    (∃ w stack, l = .check ∧ s.stack = .wait w :: stack ∧ w.polling = false ∧ t = s.check w stack) ∨
    (∃ w stack, l = .enter ∧ s.stack = .wait w :: stack ∧ t = { s with stack := .handler :: .wait w :: stack }) ∨
    (∃ stack, l = .exit ∧ s.stack = .handler :: stack ∧ t = { s with stack }) ∨
    ∃ w stack, l = .empty ∧ s.stack = .wait w :: stack ∧
      t = { s with stack := .wait { w with polling := false } :: stack } := by
  cases l with
  | call c o =>
    obtain ⟨hu,ht⟩ := Option.ite_none_right_eq_some.1 hst
    exact .inl ⟨c,o,rfl,hu,(Option.some.inj ht).symm⟩
  | done op =>
    obtain ⟨⟨hh,hp⟩,ht⟩ := Option.ite_none_right_eq_some.1 hst
    exact .inr (.inl ⟨op,rfl,hh,hp,(Option.some.inj ht).symm⟩)
  | enter =>
    rw [State.step] at hst
    split at hst
    · rename_i w stack hs
      obtain ⟨-,ht⟩ := Option.ite_none_right_eq_some.1 hst
      exact .inr (.inr (.inr (.inl ⟨w,stack,rfl,hs,(Option.some.inj ht).symm⟩)))
    · cases hst
  | exit =>
    rw [State.step] at hst
    split at hst
    · rename_i stack hs
      exact .inr (.inr (.inr (.inr (.inl ⟨stack,rfl,hs,(Option.some.inj hst).symm⟩))))
    · cases hst
  | check =>
    rw [State.step] at hst
    split at hst
    · rename_i w stack hs
      obtain ⟨hp,ht⟩ := Option.ite_none_left_eq_some.1 hst
      exact .inr (.inr (.inl ⟨w,stack,rfl,hs,Bool.eq_false_of_not_eq_true hp,(Option.some.inj ht).symm⟩))
    · cases hst
  | empty =>
    rw [State.step] at hst
    split at hst
    · rename_i w stack hs
      obtain ⟨-,ht⟩ := Option.ite_none_right_eq_some.1 hst
      exact .inr (.inr (.inr (.inr (.inr ⟨w,stack,rfl,hs,(Option.some.inj ht).symm⟩))))
    · cases hst

theorem Inv.step (h : Inv s) (hst : s.step l = some t) : Inv t := by
  obtain ⟨c,o,-,-,rfl⟩ | ⟨op,-,-,-,rfl⟩ | ⟨w,stack,-,hs,-,rfl⟩ | ⟨w,stack,-,hs,rfl⟩ | ⟨stack,-,hs,rfl⟩ |
    ⟨w,stack,-,hs,rfl⟩ := step_cases hst
  · exact h.call c o
  · exact h.doneCallback op
  · exact h.check hs
  · refine h.setStack fun v hv => ⟨v,?_,rfl,rfl⟩
    rwa [hs]
  · refine h.setStack fun v hv => ⟨v,?_,rfl,rfl⟩
    rwa [hs]
  · refine h.setStack ?_
    rw [hs]
    exact mem_waits_same rfl rfl

/-- However blocking calls are nested: one returns before its done-callback has run only if, while it waited, the
done-callback of another call ran on the thread or another call ended without a wait. -/
theorem early_disturbed (h : machine.Reachable s) {r : Return} (hr : r ∈ s.returned) (he : r.early = true) :
    r.disturbed = true := by
  have hinv : Inv s := by
    refine h.invariant (fun s hs => ?_) fun _ _ _ hs hst _ => hs.step hst
    subst hs
    exact ⟨fun _ hw => absurd hw List.not_mem_nil,fun _ hr => absurd hr List.not_mem_nil⟩
  exact hinv.returned r hr he

/-- A local start function stops another EO. -/
private def nested : Option State :=
  System.exec State.step (fun _ _ _ => true) {}
    [.call .startSync .sent, .check, .enter, .call .stopSync .sent, .check, .done 1, .empty, .check, .exit, .empty,
      .check]

private theorem nested_isSome : nested.isSome = true := by decide

private theorem nested_early : ⟨0,true,true⟩ ∈ (nested.get nested_isSome).returned := by decide

theorem early_disturbed_nested : Return.disturbed ⟨0,true,true⟩ = true :=
  early_disturbed (System.ReachableVia.exec (fun _ _ _ _ => trivial) (.start rfl)
    (Option.some_get nested_isSome).symm) nested_early rfl

/-- No call without requests is made inside another's wait. -/
def AsksInside (s : State) (l : Label) : Prop :=
  ∀ c, l = .call c .nothing → c ≠ .startSync → c ≠ .modifySync → waits s.stack = []

/-- The flag is set for the innermost wait only. -/
def Current (s : State) : Prop := s.inProgress = true → ∀ w, (waits s.stack).head? = some w → w.op ∈ s.pending

theorem Current.call (h : Current s) {c : Call} {o : Outcome} (hask : AsksInside s (.call c o)) :
    Current (s.call c o) := by
  rw [State.call]
  split
  · rintro - w ⟨⟩
    exact Finset.mem_insert_self ..
  · rename_i ho
    intro hp
    cases o with
    | rejected => cases c <;> exact h hp
    | failed => cases c <;> cases hp
    | nothing =>
      cases c with
      | startSync => exact h hp
      | modifySync => cases hp
      | stopSync | removeQueueSync | removeQueueAllSync =>
        intro w hw
        replace hw : (waits s.stack).head? = some w := hw
        rw [hask _ rfl (by decide) (by decide)] at hw
        cases hw
    | sent => exact absurd rfl ho

/-- Other steps leave the innermost wait, or the flag is not set after them. -/
theorem Current.step (h : Current s) (hask : AsksInside s l) (hst : s.step l = some t) : Current t := by
  obtain ⟨c,o,rfl,-,rfl⟩ | ⟨op,-,-,-,rfl⟩ | ⟨w,stack,-,hs,-,rfl⟩ | ⟨w,stack,-,hs,rfl⟩ | ⟨stack,-,hs,rfl⟩ |
    ⟨w,stack,-,hs,rfl⟩ := step_cases hst
  · exact h.call hask
  · exact fun hp => (by cases hp)
  · rw [State.check]
    split
    · rename_i hp
      rintro - v ⟨⟩
      exact h hp w (by rw [hs]; rfl)
    · rename_i hp
      exact fun hp' => absurd hp' hp
  · intro hp v hv
    exact h hp v (by rw [hs]; exact hv)
  · intro hp v hv
    exact h hp v (by rw [hs]; exact hv)
  · rintro hp v ⟨⟩
    exact h hp w (by rw [hs]; rfl)

/-- No call is made inside another's wait. -/
def Unnested (s : State) (l : Label) : Prop := ∀ c o, l = .call c o → waits s.stack = []

/-- At most one call waits, undisturbed, and no done-callback is to run but its own. -/
structure Alone (s : State) : Prop where
  one : ∀ v ∈ waits s.stack, ∀ w ∈ waits s.stack, v.op = w.op
  undisturbed : ∀ w ∈ waits s.stack, w.disturbed = false
  pending : ∀ op ∈ s.pending, ∃ w ∈ waits s.stack, w.op = op
  returned : ∀ r ∈ s.returned, r.disturbed = false

theorem Alone.setStack (h : Alone s) {inProgress : Bool} {stack : List Frame}
    (hs : ∀ w ∈ waits stack, ∃ v ∈ waits s.stack, v.op = w.op ∧ v.disturbed = w.disturbed)
    (hs' : ∀ v ∈ waits s.stack, ∃ w ∈ waits stack, w.op = v.op) : Alone { s with inProgress, stack } := by
  refine ⟨fun v hv w hw => ?_,fun w hw => ?_,fun op hop => ?_,h.returned⟩
  · obtain ⟨v',hv',hvop,-⟩ := hs v hv
    obtain ⟨w',hw',hwop,-⟩ := hs w hw
    rw [← hvop, ← hwop]
    exact h.one v' hv' w' hw'
  · obtain ⟨v,hv,-,hd⟩ := hs w hw
    exact hd.symm.trans (h.undisturbed v hv)
  · obtain ⟨v,hv,rfl⟩ := h.pending op hop
    exact hs' v hv

theorem Alone.call (h : Alone s) {c : Call} {o : Outcome} (hun : Unnested s (.call c o)) : Alone (s.call c o) := by
  have hw : waits s.stack = [] := hun c o rfl
  have hno : ∀ op, op ∉ s.pending := by
    intro op hop
    obtain ⟨w,hmem,-⟩ := h.pending op hop
    rw [hw] at hmem
    cases hmem
  by_cases ho : o = .sent
  · subst ho
    have hmem : ∀ v ∈ waits (s.call c .sent).stack, v = { op := s.count } := by
      intro v hv
      replace hv : v ∈ { op := s.count } :: waits s.stack := hv
      rw [hw] at hv
      exact List.mem_singleton.1 hv
    refine ⟨fun v hv w hv' => ?_,fun w hv => ?_,fun op hop => ?_,h.returned⟩
    · rw [hmem v hv, hmem w hv']
    · rw [hmem w hv]
    · rcases Finset.mem_insert.1 hop with rfl | hop
      · exact ⟨_,List.mem_cons_self,rfl⟩
      · exact absurd hop (hno op)
  · rw [State.call, if_neg ho]
    refine h.setStack (fun w hv => ?_) fun v hv => ?_
    · split at hv
      · rw [waits_disturb, hw] at hv
        cases hv
      · rw [hw] at hv
        cases hv
    · rw [hw] at hv
      cases hv

theorem Alone.doneCallback (h : Alone s) {op : Nat} (hop : op ∈ s.pending) : Alone (s.doneCallback op) := by
  have hsame : waits (disturb (some op) s.stack) = waits s.stack := by
    obtain ⟨v,hv,rfl⟩ := h.pending op hop
    rw [waits_disturb]
    refine (List.map_congr_left fun w hw => ?_).trans (List.map_id _)
    rw [if_pos (congrArg some (h.one v hv w hw)), id]
  have h' : Alone { s with inProgress := false, stack := disturb (some op) s.stack } :=
    h.setStack (fun w hw => ⟨w,hsame ▸ hw,rfl,rfl⟩) fun v hv => ⟨v,hsame.symm ▸ hv,rfl⟩
  exact ⟨h'.one,h'.undisturbed,fun op' hop' => h'.pending op' (Finset.mem_of_mem_erase hop'),h.returned⟩

theorem Alone.check (h : Alone s) (hinv : Inv s) {w : Wait} {stack : List Frame} (hs : s.stack = .wait w :: stack) :
    Alone (s.check w stack) := by
  have hws : waits s.stack = w :: waits stack := congrArg waits hs
  have hw : w ∈ waits s.stack := hws ▸ List.mem_cons_self
  have hsub {v : Wait} (hv : v ∈ waits stack) : v ∈ waits s.stack := hws ▸ List.mem_cons_of_mem w hv
  rw [State.check]
  split
  · refine h.setStack ?_ fun v hv => ⟨{ w with polling := true },List.mem_cons_self,h.one w hw v hv⟩
    rw [hs]
    exact mem_waits_same rfl rfl
  · rename_i hp
    refine ⟨fun v hv v' hv' => h.one v (hsub hv) v' (hsub hv'),fun v hv => h.undisturbed v (hsub hv),
      fun op hop => ?_,List.forall_mem_cons.2 ⟨h.undisturbed w hw,h.returned⟩⟩
    obtain ⟨v,hv,rfl⟩ := h.pending op hop
    exact absurd (hinv.waiting v hv (h.undisturbed v hv) hop) hp

theorem Alone.step (h : Alone s) (hinv : Inv s) (hun : Unnested s l) (hst : s.step l = some t) : Alone t := by
  obtain ⟨c,o,rfl,-,rfl⟩ | ⟨op,-,-,hop,rfl⟩ | ⟨w,stack,-,hs,-,rfl⟩ | ⟨w,stack,-,hs,rfl⟩ | ⟨stack,-,hs,rfl⟩ |
    ⟨w,stack,-,hs,rfl⟩ := step_cases hst
  · exact h.call hun
  · exact h.doneCallback hop
  · exact h.check hinv hs
  · refine h.setStack (fun v hv => ⟨v,?_,rfl,rfl⟩) fun v hv => ⟨v,?_,rfl⟩
    · rwa [hs]
    · rwa [hs] at hv
  · refine h.setStack (fun v hv => ⟨v,?_,rfl,rfl⟩) fun v hv => ⟨v,?_,rfl⟩
    · rwa [hs]
    · rwa [hs] at hv
  · refine h.setStack ?_ fun v hv => ⟨{ w with polling := false },List.mem_cons_self,?_⟩
    · rw [hs]
      exact mem_waits_same rfl rfl
    · exact h.one w (by rw [hs]; exact List.mem_cons_self) v hv

/-- In a run where no call is made inside another's wait, each returns after its done-callback, and its loop goes
on exactly until that has run. -/
theorem unnested_waits (h : machine.ReachableVia (fun s l _ => Unnested s l) s) :
    (∀ r ∈ s.returned, r.early = false) ∧
      ∀ w ∈ waits s.stack, s.inProgress = true ↔ w.op ∈ s.pending := by
  have hall : Inv s ∧ Current s ∧ Alone s := by
    refine h.invariant (I := fun s => Inv s ∧ Current s ∧ Alone s) (fun s hs => ?_) fun s l t hs hst hun => ?_
    · subst hs
      exact ⟨⟨fun _ hw => absurd hw List.not_mem_nil,fun _ hr => absurd hr List.not_mem_nil⟩,
        fun hp => (by cases hp),⟨fun _ hv => absurd hv List.not_mem_nil,fun _ hv => absurd hv List.not_mem_nil,
          fun _ hop => absurd hop (Finset.notMem_empty _),fun _ hr => absurd hr List.not_mem_nil⟩⟩
    · obtain ⟨hinv,hcur,halone⟩ := hs
      exact ⟨hinv.step hst,hcur.step (fun c hc _ _ => hun c .nothing hc) hst,halone.step hinv hun hst⟩
  obtain ⟨hinv,hcur,halone⟩ := hall
  refine ⟨fun r hr => ?_,fun w hw => ⟨fun hp => ?_,hinv.waiting w hw (halone.undisturbed w hw)⟩⟩
  · by_contra he
    have hd := hinv.returned r hr (Bool.eq_true_of_not_eq_false he)
    rw [halone.returned r hr] at hd
    cases hd
  · cases hv : (waits s.stack).head? with
    | none =>
      rw [List.head?_eq_none_iff.1 hv] at hw
      cases hw
    | some v =>
      rw [halone.one w hw v (List.mem_of_head? hv)]
      exact hcur hp v hv

private def apart (s : State) : Label → Bool
  | .call _ _ => (waits s.stack).isEmpty
  | _ => true

private theorem apart_unnested (h : apart s l = true) : Unnested s l := by
  rintro c o rfl
  exact List.isEmpty_iff.1 h

/-- An EO is started, and another stopped. -/
private def sequential : Option State :=
  System.exec State.step (fun s l _ => apart s l) {}
    [.call .startSync .sent, .check, .enter, .exit, .done 0, .empty, .check, .call .stopSync .sent, .check]

private theorem sequential_isSome : sequential.isSome = true := by decide

theorem unnested_waits_sequential : (∀ r ∈ (sequential.get sequential_isSome).returned, r.early = false) ∧
    ∀ w ∈ waits (sequential.get sequential_isSome).stack,
      (sequential.get sequential_isSome).inProgress = true ↔ w.op ∈ (sequential.get sequential_isSome).pending :=
  unnested_waits (System.ReachableVia.exec (fun _ _ _ => apart_unnested) (.start rfl)
    (Option.some_get sequential_isSome).symm)

end EmOdp.SyncApi
