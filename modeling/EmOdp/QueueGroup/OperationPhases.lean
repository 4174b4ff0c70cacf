import Mathlib.Data.Finset.Card
import EmOdp.QueueGroup.Operations
import EmOdp.QueueGroup.Convergence

/-! The phases of an operation on a queue group that does not overlap with another one. -/
namespace EmOdp.QueueGroup.Operation
open Lib
variable {ι : Type} [DecidableEq ι] {m : CoreMap ι} {s t : State ι} {c d : ι}

/-- No operation is being called and no control event is on its way. -/
structure Idle (s : State ι) : Prop where
  calls : ∀ c, s.calls c = []
  ctrlQueue : ∀ c, s.ctrlQueue c = []
  sharedQueue : s.sharedQueue = []

/-- Nothing fails, handlers make no sync-API calls and the operations do not overlap, except
for a modify that changes nothing. A create is for the calling core at most, and an
asynchronous modify only adds the calling core. -/
def Proper (m : CoreMap ι) (s : State ι) : Label ι → State ι → Prop
  | .start c kind mask, _ =>
    Idle s ∧ (kind.creates = true → mask ⊆ {c}) ∧ (kind = .modify → s.requests m c kind mask = []) ∨
      kind = .modify ∧ mask = s.coreMask
  | .sendFails _, _ | .syncApi _, _ => False
  | _, _ => True

/-- The request to a core that the new mask asks for. -/
def reqFor (mask : Finset ι) (d : ι) : Req := if d ∈ mask then .add else .rem

/-- The control queues while requests are on their way to the cores of `queued`. -/
def queuedReqs (mask : Finset ι) (e : Nat) (queued : Finset ι) (d : ι) : List CtrlEvent :=
  if d ∈ queued then [.req (reqFor mask d) e] else []

/-- A kind that counts requests to other cores. -/
def Counts (kind : Kind) : Prop := kind = .modifySync ∨ kind = .deleteSync ∨ kind = .delete

/-- The operation under way is the only one; an asynchronous call may have returned. -/
structure OnlyCall (s : State ι) (c : ι) (op : Op ι) : Prop where
  counts : Counts op.kind
  calls : s.calls c = [op] ∨ op.kind = .delete ∧ op.unsent = [] ∧ s.calls c = []
  others : ∀ d, d ≠ c → s.calls d = []
  inProgress : ∀ d, s.inProgress d = (op.kind.waits && decide (d = c))
  ongoingDelete : s.ongoingDelete = op.kind.deletes
  deletes : op.kind.deletes = true → op.newMask = ∅

/-- Requests are to be sent or handled. -/
structure Requested (s : State ι) (c : ι) (op : Op ι) (queued : Finset ι) : Prop where
  only : OnlyCall s c op
  coreMask : s.coreMask = op.newMask
  evgrp : s.evgrps op.evgrp = some
    { left := op.unsent.length+queued.card, kind := op.kind, newMask := op.newMask, caller := c }
  left : op.unsent.length+queued.card ≠ 0
  ctrlQueue : ∀ d, s.ctrlQueue d = queuedReqs op.newMask op.evgrp queued d
  sharedQueue : s.sharedQueue = []
  nodup : (op.unsent.map Prod.fst).Nodup
  unsent : ∀ d req, (d,req) ∈ op.unsent → req = reqFor op.newMask d ∧ d ∉ queued
  settled : ∀ d, d ∉ queued → d ∉ op.unsent.map Prod.fst → (d ∈ s.schedGroup ↔ d ∈ op.newMask)

/-- All requests are handled and the done event is on its way. -/
structure Notified (s : State ι) (c : ι) (op : Op ι) : Prop where
  only : OnlyCall s c op
  unsent : op.unsent = []
  coreMask : s.coreMask = op.newMask
  schedGroup : s.schedGroup = op.newMask
  evgrp : s.evgrps op.evgrp = some
    { left := 0, kind := op.kind, newMask := op.newMask, caller := c }
  ctrlQueue : ∀ d, s.ctrlQueue d = if op.kind.sync ∧ d = c then [.done op.evgrp] else []
  sharedQueue : s.sharedQueue = if op.kind.sync then [] else [.done op.evgrp]

/-- No operation is under way: a call that has not returned yet is complete. -/
structure Settled (s : State ι) : Prop where
  ongoingDelete : s.ongoingDelete = false
  schedGroup : s.allocated = true → s.schedGroup = s.coreMask
  calls : ∀ c op, op ∈ s.calls c → op.unsent = [] ∧ (op.kind.sync = true → s.schedGroup = op.newMask)
  inProgress : ∀ c, s.inProgress c = false
  ctrlQueue : ∀ c, s.ctrlQueue c = []
  sharedQueue : s.sharedQueue = []

inductive Phase (s : State ι) : Prop where
  | settled (h : Settled s)
  | requested (c : ι) (op : Op ι) (queued : Finset ι) (h : Requested s c op queued)
  | notified (c : ι) (op : Op ι) (h : Notified s c op)

structure Inv (s : State ι) : Prop where
  phase : Phase s
  counts : ∀ e g, s.evgrps e = some g → Counts g.kind

theorem inv_initial (h : Initial s) : Inv s := by
  refine ⟨.settled ⟨h.ongoingDelete,fun ha => ?_,fun c op hop => ?_,h.inProgress,h.ctrlQueue,
    h.sharedQueue⟩,fun e g hg => ?_⟩
  · rw [h.allocated] at ha
    cases ha
  · rw [h.calls] at hop
    cases hop
  · rw [h.evgrps] at hg
    cases hg

/-- The invariant makes every answer of the operations right. -/
theorem Inv.complete (h : Inv s) : Complete s := by
  constructor
  · rintro c mask ⟨op,calls,hcalls,hsync,rfl,hunsent,hwaits⟩
    have honly : ∀ {c' op'}, OnlyCall s c' op' → s.schedGroup = op.newMask := by
      intro c' op' ho
      by_cases hc : c = c'
      · subst hc
        rcases ho.calls with hop | ⟨-,-,hnil⟩
        · obtain ⟨rfl,-⟩ := List.cons_eq_cons.1 (hcalls.symm.trans hop)
          have hprog := ho.inProgress c
          rcases ho.counts with hk | hk | hk <;> simp [hk, Kind.waits, Kind.sync] at hprog hwaits hsync
          all_goals simp [hprog] at hwaits
        · rw [hnil] at hcalls
          cases hcalls
      · rw [ho.others c hc] at hcalls
        cases hcalls
    cases h.phase with
    | settled hs => exact (hs.calls c op (by simp [hcalls])).2 hsync
    | requested c' op' queued hr => exact honly hr.only
    | notified c' op' hn => exact honly hn.only
  · intro e g hg hkind
    have := h.counts e g hg
    rcases hkind with hk | hk <;> simp [Counts, hk] at this

theorem mem_requests {kind : Kind} {mask : Finset ι} {req : Req} :
    (d,req) ∈ s.requests m c kind mask ↔
      (d ∈ s.oldMask kind ∧ d ∉ mask ∧ (kind.waits → d ≠ c) ∧ req = .rem) ∨
      (d ∈ mask ∧ d ∉ s.oldMask kind ∧ d ≠ c ∧ req = .add) := by
  simp only [State.requests, CoreMap.mem_addremReqs, Finset.mem_erase, mem_addMask]
  split <;> simp only [Finset.mem_erase, mem_remMask] <;> simp [*] <;> tauto

theorem reqFor_of_mem_requests {kind : Kind} {mask : Finset ι} {req : Req}
    (h : (d,req) ∈ s.requests m c kind mask) : req = reqFor mask d := by
  rw [mem_requests] at h
  rcases h with ⟨-,hd,-,rfl⟩ | ⟨hd,-,-,rfl⟩ <;> simp [reqFor, hd]

theorem nodup_requests {kind : Kind} {mask : Finset ι} :
    ((s.requests m c kind mask).map Prod.fst).Nodup := by
  refine m.nodup_addremReqs (Finset.disjoint_left.2 fun d ha hr => ?_)
  have hadd := (mem_addMask.1 (Finset.mem_of_mem_erase ha)).1
  have hrem : d ∈ remMask (s.oldMask kind) mask := by
    split at hr
    · exact Finset.mem_of_mem_erase hr
    · exact hr
  exact (mem_remMask.1 hrem).2 hadd

theorem mem_moveSelf {kind : Kind} {add rem schedGroup : Finset ι} :
    d ∈ State.moveSelf c kind add rem schedGroup ↔
      (d ∈ schedGroup ∨ d = c ∧ c ∈ add) ∧ ¬(kind.waits = true ∧ d = c ∧ c ∈ rem) := by
  simp only [State.moveSelf]
  split <;> split <;> grind

/-- The cores without a request are where the new mask wants them. -/
theorem mem_update {kind : Kind} {mask : Finset ι} (hG : s.oldGroup kind = s.oldMask kind)
    (hd : d ∉ (s.requests m c kind mask).map Prod.fst) :
    d ∈ (s.update c kind mask).schedGroup ↔ d ∈ mask := by
  have hno : ∀ req, (d,req) ∉ s.requests m c kind mask := fun req hr =>
    hd (List.mem_map.2 ⟨_,hr,rfl⟩)
  have hadd := hno .add
  have hrem := hno .rem
  rw [mem_requests] at hadd hrem
  simp only [State.update, mem_moveSelf, hG, mem_addMask, mem_remMask]
  grind

/-- A modify to the group's own mask changes nothing. -/
theorem start_unchanged (ha : s.allocated = true) : s.start m c .modify s.coreMask = s := by
  have hadd : addMask s.coreMask s.coreMask = ∅ := by simp [addMask]
  have hrem : remMask s.coreMask s.coreMask = ∅ := by simp [remMask]
  have hreqs : s.requests m c .modify s.coreMask = [] := by
    simp [State.requests, State.oldMask, Kind.creates, Kind.waits, hadd, hrem, CoreMap.addremReqs,
      CoreMap.toThreads]
  have hupdate : s.update c .modify s.coreMask = { s with allocated := true } := by
    simp [State.update, State.oldMask, State.oldGroup, State.moveSelf, Kind.creates, Kind.waits, hadd]
  simp only [State.start, if_pos hreqs, hupdate]
  change ({ s with allocated := true } : State ι) = s
  rw [← ha]

theorem oldGroup_eq {kind : Kind} {mask : Finset ι} (h : Settled s)
    (ha : s.accepts m kind mask = true) : s.oldGroup kind = s.oldMask kind := by
  unfold State.oldGroup State.oldMask
  split
  · rfl
  · simp_all [State.accepts, h.schedGroup]

end EmOdp.QueueGroup.Operation
