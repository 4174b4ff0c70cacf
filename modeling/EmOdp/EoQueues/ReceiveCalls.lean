import EmOdp.Dispatch.LocalBurst
import EmOdp.EoQueues.Calls

/-! The multi-receive calls for the queues of an EO, from the maximum number of events that the
EO was created with. -/
namespace EmOdp.EoQueues
open Lib QueueTable Dispatch Dispatch.Multircv
open EoStart (EoState)
variable {ι γ α ε ρ : Type}

namespace State
variable {s t : State ι γ α ε ρ} {e : ε} {q : ι} {c : Limits}

/-- The queue element as the dispatcher reads it -/
def qElem (s : State ι γ α ε ρ) (q : ι) : QElem where
  useMultiRcv := (s.binding q).useMultiRcv
  maxEvents := (s.binding q).maxEvents
  ready := (s.tbl.elem q).state = .ready

variable [DecidableEq ι] [DecidableEq γ] [DecidableEq α] [DecidableEq ε]

omit [DecidableEq ι] [DecidableEq γ] [DecidableEq α] in
theorem setEo_self (e : ε) (x : EoElem ι ρ) : (s.setEo e x).eoElem e = x := Function.update_self ..

omit [DecidableEq ι] [DecidableEq γ] [DecidableEq α] in
theorem setEo_of_ne {d : ε} (hd : e ≠ d) (x : EoElem ι ρ) : (s.setEo d x).eoElem e = s.eoElem e :=
  Function.update_of_ne hd _ _

theorem Change.sameFields (hc : c.fixed = true) (hst : Change c s t) (e : ε) :
    (s.eoElem e).SameFields (t.eoElem e) := by
  cases hst with
  | createQueue hfresh hcheck =>
    rw [queueCreate_eq hcheck]
    exact .refl _
  | @addQueue d q _ _ _ hstate =>
    rw [eoAddQueue_ok hstate]
    dsimp only
    by_cases hd : e = d
    · subst hd
      rw [Function.update_self]
      exact ⟨rfl,rfl,rfl,rfl,rfl,rfl⟩
    · rw [Function.update_of_ne hd]
      exact .refl _
  | removeQueue hstate =>
    rw [eoRemQueue_ok hstate]
    exact ⟨rfl,rfl,rfl,rfl,rfl,rfl⟩
  | @setEo d x _ _ _ _ hfixed =>
    by_cases hd : e = d
    · subst hd
      rw [setEo_self]
      exact hfixed hc
    · rw [setEo_of_ne hd]
      exact .refl _
  | _ => exact .refl _

theorem Changes.sameFields (hc : c.fixed = true) (hst : Changes c s t) (e : ε) :
    (s.eoElem e).SameFields (t.eoElem e) := by
  induction hst with
  | refl => exact .refl _
  | tail _ hst ih => exact ih.trans (hst.sameFields hc e)

omit [DecidableEq ι] [DecidableEq γ] [DecidableEq α] in
theorem eoCreate_of_ne {d : ε} (hd : e ≠ d) (p : EoParam ρ) :
    (s.eoCreate d p).1.eoElem e = s.eoElem e := by
  simp only [eoCreate]
  split
  · rfl
  split
  · rfl
  split
  · rfl
  · exact (setEo_of_ne hd _).trans (setEo_of_ne hd _)

omit [DecidableEq ι] [DecidableEq γ] [DecidableEq α] in
theorem emEoCreateMultircv_of_ne {d : ε} (hd : e ≠ d) (p : EoParam ρ) (maxEvents : BitVec 32) :
    (s.emEoCreateMultircv d p maxEvents).1.eoElem e = s.eoElem e := by
  simp only [emEoCreateMultircv]
  split
  · rfl
  split
  · rfl
  · exact (setEo_of_ne hd _).trans (setEo_of_ne hd _)

theorem emEoDelete_sameFields {d : ε} (h : s.Inv) (hd : e ≠ d) (destroyOk : ι → Bool) :
    (s.eoElem e).SameFields ((s.emEoDelete d destroyOk).1.eoElem e) := by
  have hst : Changes { fixed := true } s (s.eoDeleteQueueAll d destroyOk).1 :=
    removeAll_changes h true destroyOk
  have hsame := hst.sameFields rfl e
  simp only [emEoDelete]
  split
  · exact .refl _
  split
  · exact .refl _
  split
  · exact hsame
  · rw [eoFree, setEo_of_ne hd]
    exact hsame

/-- The fields stay until the EO is deleted. -/
theorem step_sameFields {l : Label ι γ α ε ρ} (h : s.Inv) (he : (s.eoElem e).allocated = true)
    (hst : s.step l = some t) (hl : ∀ destroyOk, l ≠ .deleteEo e destroyOk) :
    (s.eoElem e).SameFields (t.eoElem e) := by
  by_cases hfixed : CreatesOrDeletes l
  · cases l with
    | createEo d p =>
      simp only [step] at hst
      split at hst <;> cases hst
      have hd : e ≠ d := by
        rintro rfl
        contradiction
      rw [eoCreate_of_ne hd]
      exact .refl _
    | createEoMultircv d p maxEvents =>
      simp only [step] at hst
      split at hst <;> cases hst
      have hd : e ≠ d := by
        rintro rfl
        contradiction
      rw [emEoCreateMultircv_of_ne hd]
      exact .refl _
    | deleteEo d destroyOk =>
      cases hst
      refine emEoDelete_sameFields h (fun hed => ?_) destroyOk
      subst hed
      exact hl destroyOk rfl
    | _ => cases hfixed
  · exact (step_changes { fixed := true } h hst (fun h => by cases h) (fun h => by cases h) rfl fun _ => hfixed).sameFields rfl e

theorem path_sameFields {ls : List (Label ι γ α ε ρ)} (h : s.Inv)
    (he : (s.eoElem e).allocated = true) (hpath : (machine ι γ α ε ρ).Path s ls t)
    (hls : ∀ l ∈ ls, ∀ destroyOk, l ≠ .deleteEo e destroyOk) :
    (s.eoElem e).SameFields (t.eoElem e) := by
  induction hpath with
  | nil => exact .refl _
  | cons hst _ ih =>
    obtain ⟨hl,hls⟩ := List.forall_mem_cons.1 hls
    have hinv := h.changes (step_changes {} h hst nofun nofun rfl nofun)
    have hsame := step_sameFields h he hst hl
    exact hsame.trans (ih hinv (hsame.allocated.trans he) hls)

omit [DecidableEq ι] [DecidableEq γ] [DecidableEq α] in
/-- The fields of an EO that is created with a multi-receive function -/
theorem emEoCreateMultircv_ok {p : EoParam ρ} {maxEvents : BitVec 32}
    (hok : (s.emEoCreateMultircv e p maxEvents).2 = true) :
    ((s.emEoCreateMultircv e p maxEvents).1.eoElem e).allocated = true ∧
      ((s.emEoCreateMultircv e p maxEvents).1.eoElem e).useMultiRcv = true ∧
      ((s.emEoCreateMultircv e p maxEvents).1.eoElem e).maxEvents =
        if maxEvents = 0 then 32 else maxEvents := by
  simp only [emEoCreateMultircv] at hok ⊢
  split at hok
  · cases hok
  rename_i hparam
  split at hok
  · cases hok
  rename_i hmax
  rw [if_neg hparam, if_neg hmax]
  dsimp only
  rw [setEo_self]
  exact ⟨by rw [initEo, setEo_self],rfl,rfl⟩

/-- The events that a receive call gets at most -/
def maxPerCall (maxEvents : BitVec 32) : Nat := if maxEvents = 0 then 32 else maxEvents.toNat

/-- The dispatch of the burst ends, and every call gets an event at least and no more than the
EO allows. -/
def Dispatches (callbacksRegistered checkLocalQs : Bool) (q : QElem) (maxEvents : BitVec 32)
    (evHdrTbl : List EventHdr) : Prop :=
  ∃ fuel acts, dispatchEoMultircvBurst callbacksRegistered checkLocalQs q evHdrTbl fuel = .ok acts ∧
    ∀ call ∈ acts.filterMap Act.rcvCall?, 1 ≤ call.2.2 ∧ call.2.2 ≤ maxPerCall maxEvents

theorem burst_calls {x : QElem} {evHdrTbl : List EventHdr} (hne : evHdrTbl ≠ [])
    (hmax : 0 < x.maxEvents.toNat) (callbacksRegistered checkLocalQs : Bool) :
    ∃ fuel acts, dispatchEoMultircvBurst callbacksRegistered checkLocalQs x evHdrTbl fuel = .ok acts ∧
      ∀ call ∈ acts.filterMap Act.rcvCall?, 1 ≤ call.2.2 ∧ call.2.2 ≤ x.maxEvents.toNat := by
  have hhdrs : (evHdrTbl.map fun hdr => ((),hdr)).map Prod.snd = evHdrTbl := by
    rw [List.map_map]
    exact List.map_id _
  obtain ⟨bs,hrun,hin,hcut⟩ := @dispatchEoMultircvBurst_ok Unit x
    (evHdrTbl.map fun hdr => ((),hdr)) _ (mt List.map_eq_nil_iff.1 hne) hmax (Nat.lt_succ_self _)
  have hpart := partition_of_greedy hin hcut
  rw [hhdrs] at hrun
  refine ⟨_,_,hrun _ _,fun call hcall => ?_⟩
  rw [rcvCalls_acts] at hcall
  obtain ⟨b,hb,rfl⟩ := List.mem_map.1 hcall
  obtain ⟨hpos,hinside⟩ := hpart.inside _ (List.mem_map_of_mem hb)
  have hle := (hpart.oneCall _ (List.mem_map_of_mem hb)).max
  rw [List.length_take, List.length_drop] at hle
  dsimp only at hpos hinside hle ⊢
  omega

theorem dispatches_iff {x : QElem} {maxEvents : BitVec 32} {evHdrTbl : List EventHdr}
    {callbacksRegistered checkLocalQs : Bool} (hne : evHdrTbl ≠ [])
    (hx : x.maxEvents = (if maxEvents = 0 then 32 else maxEvents).setWidth 16) :
    Dispatches callbacksRegistered checkLocalQs x maxEvents evHdrTbl ↔
      maxEvents = 0 ∨ maxEvents.toNat % 65536 ≠ 0 := by
  have hmax : x.maxEvents.toNat = maxPerCall maxEvents % 65536 := by
    rw [hx, maxPerCall, BitVec.toNat_setWidth]
    split <;> rfl
  have hpos : 0 < x.maxEvents.toNat ↔ maxEvents = 0 ∨ maxEvents.toNat % 65536 ≠ 0 := by
    rw [hmax, maxPerCall]
    by_cases h0 : maxEvents = 0
    · simp [h0]
    · rw [if_neg h0, Nat.pos_iff_ne_zero]
      exact (or_iff_right h0).symm
  rw [← hpos]
  constructor
  · rintro ⟨fuel,acts,hok,-⟩
    refine Nat.pos_of_ne_zero fun h0 => ?_
    obtain ⟨acts',hstuck⟩ := dispatchEoMultircvBurst_stuck h0 evHdrTbl fuel
    cases hok.symm.trans hstuck
  · intro hp
    obtain ⟨fuel,acts,hok,hcalls⟩ := burst_calls hne hp callbacksRegistered checkLocalQs
    refine ⟨fuel,acts,hok,fun call hcall => ⟨(hcalls call hcall).1,(hcalls call hcall).2.trans ?_⟩⟩
    rw [hmax]
    exact Nat.mod_le _ _

end State

private def multircvEo (maxEvents : BitVec 32) : State Unit Unit Unit Unit Unit :=
  (emptyState.emEoCreateMultircv () eoParam maxEvents).1

private def multircvQueueCalls : List (Label Unit Unit Unit Unit Unit) :=
  [.createGroup (), .createQueue () { type := .atomic, queueGroup := some () },
    .addQueue () () true true]

private def multircvQueue (maxEvents : BitVec 32) : Option (State Unit Unit Unit Unit Unit) :=
  System.exec State.step (fun _ _ _ => true) (multircvEo maxEvents) multircvQueueCalls

private theorem multircvQueueCalls_keep : ∀ l ∈ multircvQueueCalls, ∀ destroyOk,
    l ≠ .deleteEo () destroyOk := by
  simp [multircvQueueCalls]

private theorem two_isSome : (multircvQueue 2).isSome = true := by decide

private theorem hang_isSome : (multircvQueue 65536).isSome = true := by decide

end EmOdp.EoQueues
