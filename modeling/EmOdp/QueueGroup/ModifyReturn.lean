import Mathlib.Data.List.TakeWhile
import EmOdp.QueueGroup.ModifyCall
import EmOdp.QueueGroup.Convergence

/-! What the two modify functions leave behind when they return. -/
namespace EmOdp.QueueGroup

theorem Status.ofDelete_ne_ok {err : Status} {isDelete : Bool} (h : err ≠ .ok) :
    err.ofDelete isDelete ≠ .ok := by
  cases isDelete
  · exact h
  · nofun

namespace Call
variable {ι : Type} {s : Call ι}

@[simp] theorem toLocks_readLock : s.readLock.toLocks =
    { s.toLocks with readLocks := s.readLocks+1 } := rfl
@[simp] theorem toLocks_readUnlock : s.readUnlock.toLocks =
    { s.toLocks with readUnlocks := s.readUnlocks+1 } := rfl
@[simp] theorem toLocks_lock : s.lock.toLocks = { s.toLocks with locked := true } := rfl
@[simp] theorem toLocks_unlock : s.unlock.toLocks = { s.toLocks with locked := false } := rfl
@[simp] theorem toLocks_setInProgress {b : Bool} : (s.setInProgress b).toLocks =
    { s.toLocks with inProgress := b } := rfl

@[simp] theorem toElem_readLock : s.readLock.toElem = s.toElem := rfl
@[simp] theorem toElem_readUnlock : s.readUnlock.toElem = s.toElem := rfl
@[simp] theorem toElem_lock : s.lock.toElem = s.toElem := rfl
@[simp] theorem toElem_unlock : s.unlock.toElem = s.toElem := rfl
@[simp] theorem toElem_setInProgress {b : Bool} : (s.setInProgress b).toElem = s.toElem := rfl

@[simp] theorem toLocks_setCoreMask {mask : Finset ι} :
    (s.setCoreMask mask).toLocks = s.toLocks := rfl

@[simp] theorem toLocks_catchContending {isDelete : Bool} :
    (s.catchContending isDelete).toLocks = s.toLocks := by
  cases isDelete <;> rfl

@[simp] theorem coreMask_setCoreMask {mask : Finset ι} : (s.setCoreMask mask).coreMask = mask := rfl

@[simp] theorem coreMask_catchContending {isDelete : Bool} :
    (s.catchContending isDelete).coreMask = s.coreMask := by
  cases isDelete <;> rfl

@[simp] theorem toLocks_operationDone {isDelete : Bool} :
    (s.operationDone isDelete).toLocks = s.toLocks := by
  cases isDelete <;> rfl

end Call

variable {ι : Type} [DecidableEq ι] {env : Env ι} {s t : Call ι} {newMask add rem : Finset ι}
  {isDelete sync : Bool}

namespace Env

/-- The requests for the cores of two masks can be set up, created and sent. -/
structure CanSend (env : Env ι) (add rem : Finset ι) : Prop where
  allocCallbackArgs : env.succeeds .allocCallbackArgs = true
  allocDoneEvent : env.succeeds .allocDoneEvent = true
  evgrpCreate : env.succeeds .evgrpCreate = true
  evgrpApply : env.succeeds .evgrpApply = true
  createAdd : ∀ i < add.card, env.succeeds (.createEvent .add i) = true
  createRem : ∀ i < rem.card, env.succeeds (.createEvent .rem i) = true
  sendRem : ∀ i < rem.card, env.succeeds (.sendEvent .rem i) = true
  sendAdd : ∀ i < add.card, env.succeeds (.sendEvent .add i) = true

omit [DecidableEq ι] in
theorem createAddremEvents_eq_iff {req : Req} {count : Nat} :
    env.createAddremEvents req count = count ↔
      ∀ i < count, env.succeeds (.createEvent req i) = true := by
  have hpre := List.takeWhile_prefix (l := List.range count)
    fun i => env.succeeds (.createEvent req i)
  have hlen : (List.range count).length = count := List.length_range
  constructor
  · intro h i hi
    have heq := hpre.eq_of_length (by rw [hlen]; exact h)
    rw [List.takeWhile_eq_self_iff] at heq
    exact heq i (List.mem_range.2 hi)
  · intro h
    have heq : (List.range count).takeWhile (fun i => env.succeeds (.createEvent req i)) =
        List.range count :=
      List.takeWhile_eq_self_iff.2 fun i hi => h i (List.mem_range.1 hi)
    rw [createAddremEvents, heq, hlen]

omit [DecidableEq ι] in
/-- The sends that succeed are the first ones, all of them if none fails. -/
theorem sendAddremEvents_spec (req : Req) (thrs : List ι) (evIdx : Nat) (s : Call ι) :
    ∃ sent, sent <+: thrs.map (·,req) ∧
      (env.sendAddremEvents req evIdx thrs s).2 = { s with sent := s.sent ++ sent } ∧
      ((env.sendAddremEvents req evIdx thrs s).1 = true → sent = thrs.map (·,req)) ∧
      ((env.sendAddremEvents req evIdx thrs s).1 = true ↔
        ∀ i < thrs.length, env.succeeds (.sendEvent req (evIdx+i)) = true) := by
  induction thrs generalizing evIdx s with
  | nil => exact ⟨[],by simp [sendAddremEvents]⟩
  | cons thr thrs ih =>
    by_cases hok : env.succeeds (.sendEvent req evIdx) = true
    · obtain ⟨sent,hpre,heq,hall,hiff⟩ := ih (evIdx+1) { s with sent := s.sent ++ [(thr,req)] }
      have hshift : (∀ i < thrs.length, env.succeeds (.sendEvent req (evIdx+1+i)) = true) ↔
          ∀ i < (thr :: thrs).length, env.succeeds (.sendEvent req (evIdx+i)) = true := by
        constructor
        · intro h i hi
          cases i with
          | zero => exact hok
          | succ i =>
            have := h i (by simpa using hi)
            rwa [Nat.add_assoc, Nat.add_comm 1 i] at this
        · intro h i hi
          have := h (i+1) (by simpa using hi)
          rwa [Nat.add_assoc, Nat.add_comm 1 i]
      refine ⟨(thr,req) :: sent,?_,?_,?_,?_⟩
      · simpa using hpre
      · simp [sendAddremEvents, hok, heq]
      · intro h
        simpa using hall (by simpa [sendAddremEvents, hok] using h)
      · simpa [sendAddremEvents, hok] using hiff.trans hshift
    · refine ⟨[],by simp,by simp [sendAddremEvents, hok],by simp [sendAddremEvents, hok],?_⟩
      constructor
      · intro h
        simp [sendAddremEvents, hok] at h
      · intro h
        exact absurd (h 0 (by simp)) hok

theorem length_toThreads (m : CoreMap ι) (mask : Finset ι) :
    (m.toThreads mask).length = mask.card := by
  have hmem : (m.toThreads mask).toFinset = mask := by
    ext d
    simp [CoreMap.mem_toThreads]
  have hnodup : (m.toThreads mask).Nodup := m.nodup.filter _
  rw [← List.toFinset_card_of_nodup hnodup, hmem]

/-- Only requests are sent: all of them if nothing fails, else the first ones. -/
theorem sendQgrpAddremReqs_spec (add rem : Finset ι) (s : Call ι) :
    ∃ sent, sent <+: env.cores.addremReqs add rem ∧
      (env.sendQgrpAddremReqs add rem s).2 = { s with sent := s.sent ++ sent } ∧
      ((env.sendQgrpAddremReqs add rem s).1 = .ok → sent = env.cores.addremReqs add rem) ∧
      ((env.sendQgrpAddremReqs add rem s).1 = .ok ↔ env.CanSend add rem) := by
  have hnone : ∀ {err : Status}, err ≠ .ok → ¬env.CanSend add rem →
      ∃ sent, sent <+: env.cores.addremReqs add rem ∧
        ((err,s) : Status × Call ι).2 = { s with sent := s.sent ++ sent } ∧
        (((err,s) : Status × Call ι).1 = .ok → sent = env.cores.addremReqs add rem) ∧
        (((err,s) : Status × Call ι).1 = .ok ↔ env.CanSend add rem) := fun herr hno =>
    ⟨[],List.nil_prefix,by simp,fun h => absurd h herr,iff_of_false herr hno⟩
  rw [sendQgrpAddremReqs]
  split
  · rename_i h
    exact hnone nofun fun hc => by simp [hc.allocCallbackArgs] at h
  rename_i hargs
  split
  · rename_i h
    exact hnone nofun fun hc => by simp [hc.allocDoneEvent, hc.evgrpCreate, hc.evgrpApply] at h
  rename_i hdone
  split
  · rename_i h
    exact hnone nofun fun hc => h (createAddremEvents_eq_iff.2 hc.createAdd)
  rename_i hadd
  split
  · rename_i h
    exact hnone nofun fun hc => h (createAddremEvents_eq_iff.2 hc.createRem)
  rename_i hrem
  obtain ⟨sent,hpre,heq,hall,hsend⟩ := env.sendAddremEvents_spec .rem (env.cores.toThreads rem) 0 s
  simp only [length_toThreads, Nat.zero_add] at hsend
  split
  · rename_i s' h
    rw [h] at heq hsend
    exact ⟨sent,hpre.trans (List.prefix_append _ _),heq,nofun,iff_of_false nofun fun hc =>
      absurd (hsend.2 hc.sendRem) nofun⟩
  rename_i s' h
  rw [h] at heq hsend hall
  obtain ⟨sent',hpre',heq',hall',hsend'⟩ :=
    env.sendAddremEvents_spec .add (env.cores.toThreads add) 0 s'
  simp only [length_toThreads, Nat.zero_add] at hsend'
  have hsent : (env.sendAddremEvents .add 0 (env.cores.toThreads add) s').2 =
      { s with sent := s.sent ++ (sent ++ sent') } := by
    rw [heq']
    simp only at heq
    simp only [heq, List.append_assoc]
  have hreqs : sent ++ sent' <+: env.cores.addremReqs add rem := by
    rw [hall rfl, CoreMap.addremReqs]
    exact (List.prefix_append_right_inj _).2 hpre'
  split
  · rename_i h'
    rw [h'] at hsent hsend'
    exact ⟨_,hreqs,hsent,nofun,iff_of_false nofun fun hc => absurd (hsend'.2 hc.sendAdd) nofun⟩
  · rename_i h'
    rw [h'] at hsent hsend' hall'
    refine ⟨_,hreqs,hsent,fun _ => ?_,iff_of_true rfl ?_⟩
    · rw [hall rfl, hall' rfl, CoreMap.addremReqs]
    · exact {
        allocCallbackArgs := by simpa using hargs
        allocDoneEvent := by simp_all
        evgrpCreate := by simp_all
        evgrpApply := by simp_all
        createAdd := createAddremEvents_eq_iff.1 (not_not.1 hadd)
        createRem := createAddremEvents_eq_iff.1 (not_not.1 hrem)
        sendRem := hsend.1 rfl
        sendAdd := hsend'.1 rfl }

/-- `queue_group_modify_sync` if `sync` is set, else `queue_group_modify` -/
def modify (env : Env ι) (sync : Bool) (newMask : Finset ι) (isDelete : Bool) (s : Call ι) :
    Option (Status × Call ι) :=
  if sync then env.queueGroupModifySync newMask isDelete s
  else some (env.queueGroupModify newMask isDelete s)

/-- The cores that are sent an add request: the calling core adds itself. -/
def addCores (env : Env ι) (elem : Elem ι) (newMask : Finset ι) : Finset ι :=
  (addMask elem.coreMask newMask).erase env.core

/-- The cores that are sent a rem request: in a sync call the calling core removes itself. -/
def remCores (env : Env ι) (sync : Bool) (elem : Elem ι) (newMask : Finset ι) : Finset ι :=
  let rem := remMask elem.coreMask newMask
  if sync then rem.erase env.core else rem

/-- The call gets to its requests, and they cannot all be sent. -/
structure RequestsFail (env : Env ι) (sync : Bool) (newMask : Finset ι) (isDelete : Bool)
    (elem : Elem ι) : Prop where
  mask : newMask ⊆ env.cores.logicMask
  state : elem.checkQgrpState isDelete = .ok
  others : env.addCores elem newMask ≠ ∅ ∨ env.remCores sync elem newMask ≠ ∅
  fails : ¬env.CanSend (env.addCores elem newMask) (env.remCores sync elem newMask)

end Env

namespace Call

@[simp] theorem toLocks_qGrpAddCore : (s.qGrpAddCore env).toLocks = s.toLocks := by
  unfold qGrpAddCore; split <;> rfl

@[simp] theorem toLocks_qGrpRemCore : (s.qGrpRemCore env).toLocks = s.toLocks := by
  unfold qGrpRemCore; split <;> rfl

@[simp] theorem toLocks_joinSelf : (s.joinSelf env add).toLocks = s.toLocks := by
  unfold joinSelf; split <;> simp

@[simp] theorem toLocks_leaveSelf : (s.leaveSelf env rem).toLocks = s.toLocks := by
  unfold leaveSelf; split <;> simp

@[simp] theorem coreMask_joinSelf : (s.joinSelf env add).coreMask = s.coreMask := by
  unfold joinSelf qGrpAddCore; split <;> try split
  all_goals rfl

@[simp] theorem coreMask_leaveSelf : (s.leaveSelf env rem).coreMask = s.coreMask := by
  unfold leaveSelf qGrpRemCore; split <;> try split
  all_goals rfl

omit [DecidableEq ι] in
theorem toLocks_pollUntilDone {polls : List Polled}
    (h : s.pollUntilDone isDelete polls = some t) (hs : s.locked = false) :
    t.toLocks = { s.toLocks with inProgress := false } := by
  induction polls with
  | nil =>
    cases hp : s.inProgress <;> simp [pollUntilDone, hp] at h
    rw [← h, ← hp]
  | cons polled polls ih =>
    cases hp : s.inProgress <;> simp only [pollUntilDone, hp] at h
    · simp at h
      rw [← h, ← hp]
    · cases polled with
      | done =>
        simp at h
        rw [← h]
        simp [hs]
      | syncApi =>
        simp at h
        rw [← h]
        simp
      | other => exact ih h

end Call

namespace Env

@[simp] theorem toLocks_sendQgrpAddremReqs :
    (env.sendQgrpAddremReqs add rem s).2.toLocks = s.toLocks := by
  obtain ⟨sent,_,heq,_⟩ := env.sendQgrpAddremReqs_spec add rem s
  rw [heq]

@[simp] theorem coreMask_sendQgrpAddremReqs :
    (env.sendQgrpAddremReqs add rem s).2.coreMask = s.coreMask := by
  obtain ⟨sent,_,heq,_⟩ := env.sendQgrpAddremReqs_spec add rem s
  rw [heq]

/-- `queue_group_modify` releases what it takes on every path. -/
theorem toLocks_queueGroupModify (hs : s.locked = false) :
    (env.queueGroupModify newMask isDelete s).2.toLocks =
      { s.toLocks with readLocks := s.readLocks+1, readUnlocks := s.readUnlocks+1 } := by
  simp only [queueGroupModify]
  split
  · simp
  split
  · simp [hs]
  split
  · simp [hs]
  · split <;> simp [hs]

theorem RequestsFail.mask_ne {elem : Elem ι} (h : env.RequestsFail sync newMask isDelete elem) :
    elem.coreMask ≠ newMask := fun heq => by
  simpa [addCores, remCores, addMask, remMask, heq] using h.others

theorem RequestsFail.some_other {elem : Elem ι} (h : env.RequestsFail sync newMask isDelete elem) :
    ¬(env.addCores elem newMask = ∅ ∧ env.remCores sync elem newMask = ∅) :=
  not_and_or.2 h.others

theorem RequestsFail.status_ne {elem : Elem ι} (h : env.RequestsFail sync newMask isDelete elem)
    (u : Call ι) : (env.sendQgrpAddremReqs (env.addCores elem newMask)
      (env.remCores sync elem newMask) u).1 ≠ .ok := fun hok => by
  obtain ⟨_,_,_,_,hcan⟩ := env.sendQgrpAddremReqs_spec _ _ u
  exact h.fails (hcan.1 hok)

/-- The error exit of the requests, which releases the core map's lock once more. -/
theorem queueGroupModifySync_of_fails (hs : s.locked = false)
    (h : env.RequestsFail true newMask isDelete s.toElem) :
    ∃ err t, env.queueGroupModifySync newMask isDelete s = some (env.internalError err,t) ∧
      err ≠ .ok ∧ t.coreMask = newMask ∧ t.toLocks =
        { s.toLocks with
          readLocks := s.readLocks+1, readUnlocks := s.readUnlocks+2, inProgress := false } := by
  simp only [queueGroupModifySync]
  split
  · exact absurd h.mask ‹_›
  split
  · exact absurd h.state ‹_›
  split
  · exact absurd ‹_› h.mask_ne
  split
  · exact absurd ‹_› h.some_other
  split
  · rename_i hfails
    refine ⟨_,_,congrArg some (Prod.ext (if_neg (Status.ofDelete_ne_ok hfails)) rfl),
      Status.ofDelete_ne_ok hfails,?_,?_⟩
    · simp [queueGroupModifySyncError]
    · simp [queueGroupModifySyncError, hs]
  · rename_i hok
    exact absurd (not_not.1 hok) (h.status_ne _)

theorem queueGroupModify_of_fails (h : env.RequestsFail false newMask isDelete s.toElem) :
    ∃ err t, env.queueGroupModify newMask isDelete s = (env.internalError err,t) ∧
      err ≠ .ok ∧ t.coreMask = newMask := by
  simp only [queueGroupModify]
  split
  · exact absurd h.mask ‹_›
  split
  · exact absurd h.state ‹_›
  split
  · rename_i hnone
    exact absurd hnone (not_or.2 ⟨h.mask_ne,h.some_other⟩)
  split
  · rename_i hfails
    exact ⟨_,_,rfl,Status.ofDelete_ne_ok hfails,by simp⟩
  · rename_i hok
    exact absurd (not_not.1 hok) (h.status_ne _)

theorem toLocks_queueGroupModifySync {err : Status} (hs : s.locked = false)
    (hno : ¬env.RequestsFail true newMask isDelete s.toElem)
    (h : env.queueGroupModifySync newMask isDelete s = some (err,t)) :
    t.toLocks =
      { s.toLocks with
        readLocks := s.readLocks+1, readUnlocks := s.readUnlocks+1
        inProgress := decide (¬newMask ⊆ env.cores.logicMask) && s.inProgress } := by
  simp only [queueGroupModifySync] at h
  split at h
  · rename_i hmask
    obtain ⟨-,rfl⟩ := Prod.mk.inj (Option.some.inj h)
    simp [hmask]
  rename_i hmask
  split at h
  · obtain ⟨-,rfl⟩ := Prod.mk.inj (Option.some.inj h)
    simp [hs, not_not.1 hmask]
  rename_i hstate
  split at h
  · obtain ⟨-,rfl⟩ := Prod.mk.inj (Option.some.inj h)
    simp [hs, not_not.1 hmask]
  split at h
  · obtain ⟨-,rfl⟩ := Prod.mk.inj (Option.some.inj h)
    simp [hs, not_not.1 hmask]
  rename_i hothers
  split at h
  · rename_i hfails
    refine absurd ⟨not_not.1 hmask,not_not.1 hstate,?_,fun hcan => hfails ?_⟩ hno
    · rwa [not_and_or] at hothers
    · obtain ⟨_,_,_,_,hiff⟩ := env.sendQgrpAddremReqs_spec _ _ _
      exact hiff.2 hcan
  · obtain ⟨u,hpoll,hu⟩ := Option.map_eq_some_iff.1 h
    obtain ⟨-,rfl⟩ := Prod.mk.inj hu
    have hlocks := Call.toLocks_pollUntilDone hpoll (by simp)
    rw [hlocks]
    simp [hs, not_not.1 hmask]

/-- Every return releases what the call took, unless the requests of a sync call fail, or
its mask is invalid while another sync call on this core is in progress. -/
theorem locks_released_iff (env : Env ι) (sync : Bool) (newMask : Finset ι) (isDelete : Bool)
    (elem : Elem ι) (inProgress : Bool) :
    (∀ err t, env.modify sync newMask isDelete (.start elem inProgress) = some (err,t) →
      t.readUnlocks = t.readLocks ∧ t.locked = false ∧ (sync = true → t.inProgress = false)) ↔
    ¬(sync = true ∧ (env.RequestsFail sync newMask isDelete elem ∨
      (¬newMask ⊆ env.cores.logicMask ∧ inProgress = true))) := by
  have hlocked : (Call.start elem inProgress).locked = false := rfl
  cases sync with
  | false =>
    refine iff_of_true (fun err t h => ?_) nofun
    have ht : t = (env.queueGroupModify newMask isDelete (.start elem inProgress)).2 :=
      (congrArg Prod.snd (Option.some.inj h)).symm
    have hlocks : (env.queueGroupModify newMask isDelete (.start elem inProgress)).2.toLocks = _ :=
      toLocks_queueGroupModify hlocked
    rw [← ht] at hlocks
    simp [hlocks, Call.start]
  | true =>
    constructor
    · rintro h ⟨-,hfail | ⟨hmask,rfl⟩⟩
      · obtain ⟨_,t,heq,-,-,hlocks⟩ := queueGroupModifySync_of_fails hlocked hfail
        have := (h _ t heq).1
        simp [hlocks, Call.start] at this
      · have := (h _ _ (by simp only [modify, queueGroupModifySync, if_true, if_pos hmask]; rfl)).2.2 rfl
        simp [Call.start, Call.readLock, Call.readUnlock] at this
    · intro h err t heq
      have hlocks := toLocks_queueGroupModifySync hlocked (fun hf => h ⟨rfl,.inl hf⟩) heq
      have hprogress : (decide (¬newMask ⊆ env.cores.logicMask) && inProgress) = false := by
        by_contra hc
        simp at hc
        exact h ⟨rfl,.inr hc⟩
      simp [hlocks, Call.start]
      simpa using hprogress

theorem twoCores_nodup : [(0 : Fin 2),1].Nodup := by decide

theorem twoCores_complete (c : Fin 2) : c ∈ [0,1] := by
  revert c
  decide

/-- Core 0 of two; `failing` is the one callee that fails. -/
def twoCores (failing : Callee) : Env (Fin 2) where
  cores := ⟨{0,1},[0,1],twoCores_nodup,twoCores_complete⟩
  core := 0
  succeeds callee := decide (callee ≠ failing)
  internalError := id
  polls := []

def onCore0 : Elem (Fin 2) :=
  { allocated := true, ongoingDelete := false, queues := 0, coreMask := {0}, schedGroup := {0} }

/-- The add request cannot be sent: one `odp_rwlock_read_lock`, two unlocks. -/
theorem locks_released_twice :
    ((twoCores (.sendEvent .add 0)).modify true {0,1} false (.start onCore0 false)).map
      (fun r => (r.1,r.2.readLocks,r.2.readUnlocks)) = some (.operationFailed,1,2) := by decide

/-- The call returns an error of its requests. -/
theorem modify_of_fails (hs : s.locked = false)
    (h : env.RequestsFail sync newMask isDelete s.toElem) :
    ∃ err t, env.modify sync newMask isDelete s = some (env.internalError err,t) ∧
      err ≠ .ok ∧ t.coreMask = newMask := by
  cases sync with
  | false =>
    obtain ⟨err,t,heq,herr,ht⟩ := queueGroupModify_of_fails h
    exact ⟨err,t,congrArg some heq,herr,ht⟩
  | true =>
    obtain ⟨err,t,heq,herr,ht,-⟩ := queueGroupModifySync_of_fails hs h
    exact ⟨err,t,heq,herr,ht⟩

/-- Whatever request fails, the new mask stays: no failed modify is rolled back. -/
theorem failed_modify_kept_iff (env : Env ι) (sync : Bool) (newMask : Finset ι) (elem : Elem ι)
    (inProgress : Bool) :
    (∀ err t, env.modify sync newMask false (.start elem inProgress) = some (err,t) →
      env.RequestsFail sync newMask false elem →
      t.coreMask = elem.coreMask ∧ t.schedGroup = elem.schedGroup ∧ t.sent = []) ↔
    ¬env.RequestsFail sync newMask false elem := by
  constructor
  · intro h hfail
    obtain ⟨_,t,heq,-,ht⟩ := modify_of_fails (s := .start elem inProgress) rfl hfail
    exact hfail.mask_ne ((h _ t heq hfail).1.symm.trans ht)
  · intro hno _ _ _ hfail
    exact absurd hfail hno

/-- The add request cannot be sent: core 1 never joins, but the group has it in its mask. -/
theorem failed_modify_visible :
    ((twoCores (.sendEvent .add 0)).modify false {0,1} false (.start onCore0 false)).map
      (fun r => (r.1,r.2.coreMask,r.2.schedGroup)) = some (.operationFailed,{0,1},{0}) := by decide

end Env
end EmOdp.QueueGroup
