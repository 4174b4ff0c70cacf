import EmOdp.Lib.TransitionSystem
import EmOdp.LocalQueues.InOrder

/-! Dispatching what was fetched while the receive functions send, and the loop that ends when
all stashes are empty. The predicate for a run that was cut off holds at each point where a
receive function may stop to look. -/
namespace EmOdp.LocalQueues
open Lib

variable {prioNum : Nat} {w : World prioNum} {begun s : Locm prioNum}
  {hand es : List (Entry prioNum)} {qidx : BitVec 16} {fuel : Nat}

/-- Nothing was fetched since `begun`, and `hand` is still to be handled. -/
structure Handling (w : World prioNum) (begun : Locm prioNum) (hand : List (Entry prioNum))
    (s : Locm prioNum) : Prop where
  sound : Sound w s hand
  kept : Kept begun s

/-- A run that was cut off while some of the events were in hand -/
def CutOff (w : World prioNum) (begun s : Locm prioNum) : Prop := ∃ hand, Handling w begun hand s

theorem Handling.cutOff (h : Handling w begun hand s) : CutOff w begun s := ⟨hand,h⟩

theorem Handling.trans {t : Locm prioNum} (h : Handling w s hand t) (hk : Kept begun s) :
    Handling w begun hand t := ⟨h.sound,hk.trans h.kept⟩

theorem pause_sat {P Q : Locm prioNum → Prop} (hP : P s) (hQ : Q s) : (pause w s).Sat P Q := by
  rw [pause]
  split
  · exact hQ
  · exact hP

/-- The events leave the hand when the receive function is called; what it sends leaves the
rest of the hand alone. -/
theorem receive_sat (h : Handling w begun (es ++ hand) s) (hes : ∀ entry ∈ es, entry.qidx = qidx)
    (hready : (readyElem w begun.log qidx).isSome) :
    (receive w qidx es s).Sat (Handling w begun hand) (CutOff w begun) := by
  have hcall : Handling w begun hand (s.note (.dispatched qidx es)) :=
    ⟨h.sound.handle ⟨hes,begun.log,h.kept.later,h.kept.takenEq.symm,hready⟩ (by simp) (by simp)
      (by simp),h.kept.snoc rfl rfl (by simp)⟩
  refine (pause_sat (P := Handling w begun hand) hcall hcall.cutOff).bind fun t ht => ?_
  refine BoundedRun.Sat.foldlM (fun _ => Handling w begun hand) (fun req _ u hu => ?_) ht
  have hsent : Handling w begun hand (req.run w u) := ⟨req.run_sound hu.sound,req.run_kept hu.kept⟩
  exact pause_sat hsent hsent.cutOff

section Runs
variable (hes : ∀ entry ∈ es, entry.qidx = qidx) (hready : (readyElem w begun.log qidx).isSome)
include hes hready

theorem dispatchEoRcvBurst_sat (h : Handling w begun (es ++ hand) s) :
    (dispatchEoRcvBurst w qidx es s).Sat (Handling w begun hand) (CutOff w begun) := by
  refine (BoundedRun.Sat.foldlM (fun l t => (∀ entry ∈ l, entry.qidx = qidx) ∧
    Handling w begun (l ++ hand) t) (fun entry l t ht => ?_) ⟨hes,h⟩).mono (fun t ht => ht.2)
    fun t ht => ht
  obtain ⟨hq,hrest⟩ := List.forall_mem_cons.1 ht.1
  have hone : Handling w begun ([entry] ++ (l ++ hand)) t := ht.2
  exact (receive_sat hone (by simpa using hq) hready).mono (fun u hu => ⟨hrest,hu⟩) fun u hu => hu

theorem dispatchEoMultircvBurst_sat (q : QElem prioNum) (h : Handling w begun (es ++ hand) s) :
    (dispatchEoMultircvBurst w fuel q qidx es s).Sat (Handling w begun hand) (CutOff w begun) := by
  have hcall (j num : Nat) (t : Locm prioNum) (_ : j+num ≤ es.length)
      (ht : Handling w begun (es.drop j ++ hand) t) :
      (receive w qidx ((es.drop j).take num) t).Sat
        (Handling w begun (es.drop (j+num) ++ hand)) (CutOff w begun) := by
    refine receive_sat ?_ (fun entry he => ?_) hready
    · rwa [← List.append_assoc, ← List.drop_drop, List.take_append_drop]
    · exact hes entry (List.mem_of_mem_drop (List.mem_of_mem_take he))
  refine (Dispatch.Multircv.egrpLoop_sat (I := fun j => Handling w begun (es.drop j ++ hand))
    (fun j t ht => ht.cutOff) hcall hcall (List.length_map _) (Nat.zero_le _) h).mono
    (fun t ht => ?_) fun t ht => ht
  rwa [List.drop_length, List.nil_append] at ht

end Runs

/-- What a run of events does is told from its own start on. -/
theorem Handling.restart {r : BoundedRun (Locm prioNum) (Locm prioNum)}
    (hr : r.Sat (Handling w s hand) (CutOff w s)) (hk : Kept begun s) :
    r.Sat (Handling w begun hand) (CutOff w begun) :=
  hr.mono (fun _ ht => ht.trans hk) fun _ ⟨_,ht⟩ => (ht.trans hk).cutOff

theorem Handling.free (h : Handling w begun (es ++ hand) s) (hes : ∀ entry ∈ es, entry.qidx = qidx)
    (hq : readyElem w s.log qidx = none) : Handling w begun hand (s.note (.freed qidx es)) :=
  ⟨h.sound.handle ⟨hes,hq⟩ (by simp) (by simp) (by simp),h.kept.snoc rfl rfl (by simp)⟩

theorem dispatchLocalSingle_sat {entry : Entry prioNum}
    (h : Handling w begun (entry :: hand) s) :
    (dispatchLocalSingle w entry s).Sat (Handling w begun hand) (CutOff w begun) := by
  have hes : ∀ e ∈ [entry], e.qidx = entry.qidx := by simp
  rw [dispatchLocalSingle]
  cases hq : readyElem w s.log entry.qidx with
  | none =>
    have hone : Handling w begun ([entry] ++ hand) s := h
    exact hone.free hes hq
  | some q =>
    have hnow : Handling w s ([entry] ++ hand) s := ⟨h.sound,.refl s⟩
    exact Handling.restart (receive_sat hnow hes (by rw [hq]; rfl)) h.kept

theorem dispatchLocalRun_sat {entry : Entry prioNum} {rest : List (Entry prioNum)}
    (hrun : ∀ e ∈ rest, e.qidx = entry.qidx) (h : Handling w begun (entry :: rest ++ hand) s) :
    (dispatchLocalRun w fuel (entry :: rest) s).Sat (Handling w begun hand) (CutOff w begun) := by
  have hes : ∀ e ∈ entry :: rest, e.qidx = entry.qidx := List.forall_mem_cons.2 ⟨rfl,hrun⟩
  rw [dispatchLocalRun]
  cases hq : readyElem w s.log entry.qidx with
  | none => exact h.free hes hq
  | some q =>
    have hready : (readyElem w s.log entry.qidx).isSome := by rw [hq]; rfl
    have hnow : Handling w s (entry :: rest ++ hand) s := ⟨h.sound,.refl s⟩
    simp only
    split
    · exact Handling.restart (dispatchEoMultircvBurst_sat hes hready q hnow) h.kept
    · exact Handling.restart (dispatchEoRcvBurst_sat hes hready hnow) h.kept

theorem dispatchLocalBurst_sat (h : Handling w begun (es ++ hand) s) :
    (dispatchLocalBurst w fuel es s).Sat (Handling w begun hand) (CutOff w begun) := by
  let same (e e' : Entry prioNum) : Bool := e'.qidx = e.qidx
  have hstart : Handling w begun ((segments same es 0).flatten ++ hand) s := by
    rwa [segments_flatten, List.drop_zero]
  rw [dispatchLocalBurst, forSegments_eq]
  refine (BoundedRun.Sat.foldlM (fun l t => (∀ run ∈ l, run ∈ segments same es 0) ∧
    Handling w begun (l.flatten ++ hand) t) (fun run l t ht => ?_) ⟨fun _ hrun => hrun,hstart⟩).mono
    (fun t ht => ht.2) fun t ht => ht
  obtain ⟨hrun,hrest⟩ := List.forall_mem_cons.1 ht.1
  obtain ⟨entry,rest,rfl,hsame⟩ := same_of_mem_segments hrun
  have hin : Handling w begun (entry :: rest ++ (l.flatten ++ hand)) t := by
    rw [← List.append_assoc, ← List.flatten_cons]
    exact ht.2
  exact (dispatchLocalRun_sat (fun e he => of_decide_eq_true (hsame e he)) hin).mono
    (fun u hu => ⟨hrest,hu⟩) fun u hu => hu

theorem dispatchLocalQueues_sat (h : Handling w begun (es ++ hand) s) :
    (dispatchLocalQueues w fuel es s).Sat (Handling w begun hand) (CutOff w begun) := by
  unfold dispatchLocalQueues
  split
  · exact dispatchLocalSingle_sat h
  · exact dispatchLocalBurst_sat h

/-- The local queues are left empty, with nothing in hand. -/
structure Drained (w : World prioNum) (begun s : Locm prioNum) : Prop where
  sound : Sound w s []
  drained : ∀ prio, s.stash prio = []
  grown : Grown begun s

/-- A run that was cut off in the middle of draining -/
def Draining (w : World prioNum) (begun s : Locm prioNum) : Prop :=
  ∃ hand, Sound w s hand ∧ Grown begun s

theorem burst_pos (w : World prioNum) : 0 < (w.emQueueLocalMultiMaxBurst : Nat) :=
  w.emQueueLocalMultiMaxBurst.2

theorem checkLoop_sat (k : Nat) (h : Sound w s []) (hg : Grown begun s) :
    (checkLoop w fuel k s).Sat (Drained w begun) (Draining w begun) := by
  induction k generalizing s with
  | zero => exact ⟨[],h,hg⟩
  | succ k ih =>
    have hfetch := nextLocalQueueEvents_fetched (burst_pos w) h
    rw [checkLoop]
    generalize nextLocalQueueEvents w w.emQueueLocalMultiMaxBurst s = fetch at *
    obtain ⟨_ | ⟨entry,rest⟩,t⟩ := fetch
    · refine ⟨hfetch.sound,hfetch.drained rfl,hg.trans ⟨[],hfetch.takenEq,?_⟩⟩
      rw [hfetch.cnt]
      simp
    · let t' : Locm prioNum :=
        { t with localEventCnt := t.localEventCnt + BitVec.ofNat 64 (rest.length+1) }
      have ht' : Sound w t' (entry :: rest) :=
        ⟨hfetch.sound.empty,hfetch.sound.emptyPrio,hfetch.sound.inOrder,hfetch.sound.once,
          hfetch.sound.rightly⟩
      have hg' : Grown begun t' := hg.trans ⟨entry :: rest,hfetch.takenEq,by
        show t.localEventCnt + _ = _
        rw [hfetch.cnt, List.length_cons]⟩
      have hhand : Handling w t' (entry :: rest ++ []) t' := by
        rw [List.append_nil]
        exact ⟨ht',.refl t'⟩
      have hall : (dispatchLocalQueues w fuel (entry :: rest) t').Sat (Handling w t' [])
          (Draining w begun) :=
        (dispatchLocalQueues_sat hhand).mono (fun _ hu => hu) fun u ⟨hand,hu⟩ =>
          ⟨hand,hu.sound,hg'.trans hu.kept.grown⟩
      exact hall.bind fun u hu => ih hu.sound (hg'.trans hu.kept.grown)

theorem checkLocalQueues_sat (h : Sound w s []) :
    (checkLocalQueues w fuel s).Sat (Drained w s) (Draining w s) := by
  rw [checkLocalQueues]
  by_cases he : s.empty
  · rw [if_pos he]
    exact ⟨h,h.empty he,.refl s⟩
  · rw [if_neg he]
    exact checkLoop_sat fuel h (.refl s)

/-- At the end of the core the local queues are flushed. -/
theorem queueTermLocal_sat (k : Nat) (h : Sound w s []) :
    (queueTermLocal w k s).Sat (fun t => Sound w t [] ∧ ∀ prio, t.stash prio = [])
      fun t => Sound w t [] := by
  induction k generalizing s with
  | zero => exact h
  | succ k ih =>
    have hfetch := nextLocalQueueEvents_fetched (burst_pos w) h
    rw [queueTermLocal]
    generalize nextLocalQueueEvents w w.emQueueLocalMultiMaxBurst s = fetch at *
    obtain ⟨_ | ⟨entry,rest⟩,t⟩ := fetch
    · exact ⟨hfetch.sound,hfetch.drained rfl⟩
    · have hhand : Sound w t (entry :: rest ++ []) := by
        rw [List.append_nil]
        exact hfetch.sound
      exact ih (hhand.handle trivial (by simp) (by simp) (by simp))

theorem Op.run_sat (op : Op) (h : Sound w s []) :
    (op.run w fuel s).Sat (Sound w · []) (∃ hand, Sound w · hand) := by
  cases op with
  | send req => exact req.run_sound h
  | next numEvents =>
    have hpos : 0 < (numEvents : Nat) := numEvents.2
    have hfetch := nextLocalQueueEvents_fetched (w := w) hpos h
    show Sound w ((nextLocalQueueEvents w numEvents s).2.note
      (.returned (nextLocalQueueEvents w numEvents s).1)) []
    generalize nextLocalQueueEvents w numEvents s = fetch at *
    have hhand : Sound w fetch.2 (fetch.1 ++ []) := by
      rw [List.append_nil]
      exact hfetch.sound
    exact hhand.handle trivial (by simp) (by simp) (by simp)
  | check =>
    exact (checkLocalQueues_sat h).mono (fun t ht => ht.sound) fun t ⟨hand,ht,_⟩ => ⟨hand,ht⟩

theorem runOps_sat (ops : List Op) (h : Sound w s []) :
    (runOps w fuel ops s).Sat (Sound w · []) (∃ hand, Sound w · hand) :=
  BoundedRun.Sat.foldlM (fun _ t => Sound w t []) (fun op _ _ ht => op.run_sat ht) h

/-- Queue 1 has the higher priority and its receive function sends once to queue 0. -/
private def echoWorld : World 2 where
  emCheckLevel := 1
  emQueueLocalMultiMaxBurst := ⟨2,by decide⟩
  maxQueueNum := 2
  queueElem _ qidx := ⟨⟨false,1,true⟩,if qidx = 1 then 1 else 0⟩
  evHdr _ _ := ⟨0,0⟩
  room _ _ := 8
  ready _ := 8
  sends log := if log.length = 4 then [.one 9 0] else []
  cut _ := false

example : (runOps echoWorld 8 [.send (.multi [5,6,7] 0),.send (.one 8 1),.check]
    queueInitLocal).state.log.drop 2 =
      [.fetched 1 [⟨1,8,1⟩],.dispatched 1 [⟨1,8,1⟩],.stashed [⟨0,9,0⟩],
        .fetched 0 [⟨0,5,0⟩,⟨0,6,0⟩],.dispatched 0 [⟨0,5,0⟩],.dispatched 0 [⟨0,6,0⟩],
        .fetched 0 [⟨0,7,0⟩,⟨0,9,0⟩],.dispatched 0 [⟨0,7,0⟩],.dispatched 0 [⟨0,9,0⟩]] := by
  decide

end EmOdp.LocalQueues
