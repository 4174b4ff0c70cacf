import EmOdp.Dispatch.Multircv

/-! The runs of equal queue indexes in a burst to local queues, and how bursts are partitioned
into multi-receive calls. -/
namespace EmOdp.Dispatch.Multircv
open Lib

/-- Where the events of one queue go -/
inductive Dest where
  | emFreeMulti
  | rcvBurst
  | multircvBurst (acts : List Act)
  deriving DecidableEq, Repr

/-- What is done with `num` entries from index `first` on -/
structure LocalAct where
  first : Nat
  num : Nat
  dest : Dest
  deriving DecidableEq, Repr

section Model
-- the queue element of a queue index, after what has been done
variable (queueElem : List LocalAct → Nat → QElem) (callbacksRegistered : Bool) (fuel : Nat)

/-- The `num` events of one queue -/
def dispatchLocalRun (q : QElem) (evHdrTbl : List EventHdr) (first num : Nat)
    (acts : List LocalAct) : BoundedRun (List LocalAct) (List LocalAct) :=
  if !q.ready then .ok (acts ++ [⟨first,num,.emFreeMulti⟩])
  else if q.useMultiRcv then
    match dispatchEoMultircvBurst callbacksRegistered false q evHdrTbl fuel with
    | .ok calls => .ok (acts ++ [⟨first,num,.multircvBurst calls⟩])
    | .error calls => .error (acts ++ [⟨first,num,.multircvBurst calls⟩])
  else .ok (acts ++ [⟨first,num,.rcvBurst⟩])

def localLoop (entryTbl : List StashEntry) : Nat → Nat → List LocalAct →
    BoundedRun (List LocalAct) (List LocalAct)
  | 0, _, acts => .error acts
  | k+1, idx, acts =>
    match entryTbl.drop idx with
    | [] => .ok acts
    | entry :: rest => do
      let evCnt := 1 + (rest.takeWhile fun e => e.qidx = entry.qidx).length
      let evHdrTbl := ((entryTbl.drop idx).take evCnt).map (·.hdr)
      let acts ← dispatchLocalRun callbacksRegistered fuel (queueElem acts entry.qidx) evHdrTbl idx
        evCnt acts
      if idx+evCnt < entryTbl.length then localLoop entryTbl k (idx+evCnt) acts else .ok acts

/-- `dispatch_local_burst` -/
def dispatchLocalBurst (entryTbl : List StashEntry) : BoundedRun (List LocalAct) (List LocalAct) :=
  localLoop queueElem callbacksRegistered fuel entryTbl fuel 0 []

end Model

section Runs
variable {Event : Type} {queueElem : List LocalAct → Nat → QElem} {callbacksRegistered : Bool}
  {fuel : Nat} {tbl : List (Event × StashEntry)}

def SameQueue (entries : List (Event × StashEntry)) : Prop :=
  ∀ a ∈ entries, ∀ b ∈ entries, a.2.qidx = b.2.qidx

def LocalAct.entries (tbl : List (Event × StashEntry)) (act : LocalAct) :
    List (Event × StashEntry) :=
  (tbl.drop act.first).take act.num

/-- A queue that is ready and has a multi-receive function gets its events as one burst. -/
structure HandedOn (queueElem : List LocalAct → Nat → QElem) (callbacksRegistered : Bool)
    (fuel : Nat) (tbl : List (Event × StashEntry)) (before : List LocalAct) (act : LocalAct) :
    Prop where
  inside : (act.entries tbl).length = act.num
  burst : ∀ entry ∈ act.entries tbl, (queueElem before entry.2.qidx).ready →
    (queueElem before entry.2.qidx).useMultiRcv → ∃ acts, act.dest = .multircvBurst acts ∧
      dispatchEoMultircvBurst callbacksRegistered false (queueElem before entry.2.qidx)
        ((act.entries tbl).map (·.2.hdr)) fuel = .ok acts

theorem sameQueue_equivalence :
    Equivalence fun a b : Event × StashEntry => decide (b.2.qidx = a.2.qidx) = true := by
  simp only [decide_eq_true_eq]
  exact ⟨fun _ => rfl,fun h => h.symm,fun h h' => h'.trans h⟩

theorem dispatchLocalRun_ok {q : QElem} {evHdrTbl : List EventHdr} (hne : evHdrTbl ≠ [])
    (hmax : 0 < q.maxEvents.toNat) (hfuel : evHdrTbl.length < fuel) (first num : Nat)
    (before : List LocalAct) :
    ∃ dest, dispatchLocalRun callbacksRegistered fuel q evHdrTbl first num before =
        .ok (before ++ [⟨first,num,dest⟩]) ∧
      (q.ready → q.useMultiRcv → ∃ acts, dest = .multircvBurst acts ∧
        dispatchEoMultircvBurst callbacksRegistered false q evHdrTbl fuel = .ok acts) := by
  rw [dispatchLocalRun]
  cases hr : q.ready with
  | false => exact ⟨.emFreeMulti,rfl,fun h => absurd h Bool.false_ne_true⟩
  | true =>
    cases hm : q.useMultiRcv with
    | false => exact ⟨.rcvBurst,rfl,fun _ h => absurd h Bool.false_ne_true⟩
    | true =>
      have hmap : (evHdrTbl.map fun hdr => ((),hdr)).map Prod.snd = evHdrTbl := by
        rw [List.map_map]
        exact List.map_id _
      obtain ⟨bs,hrun,-,-⟩ := @dispatchEoMultircvBurst_ok Unit q
        (evHdrTbl.map fun hdr => ((),hdr)) fuel (by simpa using hne) hmax (by simpa using hfuel)
      rw [hmap] at hrun
      refine ⟨.multircvBurst _,?_,fun _ _ => ⟨_,rfl,hrun callbacksRegistered false⟩⟩
      simp only [hrun]
      rfl

theorem localLoop_ok (hmax : ∀ acts qidx, 0 < (queueElem acts qidx).maxEvents.toNat)
    {k idx : Nat} (hidx : idx < tbl.length) (hk : tbl.length ≤ idx+k) (hfuel : tbl.length < fuel)
    (before : List LocalAct) :
    ∃ added, localLoop queueElem callbacksRegistered fuel (tbl.map Prod.snd) k idx before =
        .ok (before ++ added) ∧
      Greedy SameQueue (added.map (·.entries tbl)) (tbl.drop idx) ∧
      ∀ pre act post, added = pre ++ act :: post →
        HandedOn queueElem callbacksRegistered fuel tbl (before ++ pre) act := by
  induction k generalizing idx before with
  | zero => omega
  | succ k ih =>
    obtain ⟨a,l,g,rest,hl,hg,htbl,hrun,hdrop,hlen⟩ := exists_run sameQueue_equivalence hidx
    simp only [decide_eq_true_eq] at hrun
    have hpos : 0 < g.length := by rw [hg]; exact Nat.succ_pos _
    have hcnt : 1 + ((l.map Prod.snd).takeWhile fun e => decide (e.qidx = a.2.qidx)).length =
        g.length := by
      rw [hg, List.takeWhile_map, List.length_map, List.length_cons, Nat.add_comm]
      rfl
    have hhdr : (((tbl.map Prod.snd).drop idx).take g.length).map (·.hdr) = g.map (·.2.hdr) := by
      rw [← List.map_drop, htbl, List.map_append, List.take_left' (List.length_map _), List.map_map]
      rfl
    have hentries (dest : Dest) : LocalAct.entries tbl ⟨idx,g.length,dest⟩ = g := by
      rw [LocalAct.entries, htbl, List.take_left]
    have hhdrs : g.map (·.2.hdr) ≠ [] :=
      List.ne_nil_of_length_pos (by rw [List.length_map]; exact hpos)
    have hgf : (g.map (·.2.hdr)).length < fuel := by rw [List.length_map]; omega
    obtain ⟨dest,hok,hdest⟩ := @dispatchLocalRun_ok callbacksRegistered fuel _ _ hhdrs
      (hmax before a.2.qidx) hgf idx g.length before
    have hhanded : HandedOn queueElem callbacksRegistered fuel tbl before ⟨idx,g.length,dest⟩ := by
      refine ⟨congrArg List.length (hentries dest),?_⟩
      rw [hentries]
      intro entry he
      rw [hrun.related a (by rw [hg]; exact List.mem_cons_self) entry he]
      exact hdest
    simp only [localLoop, ← List.map_drop, hl, List.map_cons, hcnt, List.length_map]
    rw [← List.map_cons, ← hl, List.map_drop, hhdr, hok]
    have hfirst {rest' : List (Event × StashEntry)} {parts : List (List (Event × StashEntry))}
        (hparts : Greedy SameQueue parts rest') (hr : rest' = rest) :
        Greedy SameQueue (g :: parts) (tbl.drop idx) := by
      subst hr
      refine ⟨fun a ha b hb => (hrun.related a ha b hb).symm,List.ne_nil_of_length_pos hpos,?_,_,
        htbl,hparts⟩
      intro p hp hpre
      rw [htbl] at hpre
      exact hrun.prefix_length_le (List.ne_nil_of_length_pos hpos)
        (fun a ha b hb => (hp a ha b hb).symm) hpre
    by_cases hlt : idx+g.length < tbl.length
    · obtain ⟨added,hadd,hcut,hall⟩ := ih hlt (by omega) (before ++ [⟨idx,g.length,dest⟩])
      refine ⟨⟨idx,g.length,dest⟩ :: added,?_,?_,fun pre act post he => ?_⟩
      · rw [List.append_assoc] at hadd
        simp only [bind, Except.bind, if_pos hlt]
        exact hadd
      · rw [List.map_cons, hentries]
        exact hfirst hcut hdrop
      · cases pre with
        | nil =>
          obtain ⟨rfl,-⟩ := List.cons.inj he
          rwa [List.append_nil]
        | cons act' pre =>
          obtain ⟨rfl,he'⟩ := List.cons.inj he
          have h := hall pre act post he'
          rwa [List.append_assoc] at h
    · have hnil : rest = [] := List.eq_nil_of_length_eq_zero (by omega)
      refine ⟨[⟨idx,g.length,dest⟩],?_,?_,fun pre act post he => ?_⟩
      · simp only [bind, Except.bind, if_neg hlt]
      · rw [List.map_cons, hentries]
        exact hfirst (show Greedy SameQueue [] [] from rfl) hnil.symm
      · obtain ⟨rfl,rfl,-⟩ : pre = [] ∧ act = ⟨idx,g.length,dest⟩ ∧ post = [] := by
          cases pre with
          | nil => simpa [eq_comm] using he
          | cons _ pre => simp at he
        rwa [List.append_nil]

end Runs

/-- The calls, each given by its first index and number of events, get the whole burst in its
order, and no calls that keep the rules could be fewer. -/
structure Partition {Event : Type} (maxEvents : Nat) (tbl : List (Event × EventHdr))
    (calls : List (Nat × Nat)) : Prop where
  whole : (calls.map fun c => (tbl.drop c.1).take c.2).flatten = tbl
  inside : ∀ c ∈ calls, 0 < c.2 ∧ c.1+c.2 ≤ tbl.length
  oneCall : ∀ c ∈ calls, OneCall maxEvents ((tbl.drop c.1).take c.2)
  fewest : ∀ parts, IsCut (OneCall maxEvents) parts tbl → calls.length ≤ parts.length

theorem partition_of_greedy {Event : Type} {max : Nat} {tbl : List (Event × EventHdr)}
    {bs : List Batch} (hin : ∀ b ∈ bs, (b.events tbl).length = b.num)
    (h : Greedy (OneCall max) (bs.map (·.events tbl)) tbl) :
    Partition max tbl (bs.map fun b => (b.first,b.num)) := by
  obtain ⟨hflat,hone⟩ := h.isCut
  refine ⟨?_,fun c hc => ?_,fun c hc => ?_,fun parts hparts => ?_⟩
  · rw [List.map_map]
    exact hflat
  · obtain ⟨b,hb,rfl⟩ := List.mem_map.1 hc
    have hne := List.length_pos_of_ne_nil (h.ne_nil _ (List.mem_map_of_mem hb))
    have hlen := hin b hb
    rw [Batch.events, List.length_take, List.length_drop] at hlen hne
    exact ⟨by omega,by omega⟩
  · obtain ⟨b,hb,rfl⟩ := List.mem_map.1 hc
    exact hone _ (List.mem_map_of_mem hb)
  · have hle := h.length_le OneCall.suffix hparts
    rwa [List.length_map] at hle ⊢

theorem bursts_partitioned {Event : Type} :
    (∀ (q : QElem) (tbl : List (Event × EventHdr)) (fuel : Nat), tbl ≠ [] →
      0 < q.maxEvents.toNat → tbl.length < fuel →
      ∃ calls, Partition q.maxEvents.toNat tbl calls ∧ ∀ callbacksRegistered checkLocalQs,
        ∃ acts, dispatchEoMultircvBurst callbacksRegistered checkLocalQs q (tbl.map Prod.snd) fuel =
            .ok acts ∧
          acts.filterMap Act.rcvCall? = calls.map fun c => (!callbacksRegistered,c)) ∧
    (∀ (queueElem : List LocalAct → Nat → QElem) (callbacksRegistered : Bool)
      (tbl : List (Event × StashEntry)) (fuel : Nat), tbl ≠ [] →
      (∀ acts qidx, 0 < (queueElem acts qidx).maxEvents.toNat) → tbl.length < fuel →
      ∃ acts, dispatchLocalBurst queueElem callbacksRegistered fuel (tbl.map Prod.snd) = .ok acts ∧
        Greedy SameQueue (acts.map (·.entries tbl)) tbl ∧
        ∀ pre act post, acts = pre ++ act :: post →
          HandedOn queueElem callbacksRegistered fuel tbl pre act) := by
  constructor
  · intro q tbl fuel hne hmax hfuel
    obtain ⟨bs,hrun,hin,hcut⟩ := dispatchEoMultircvBurst_ok hne hmax hfuel
    refine ⟨_,partition_of_greedy hin hcut,fun cb chk => ⟨_,hrun cb chk,?_⟩⟩
    rw [rcvCalls_acts, List.map_map]
    rfl
  · intro queueElem cb tbl fuel hne hmax hfuel
    exact localLoop_ok hmax (List.length_pos_of_ne_nil hne) (by omega) hfuel []

private def groupsTbl : List (Nat × EventHdr) :=
  [(10,⟨1,0⟩),(11,⟨1,0⟩),(12,⟨1,0⟩),(13,⟨1,1⟩)]

private def queuesTbl : List (Nat × StashEntry) :=
  [(10,⟨3,⟨0,0⟩⟩),(11,⟨3,⟨0,0⟩⟩),(12,⟨4,⟨0,0⟩⟩)]

theorem bursts_partitioned_four :
    (∃ calls, Partition 2 groupsTbl calls ∧ ∀ callbacksRegistered checkLocalQs, ∃ acts,
      dispatchEoMultircvBurst callbacksRegistered checkLocalQs ⟨true,2,true⟩
          (groupsTbl.map Prod.snd) 5 = .ok acts ∧
        acts.filterMap Act.rcvCall? = calls.map fun c => (!callbacksRegistered,c)) ∧
    ∃ acts, dispatchLocalBurst (fun _ _ => ⟨true,2,true⟩) false 4 (queuesTbl.map Prod.snd) =
        .ok acts ∧
      Greedy SameQueue (acts.map (·.entries queuesTbl)) queuesTbl ∧
      ∀ pre act post, acts = pre ++ act :: post →
        HandedOn (fun _ _ => ⟨true,2,true⟩) false 4 queuesTbl pre act :=
  ⟨bursts_partitioned.1 ⟨true,2,true⟩ groupsTbl 5 (by decide) (by decide) (by decide),
    bursts_partitioned.2 (fun _ _ => ⟨true,2,true⟩) false queuesTbl 4 (by decide)
      (fun _ _ => by decide) (by decide)⟩

example : dispatchEoMultircvBurst false true ⟨true,2,true⟩ (groupsTbl.map Prod.snd) 5 =
    .ok [.eventBurstCntSub 2,.callEoMultircvFn true 0 2,.checkLocalQueues,.eventBurstCntZero,
      .callEoMultircvFn true 2 1,.checkLocalQueues,.eventBurstCntSub 1,.callEoMultircvFn true 3 1,
      .checkLocalQueues] := by decide

end EmOdp.Dispatch.Multircv
