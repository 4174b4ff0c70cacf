import EmOdp.Dispatch.Burst
import EmOdp.Lib.Greedy

/-! The multi-receive calls for one burst, with the indexes into the event table that the code
keeps. The loops are cut off after `fuel` iterations. -/
namespace EmOdp.Dispatch.Multircv
open Lib

/-- `count_same_evgroup` -/
def countSameEvgroup (evHdrTbl : List EventHdr) : Nat :=
  match evHdrTbl with
  | [] => 0
  | first :: rest => 1 + (rest.takeWhile (sameEvgroup first)).length

section Loops
variable {S : Type} (full trailing : Nat → Nat → S → BoundedRun S S)

/-- The batches from index `j` up to `egrp_end` -/
def egrpBatches (egrpEnd num : Nat) : Nat → Nat → S → BoundedRun S S
  | 0, _, s => .error s
  | fuel+1, j, s =>
    if num ≤ egrpEnd-j then do
      let s ← full j num s
      egrpBatches egrpEnd num fuel (j+num) s
    else if j < egrpEnd then trailing j (egrpEnd-j) s
    else .ok s

/-- The event groups of the burst from index `idx` on -/
def egrpLoop (evHdrTbl : List EventHdr) (maxEvents fuel : Nat) : Nat → Nat → S → BoundedRun S S
  | 0, _, s => .error s
  | k+1, idx, s => do
    let egrpCnt := countSameEvgroup (evHdrTbl.drop idx)
    let egrpEnd := min (idx+egrpCnt) evHdrTbl.length
    let num := min egrpCnt maxEvents
    let s ← egrpBatches full trailing egrpEnd num fuel idx s
    if egrpEnd < evHdrTbl.length then egrpLoop evHdrTbl maxEvents fuel k egrpEnd s else .ok s

variable {full trailing} {I : Nat → S → Prop} {Q : S → Prop} {len : Nat}

/-- An invariant indexed by the events that were passed on -/
theorem egrpBatches_sat (hcut : ∀ j s, I j s → Q s)
    (hfull : ∀ j num s, j+num ≤ len → I j s → (full j num s).Sat (I (j+num)) Q)
    (htrailing : ∀ j num s, j+num ≤ len → I j s → (trailing j num s).Sat (I (j+num)) Q)
    {egrpEnd num fuel j : Nat} {s : S} (hend : egrpEnd ≤ len) (hj : j ≤ egrpEnd) (h : I j s) :
    (egrpBatches full trailing egrpEnd num fuel j s).Sat (I egrpEnd) Q := by
  induction fuel generalizing j s with
  | zero => exact hcut j s h
  | succ fuel ih =>
    rw [egrpBatches]
    by_cases hnum : num ≤ egrpEnd-j
    · rw [if_pos hnum]
      exact (hfull j num s (by omega) h).bind fun t ht => ih (by omega) ht
    · rw [if_neg hnum]
      by_cases hlt : j < egrpEnd
      · rw [if_pos hlt]
        have hlast := htrailing j (egrpEnd-j) s (by omega) h
        rwa [Nat.add_sub_cancel' hj] at hlast
      · rw [if_neg hlt]
        obtain rfl : j = egrpEnd := by omega
        exact h

theorem egrpLoop_sat (hcut : ∀ j s, I j s → Q s)
    (hfull : ∀ j num s, j+num ≤ len → I j s → (full j num s).Sat (I (j+num)) Q)
    (htrailing : ∀ j num s, j+num ≤ len → I j s → (trailing j num s).Sat (I (j+num)) Q)
    {evHdrTbl : List EventHdr} (hlen : evHdrTbl.length = len) {maxEvents fuel k idx : Nat} {s : S}
    (hidx : idx ≤ len) (h : I idx s) :
    (egrpLoop full trailing evHdrTbl maxEvents fuel k idx s).Sat (I len) Q := by
  induction k generalizing idx s with
  | zero => exact hcut idx s h
  | succ k ih =>
    rw [egrpLoop, hlen]
    refine (egrpBatches_sat hcut hfull htrailing (Nat.min_le_right _ _) (by omega) h).bind
      fun t ht => ?_
    by_cases hlt : min (idx + countSameEvgroup (evHdrTbl.drop idx)) len < len
    · simp only [if_pos hlt]
      exact ih (by omega) ht
    · simp only [if_neg hlt]
      have hend : min (idx + countSameEvgroup (evHdrTbl.drop idx)) len = len := by omega
      rw [hend] at ht
      exact ht

end Loops

/-- What a burst does: a call gets the `num` events from index `first` on. -/
inductive Act where
  | eventBurstCntSub (num : Nat)
  | eventBurstCntZero
  | callEoMultircvFn (noCb : Bool) (first num : Nat)
  | checkLocalQueues
  deriving DecidableEq, Repr

section Copies
variable (callbacksRegistered checkLocalQs : Bool)

/-- The receive call of one batch, with what goes with it when `check_local_qs` is set -/
def batchActs (cnt : Act) (first num : Nat) : List Act :=
  let call := .callEoMultircvFn (!callbacksRegistered) first num
  if checkLocalQs then [cnt,call,.checkLocalQueues] else [call]

/-- `dispatch_eo_multircv_burst` -/
def dispatchEoMultircvBurst (q : QElem) (evHdrTbl : List EventHdr) (fuel : Nat) :
    BoundedRun (List Act) (List Act) :=
  egrpLoop
    (fun j num acts =>
      .ok (acts ++ batchActs callbacksRegistered checkLocalQs (.eventBurstCntSub num) j num))
    (fun j num acts =>
      .ok (acts ++ batchActs callbacksRegistered checkLocalQs .eventBurstCntZero j num))
    evHdrTbl q.maxEvents.toNat fuel fuel 0 []

end Copies

theorem egrpBatches_eq {b : Branch} {egrpEnd num fuel j rest : Nat} {s : Locm}
    (h : egrpEnd = j+rest) : egrpBatches (fun _ => b.full) (fun _ => b.trailing) egrpEnd num fuel j s =
      dispatchEvgroup b num fuel rest s := by
  induction fuel generalizing j rest s with
  | zero => rfl
  | succ fuel ih =>
    have hsub : egrpEnd-j = rest := by omega
    have hlt : j < egrpEnd ↔ 0 < rest := by omega
    simp only [egrpBatches, dispatchEvgroup, hsub, hlt]
    by_cases hn : num ≤ rest
    · simp only [if_pos hn]
      exact congrArg _ (funext fun t => ih (by omega))
    · simp only [if_neg hn]

/-- The loop over segments is the one with indexes. -/
theorem dispatchEoMultircvBurst_eq {b : Branch} {fuel k idx : Nat} {q : QElem}
    {evHdrTbl : List EventHdr} {s : Locm} (hidx : idx < evHdrTbl.length)
    (hk : evHdrTbl.length ≤ idx+k) :
    egrpLoop (fun _ => b.full) (fun _ => b.trailing) evHdrTbl q.maxEvents.toNat fuel k idx s =
      Dispatch.dispatchEoMultircvBurst b fuel q (evHdrTbl.drop idx) s := by
  induction k generalizing idx s with
  | zero => omega
  | succ k ih =>
    obtain ⟨first,rest,hl⟩ := List.exists_cons_of_ne_nil
      (List.ne_nil_of_length_pos (l := evHdrTbl.drop idx) (by simp only [List.length_drop]; omega))
    have hpre : (rest.takeWhile (sameEvgroup first)).length ≤ rest.length :=
      (List.takeWhile_prefix _).length_le
    have hlen := congrArg List.length hl
    simp only [List.length_drop, List.length_cons] at hlen
    simp only [egrpLoop, Dispatch.dispatchEoMultircvBurst, hl, countSameEvgroup, forSegments,
      List.length_cons]
    generalize hc : (rest.takeWhile (sameEvgroup first)).length = c at *
    have hend : min (idx+(1+c)) evHdrTbl.length = idx+(c+1) := by omega
    rw [hend, egrpBatches_eq rfl, Nat.add_comm 1 c]
    refine congrArg _ (funext fun t => ?_)
    rw [forSegments_drop]
    by_cases hlt : idx+(c+1) < evHdrTbl.length
    · rw [if_pos hlt, ih hlt (by omega), ← List.drop_drop, hl]
      rfl
    · rw [if_neg hlt, List.drop_of_length_le (by omega)]
      rfl

section Cut
variable {Event : Type}

/-- One event group and, if it is defined, one generation of it -/
def Same (a b : Event × EventHdr) : Prop :=
  a.2.egrp = b.2.egrp ∧ (a.2.egrp ≠ emEventGroupUndef → a.2.egrpGen = b.2.egrpGen)

def SameGroup (events : List (Event × EventHdr)) : Prop := ∀ a ∈ events, ∀ b ∈ events, Same a b

/-- What one receive call may get -/
structure OneCall (maxEvents : Nat) (events : List (Event × EventHdr)) : Prop where
  sameGroup : SameGroup events
  max : events.length ≤ maxEvents

variable {a b c : Event × EventHdr} {g rest p : List (Event × EventHdr)}

theorem same_iff : Same a b ↔ sameEvgroup a.2 b.2 := by
  rw [Same, sameEvgroup]
  grind

theorem same_equivalence : Equivalence fun a b : Event × EventHdr => sameEvgroup a.2 b.2 = true := by
  simp only [← same_iff]
  refine ⟨fun a => ⟨rfl,fun _ => rfl⟩,fun {a b} h => ?_,fun {a b c} h h' => ?_⟩
  · exact ⟨h.1.symm,fun hd => (h.2 (h.1 ▸ hd)).symm⟩
  · exact ⟨h.1.trans h'.1,fun hd => (h.2 hd).trans (h'.2 (h.1 ▸ hd))⟩

theorem SameGroup.subset {p' : List (Event × EventHdr)} (h : SameGroup p) (hs : p' ⊆ p) :
    SameGroup p' :=
  fun a ha b hb => h a (hs ha) b (hs hb)

theorem OneCall.suffix {max : Nat} (p p' : List (Event × EventHdr)) (h : OneCall max p)
    (hs : p' <:+ p) : OneCall max p' :=
  ⟨h.sameGroup.subset hs.subset,hs.length_le.trans h.max⟩

/-- A batch as the inner loops make it -/
structure Batch where
  isFull : Bool
  first : Nat
  num : Nat

def Batch.events (tbl : List (Event × EventHdr)) (b : Batch) : List (Event × EventHdr) :=
  (tbl.drop b.first).take b.num

def Batch.run {S : Type} (full trailing : Nat → Nat → S → BoundedRun S S) (s : S) (b : Batch) :
    BoundedRun S S :=
  if b.isFull then full b.first b.num s else trailing b.first b.num s

/-- The next part of a greedy cut, of which no more than `num` events can be in one call -/
theorem greedy_take {max num : Nat} {ps : List (List (Event × EventHdr))} (hnum : 0 < num)
    (hmax : num ≤ max) (hlen : num ≤ g.length) (hg : SameGroup g)
    (hlongest : ∀ p, OneCall max p → p <+: g ++ rest → p.length ≤ num)
    (hps : Greedy (OneCall max) ps (g.drop num ++ rest)) :
    Greedy (OneCall max) (g.take num :: ps) (g ++ rest) := by
  have htake : (g.take num).length = num := List.length_take_of_le hlen
  refine ⟨⟨hg.subset (List.take_subset _ _),htake.trans_le hmax⟩,?_,?_,_,?_,hps⟩
  · exact List.ne_nil_of_length_pos (hnum.trans_eq htake.symm)
  · exact fun p hp hpre => (hlongest p hp hpre).trans_eq htake.symm
  · rw [← List.append_assoc, List.take_append_drop]

theorem events_of_drop {tbl : List (Event × EventHdr)} {b : Batch}
    (htbl : tbl.drop b.first = g ++ rest) (hlen : b.num ≤ g.length) :
    b.events tbl = g.take b.num := by
  rw [Batch.events, htbl, List.take_append_of_le_length hlen]

/-- The batches cut what is left of an event group, `g`, and what follows it. -/
theorem egrpBatches_greedy {tbl : List (Event × EventHdr)} {max cnt egrpEnd fuel j : Nat}
    (hmax : 0 < max) (hcnt : 0 < cnt) (hg : IsRun Same g rest) (htbl : tbl.drop j = g ++ rest)
    (hend : egrpEnd = j+g.length) (hle : g.length ≤ cnt) (hfuel : g.length < fuel) :
    ∃ bs : List Batch, (∀ {S : Type} (full trailing : Nat → Nat → S → BoundedRun S S) (s : S),
        egrpBatches full trailing egrpEnd (min cnt max) fuel j s =
          bs.foldlM (Batch.run full trailing) s) ∧
      (∀ b ∈ bs, (b.events tbl).length = b.num) ∧
      ∀ ps, Greedy (OneCall max) ps rest →
        Greedy (OneCall max) (bs.map (·.events tbl) ++ ps) (g ++ rest) := by
  induction fuel generalizing j g with
  | zero => omega
  | succ fuel ih =>
    subst hend
    simp only [egrpBatches, Nat.add_sub_cancel_left]
    have hlongest : g ≠ [] → ∀ p, OneCall max p → p <+: g ++ rest →
        p.length ≤ min g.length max := fun hne p hp hpre =>
      le_min (hg.prefix_length_le hne hp.sameGroup hpre) hp.max
    by_cases hn : min cnt max ≤ g.length
    · simp only [if_pos hn]
      obtain ⟨num,hnum⟩ : ∃ num, num = min cnt max := ⟨_,rfl⟩
      rw [← hnum] at ih hn ⊢
      have hpos : 0 < num := by omega
      have hle' : num ≤ max := by omega
      have hne : g ≠ [] := List.ne_nil_of_length_pos (by omega)
      have hev := events_of_drop (b := ⟨true,j,num⟩) htbl hn
      obtain ⟨bs,hrun,hin,hcut⟩ := ih (j := j+num) (g := g.drop num) (hg.drop num)
        (by rw [← List.drop_drop, htbl, List.drop_append_of_le_length hn])
        (by rw [List.length_drop]; omega) (by rw [List.length_drop]; omega)
        (by rw [List.length_drop]; omega)
      refine ⟨⟨true,j,num⟩ :: bs,fun full trailing s => ?_,?_,fun ps hps => ?_⟩
      · rw [List.foldlM_cons]
        exact congrArg _ (funext fun t => hrun full trailing t)
      · exact List.forall_mem_cons.2 ⟨by rw [hev]; exact List.length_take_of_le hn,hin⟩
      · rw [List.map_cons, hev]
        refine greedy_take hpos hle' hn hg.related (fun p hp hpre => ?_) (hcut ps hps)
        exact (hlongest hne p hp hpre).trans (show min g.length max ≤ num by omega)
    · simp only [if_neg hn]
      by_cases hlt : 0 < g.length
      · have hev := events_of_drop (b := ⟨false,j,g.length⟩) htbl le_rfl
        have hle' : g.length ≤ max := by omega
        refine ⟨[⟨false,j,g.length⟩],fun full trailing s => ?_,?_,fun ps hps => ?_⟩
        · simp only [show j < j+g.length by omega, if_true, List.foldlM_cons, List.foldlM_nil,
            Batch.run, Bool.false_eq_true, if_false, bind_pure]
        · exact List.forall_mem_cons.2 ⟨by rw [hev]; exact List.length_take_of_le le_rfl,
            fun _ hb => absurd hb List.not_mem_nil⟩
        · rw [List.map_cons, List.map_nil, hev]
          refine greedy_take hlt hle' le_rfl hg.related (fun p hp hpre => ?_) ?_
          · exact (hlongest (List.ne_nil_of_length_pos hlt) p hp hpre).trans (min_le_left _ _)
          · rw [List.drop_length]; exact hps
      · obtain rfl : g = [] := List.eq_nil_of_length_eq_zero (by omega)
        refine ⟨[],fun full trailing s => ?_,fun _ hb => absurd hb List.not_mem_nil,fun _ hps => hps⟩
        rw [if_neg (by simp)]
        rfl

theorem countSameEvgroup_eq (a : Event × EventHdr) (l : List (Event × EventHdr)) :
    countSameEvgroup ((a :: l).map Prod.snd) =
      (a :: l.takeWhile fun b => sameEvgroup a.2 b.2).length := by
  rw [List.map_cons, countSameEvgroup, List.takeWhile_map, List.length_map, List.length_cons,
    Nat.add_comm]
  rfl

/-- From index `idx` on the batches of all event groups cut the burst greedily. -/
theorem egrpLoop_greedy {tbl : List (Event × EventHdr)} {max fuel k idx : Nat} (hmax : 0 < max)
    (hidx : idx < tbl.length) (hk : tbl.length ≤ idx+k) (hfuel : tbl.length < fuel) :
    ∃ bs : List Batch, (∀ {S : Type} (full trailing : Nat → Nat → S → BoundedRun S S) (s : S),
        egrpLoop full trailing (tbl.map Prod.snd) max fuel k idx s =
          bs.foldlM (Batch.run full trailing) s) ∧
      (∀ b ∈ bs, (b.events tbl).length = b.num) ∧
      Greedy (OneCall max) (bs.map (·.events tbl)) (tbl.drop idx) := by
  induction k generalizing idx with
  | zero => omega
  | succ k ih =>
    obtain ⟨a,l,g,rest,hl,hg,htbl,hrun,hdrop,hlen⟩ := exists_run same_equivalence hidx
    simp only [← same_iff] at hrun
    have hcnt := countSameEvgroup_eq a l
    rw [← hg] at hcnt
    have hpos : 0 < g.length := by rw [hg]; exact Nat.succ_pos _
    have hend : min (idx+g.length) tbl.length = idx+g.length := by omega
    obtain ⟨bs,hbs,hin,hcut⟩ := egrpBatches_greedy hmax hpos hrun htbl rfl le_rfl
      (show g.length < fuel by omega)
    simp only [egrpLoop, ← List.map_drop, hl, hcnt, List.length_map, hend, hbs]
    by_cases hlt : idx+g.length < tbl.length
    · obtain ⟨bs',hbs',hin',hcut'⟩ := ih hlt (by omega)
      rw [hdrop] at hcut'
      refine ⟨bs ++ bs',fun full trailing s => ?_,?_,?_⟩
      · rw [List.foldlM_append]
        exact congrArg _ (funext fun t => by rw [if_pos hlt, hbs'])
      · exact List.forall_mem_append.2 ⟨hin,hin'⟩
      · rw [List.map_append, ← hl, htbl]
        exact hcut _ hcut'
    · have hnil : rest = [] := List.eq_nil_of_length_eq_zero (by omega)
      refine ⟨bs,fun full trailing s => ?_,hin,?_⟩
      · simp only [if_neg hlt]
        exact bind_pure _
      · rw [← hl, htbl, ← List.append_nil (bs.map _)]
        exact hcut [] hnil

end Cut

/-- A multi-receive call: with callbacks or not, index and number of the events -/
def Act.rcvCall? : Act → Option (Bool × Nat × Nat)
  | .callEoMultircvFn noCb first num => some (noCb,first,num)
  | _ => none

def Batch.acts (callbacksRegistered checkLocalQs : Bool) (b : Batch) : List Act :=
  batchActs callbacksRegistered checkLocalQs
    (if b.isFull then .eventBurstCntSub b.num else .eventBurstCntZero) b.first b.num

section Calls
variable {callbacksRegistered checkLocalQs : Bool} {bs : List Batch}

theorem rcvCalls_acts (bs : List Batch) :
    (bs.flatMap (Batch.acts callbacksRegistered checkLocalQs)).filterMap Act.rcvCall? =
      bs.map fun b => (!callbacksRegistered,b.first,b.num) := by
  induction bs with
  | nil => rfl
  | cons b bs ih =>
    have hcnt : (if b.isFull then Act.eventBurstCntSub b.num else .eventBurstCntZero).rcvCall? =
        none := by
      cases b.isFull <;> rfl
    rw [List.flatMap_cons, List.filterMap_append, ih, Batch.acts, batchActs]
    cases checkLocalQs with
    | false => rfl
    | true => rw [if_pos rfl, List.filterMap_cons, hcnt]; rfl

theorem foldlM_acts (acts : List Act) :
    bs.foldlM (Batch.run
      (fun j num acts =>
        .ok (acts ++ batchActs callbacksRegistered checkLocalQs (.eventBurstCntSub num) j num))
      (fun j num acts =>
        .ok (acts ++ batchActs callbacksRegistered checkLocalQs .eventBurstCntZero j num))) acts =
      (.ok (acts ++ bs.flatMap (Batch.acts callbacksRegistered checkLocalQs)) :
        BoundedRun (List Act) (List Act)) := by
  induction bs generalizing acts with
  | nil => rw [List.flatMap_nil, List.append_nil]; rfl
  | cons b bs ih =>
    rw [List.foldlM_cons, List.flatMap_cons, ← List.append_assoc, ← ih]
    cases hb : b.isFull with
    | false => simp only [Batch.run, Batch.acts, hb]; rfl
    | true => simp only [Batch.run, Batch.acts, hb]; rfl

/-- With room for an event in each call the burst is cut greedily. -/
theorem dispatchEoMultircvBurst_ok {Event : Type} {q : QElem} {tbl : List (Event × EventHdr)}
    {fuel : Nat} (hne : tbl ≠ []) (hmax : 0 < q.maxEvents.toNat) (hfuel : tbl.length < fuel) :
    ∃ bs : List Batch, (∀ callbacksRegistered checkLocalQs,
        dispatchEoMultircvBurst callbacksRegistered checkLocalQs q (tbl.map Prod.snd) fuel =
          .ok (bs.flatMap (Batch.acts callbacksRegistered checkLocalQs))) ∧
      (∀ b ∈ bs, (b.events tbl).length = b.num) ∧
      Greedy (OneCall q.maxEvents.toNat) (bs.map (·.events tbl)) tbl := by
  obtain ⟨bs,hrun,hin,hcut⟩ := egrpLoop_greedy (k := fuel) hmax (List.length_pos_of_ne_nil hne)
    (by omega) hfuel
  exact ⟨bs,fun _ _ => (hrun _ _ _).trans (foldlM_acts []),hin,hcut⟩

private theorem egrpBatches_stuck (egrpEnd fuel j : Nat) (acts : List Act)
    (full : Nat → Nat → List Act → List Act) (trailing : Nat → Nat → List Act →
      BoundedRun (List Act) (List Act)) :
    ∃ acts', egrpBatches (fun j num acts => .ok (full j num acts)) trailing egrpEnd 0 fuel j acts =
      .error acts' := by
  induction fuel generalizing j acts with
  | zero => exact ⟨acts,rfl⟩
  | succ fuel ih => exact ih _ _

/-- Batches of no events never reach the end of the burst. -/
theorem dispatchEoMultircvBurst_stuck {q : QElem} (hmax : q.maxEvents.toNat = 0)
    (evHdrTbl : List EventHdr) (fuel : Nat) :
    ∃ acts, dispatchEoMultircvBurst callbacksRegistered checkLocalQs q evHdrTbl fuel =
      .error acts := by
  cases fuel with
  | zero => exact ⟨[],rfl⟩
  | succ k =>
    obtain ⟨acts,h⟩ := egrpBatches_stuck
      (min (0+countSameEvgroup (evHdrTbl.drop 0)) evHdrTbl.length) (k+1) 0 [] _ _
    refine ⟨acts,?_⟩
    rw [dispatchEoMultircvBurst, egrpLoop, hmax, Nat.min_zero, h]
    rfl

end Calls
end EmOdp.Dispatch.Multircv
