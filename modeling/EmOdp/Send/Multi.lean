import Mathlib.Data.List.TakeWhile
import EmOdp.Send.Restore

/-! An array of events that is accepted in part: the accepted events are a prefix, and the
rest is restored. -/
namespace EmOdp.Send
open EventState Lib.Batch

/-- The results that ODP documents: no more than `num` events are reported. -/
structure Documented (res : Results) (num : Nat) : Prop where
  enqMulti : res.enqMulti ≤ num
  put : res.put ≤ num

variable {γ : Type} {cfg : Config} {core : Core} {q : QueueElem} {res : Results}
  {xs : List (Event γ)}

/-- `numSent` events are handed over, in order and each once, and the others restored. -/
abbrev Splits (cfg : Config) (xs : List (Event γ)) (s : Sent γ) : Prop :=
  Split (fun x y => y.hdl = x.hdl) (Restored cfg) xs s.numSent s.handed s.tbl

/-- The tables of the vectors can be looked at. -/
def Readable (cfg : Config) (xs : List (Event γ)) : Prop :=
  ∀ x ∈ xs, ∀ table, x.table = some table → ∃ table', eventVectorTbl cfg table = .ok table'

private theorem same (xs : List (Event γ)) : List.Forall₂ (fun x y => y.hdl = x.hdl) xs xs :=
  List.forall₂_same.2 fun _ _ => rfl

private theorem restored (xs : List (Event γ)) : List.Forall₂ (Restored cfg) xs xs :=
  List.forall₂_same.2 fun x _ => .refl x

private theorem mapped {f : Event γ → Event γ} {R : Event γ → Event γ → Prop}
    (h : ∀ x ∈ xs, R x (f x)) : List.Forall₂ R xs (xs.map f) :=
  List.forall₂_map_right_iff.2 (List.forall₂_same.2 h)

private theorem hdl_setAggrSent {b : Bool} (x : Event γ) : (x.setAggrSent b).hdl = x.hdl := by
  simp only [Event.setAggrSent]
  split <;> rfl

private theorem rejected : Splits cfg xs ⟨0,[],xs⟩ := Split.none (restored xs)

private theorem full_clamped {ret : Int} (h : ret = xs.length) : (xs.length : Int) = max ret 0 := by
  omega

private theorem neg_clamped (ret : Int) : (if ret < 0 then 0 else ret) = max ret 0 := by
  split <;> omega

private theorem pos_clamped (ret : Int) : (if 0 < ret then ret else 0) = max ret 0 := by
  split <;> omega

section Destinations

theorem enqVectorsMulti_splits (hesv : cfg.esvEnabled = true) (hres : Documented res xs.length)
    (hread : Readable cfg xs) : ∃ s, enqVectorsMulti cfg res xs = .ok s ∧ Splits cfg xs s := by
  have hsame : List.Forall₂ (fun x y : Event γ => y.hdl = x.hdl) xs (xs.map Event.tbl2odp) :=
    mapped fun _ _ => rfl
  have hconverted : List.Forall₂ (fun x y : Event γ => x ∈ xs ∧ y = x.tbl2odp) xs
      (xs.map Event.tbl2odp) := mapped fun x hx => ⟨hx,rfl⟩
  simp only [enqVectorsMulti]
  split
  · exact ⟨_,rfl,(Split.clamped hres.enqMulti (full_clamped ‹_›) hsame hconverted).full rfl⟩
  · obtain ⟨tbl,htbl,hsplit⟩ := (Split.clamped hres.enqMulti (neg_clamped res.enqMulti)
      hsame hconverted).rollback fun x y hxy => by
        rw [hxy.2]
        exact tbl2odp_revert hesv (hread x hxy.1)
    exact ⟨_,by rw [htbl]; rfl,hsplit⟩

theorem sendSchedMulti_splits (hres : Documented res xs.length) (hread : Readable cfg xs) :
    ∃ s, sendSchedMulti cfg q res xs = .ok s ∧ Splits cfg xs s := by
  simp only [sendSchedMulti]
  split
  · exact ⟨_,rfl,rejected⟩
  split
  · exact ⟨_,rfl,rejected⟩
  split
  · exact enqVectorsMulti_splits ‹_› hres hread
  split
  · exact ⟨_,rfl,.clamped hres.enqMulti (full_clamped ‹_›) (same xs) (restored xs)⟩
  · exact ⟨_,rfl,.clamped hres.enqMulti (neg_clamped _) (same xs) (restored xs)⟩

theorem queueUnschedEnqueueMulti_splits (hres : Documented res xs.length)
    (hread : Readable cfg xs) :
    ∃ s, queueUnschedEnqueueMulti cfg q res xs = .ok s ∧ Splits cfg xs s := by
  simp only [queueUnschedEnqueueMulti]
  split
  · exact ⟨_,rfl,rejected⟩
  split
  · exact ⟨_,rfl,rejected⟩
  split
  · rename_i hvectors
    rw [Bool.and_eq_true] at hvectors
    exact enqVectorsMulti_splits hvectors.1 hres hread
  · exact ⟨_,rfl,.clamped hres.enqMulti (neg_clamped _) (same xs) (restored xs)⟩

theorem sendLocalMulti_splits (hres : Documented res xs.length) :
    ∃ s, sendLocalMulti cfg q res xs = .ok s ∧ Splits cfg xs s := by
  simp only [sendLocalMulti]
  split
  · exact ⟨_,rfl,rejected⟩
  · exact ⟨_,rfl,.clamped hres.put (pos_clamped _) (same xs) (restored xs)⟩

theorem sendAggrMulti_splits (hres : Documented res xs.length) :
    ∃ s, sendAggrMulti cfg q res xs = .ok s ∧ Splits cfg xs s := by
  simp only [sendAggrMulti]
  split
  · exact ⟨_,rfl,rejected⟩
  split
  · exact ⟨_,rfl,rejected⟩
  split
  · exact ⟨_,rfl,rejected⟩
  cases hesv : cfg.esvEnabled with
  | false =>
    simp only [Bool.false_eq_true, if_false]
    split
    · exact ⟨_,rfl,.clamped hres.enqMulti (full_clamped ‹_›) (same xs) (restored xs)⟩
    · exact ⟨_,rfl,.clamped hres.enqMulti (neg_clamped _) (same xs) (restored xs)⟩
  | true =>
    simp only [if_true, List.length_map]
    have hsame : List.Forall₂ (fun x y : Event γ => y.hdl = x.hdl) xs
        (xs.map (Event.setAggrSent true)) := mapped fun x _ => hdl_setAggrSent x
    have hflagged : List.Forall₂ (fun x y : Event γ => y = x.setAggrSent true) xs
        (xs.map (Event.setAggrSent true)) := mapped fun _ _ => rfl
    split
    · exact ⟨_,rfl,(Split.clamped hres.enqMulti (full_clamped ‹_›) hsame hflagged).full rfl⟩
    · have hclear : ∀ x y : Event γ, y = x.setAggrSent true →
          ∃ z, (Except.ok (y.setAggrSent false) : Except EvstateError (Event γ)) = .ok z ∧
            Restored cfg x z := by
        intro x y hxy
        rw [hxy]
        exact ⟨_,rfl,setAggrSent_restored x⟩
      obtain ⟨tbl,htbl,hsplit⟩ := (Split.clamped hres.enqMulti (neg_clamped res.enqMulti)
        hsame hflagged).rollback hclear
      exact ⟨_,by rw [htbl]; rfl,hsplit⟩

theorem eoStartBufferEvents_splits (hres : Documented res xs.length) :
    Splits cfg xs (eoStartBufferEvents res xs) :=
  .clamped hres.put (neg_clamped _) (same xs) (restored xs)

theorem sendTypeMulti_splits (hres : Documented res xs.length) (hread : Readable cfg xs) :
    ∃ s, sendTypeMulti cfg q res xs = .ok s ∧ Splits cfg xs s := by
  simp only [sendTypeMulti]
  split
  · exact sendSchedMulti_splits hres hread
  · exact sendSchedMulti_splits hres hread
  · exact sendSchedMulti_splits hres hread
  · exact queueUnschedEnqueueMulti_splits hres hread
  · exact sendAggrMulti_splits hres
  · exact sendLocalMulti_splits hres
  · exact ⟨_,rfl,rejected⟩
  · exact ⟨_,rfl,rejected⟩

end Destinations

/-- Marking all events before the hand-over and unmarking the rest after it. -/
theorem markedSendMulti_splits {send : List (Event γ) → Except EvstateError (Sent γ)}
    (hheld : ∀ x ∈ xs, Held cfg x)
    (hsend : ∀ ys, ys.length = xs.length → Readable cfg ys →
      ∃ s, send ys = .ok s ∧ Splits cfg ys s) :
    ∃ s, markedSendMulti cfg xs send = .ok s ∧ Splits cfg xs s := by
  obtain ⟨ys,hmark,hmarked⟩ := mapM_forall₂ fun x hx => (hheld x hx).mark .multi
  have hread : Readable cfg ys := by
    intro y hy table htable
    obtain ⟨i,hi,rfl⟩ := List.getElem_of_mem hy
    have hxy := (List.forall₂_iff_get.1 hmarked).2 i (hmarked.length_eq ▸ hi) hi
    exact (hheld _ (List.get_mem _ _)).table table (hxy.table ▸ htable)
  obtain ⟨s,hs,hsplit⟩ := hsend ys hmarked.length_eq.symm hread
  have hprepared : Split (fun x y => y.hdl = x.hdl)
      (fun x z => ∃ y, Marked cfg x y ∧ Restored cfg y z) xs s.numSent s.handed s.tbl :=
    hsplit.prepared hmarked (fun x y z hxy hyz => hyz.trans hxy.hdl) fun x y z hxy hyz =>
      ⟨y,hxy,hyz⟩
  have hunmark : ∀ x z : Event γ, (∃ y, Marked cfg x y ∧ Restored cfg y z) →
      ∃ w, z.evstateUsr2emRevert cfg .multi = .ok w ∧ Restored cfg x w :=
    fun x z ⟨y,hxy,hyz⟩ => hxy.unmark hyz .multi
  have hrun : markedSendMulti cfg xs send = revertUnsent cfg s := by
    simp only [markedSendMulti, hmark, bind, Except.bind, hs]
  rw [hrun, revertUnsent]
  split
  · obtain ⟨tbl,htbl,hrest⟩ := hprepared.rollback hunmark
    exact ⟨_,by rw [htbl]; rfl,hrest⟩
  · rename_i hno
    refine ⟨s,rfl,?_⟩
    by_cases hall : s.numSent = s.tbl.length
    · exact hprepared.full (by rw [hall, hprepared.length])
    · have hesv : cfg.esvEnabled ≠ true := fun hesv => hno ⟨hall,hesv⟩
      refine hprepared.imp (fun _ _ => id) fun x z hxz => ?_
      obtain ⟨w,hw,hxw⟩ := hunmark x z hxz
      simp only [Event.evstateUsr2emRevert, if_neg hesv] at hw
      cases hw
      exact hxw

/-- The events are passed to the user's output function at once. -/
def CallsOutputFn (cfg : Config) (core : Core) (q : QueueElem) : Prop :=
  (2 ≤ cfg.checkLevel → q.allocated = true) ∧ (core.startEo && q.scheduled) = false ∧
    q.type = .output ∧ (0 < cfg.checkLevel → q.state = .unscheduled) ∧ core.orderedContext = false

instance : Decidable (CallsOutputFn cfg core q) :=
  inferInstanceAs (Decidable ((_ → _) ∧ _ ∧ _ ∧ (_ → _) ∧ _))

theorem callsOutputFn_of_checks (hallocated : ¬(2 ≤ cfg.checkLevel ∧ !q.allocated))
    (hstart : ¬(core.startEo && q.scheduled) = true) (htype : q.type = .output)
    (hstate : ¬(0 < cfg.checkLevel ∧ q.state ≠ .unscheduled)) (hordered : ¬core.orderedContext = true) :
    CallsOutputFn cfg core q := by
  refine ⟨fun hlevel => ?_,Bool.eq_false_iff.2 hstart,htype,fun hlevel => ?_,
    Bool.eq_false_iff.2 hordered⟩
  · by_contra hne
    exact hallocated ⟨hlevel,by simpa using hne⟩
  · by_contra hne
    exact hstate ⟨hlevel,hne⟩

/-- The output function's result is returned as it is. -/
theorem sendInternalMulti_splits (hres : Documented res xs.length)
    (hheld : ∀ x ∈ xs, Held cfg x) :
    ∃ s, sendInternalMulti cfg core q res xs = .ok s ∧
      (Splits cfg xs s ↔ (CallsOutputFn cfg core q → 0 ≤ res.outputFn ∧ res.outputFn ≤ xs.length)) := by
  simp only [sendInternalMulti]
  split
  · rename_i hno
    refine ⟨_,rfl,iff_of_true rejected fun hcall => ?_⟩
    have hallocated := hcall.1 hno.1
    simp [hallocated] at hno
  rename_i hallocated
  split
  · rename_i hstart
    obtain ⟨s,hs,hsplit⟩ := markedSendMulti_splits hheld
      (fun ys hlen _ => ⟨_,rfl,eoStartBufferEvents_splits (hlen ▸ hres)⟩)
    refine ⟨s,hs,iff_of_true hsplit fun hcall => ?_⟩
    rw [hcall.2.1] at hstart
    cases hstart
  rename_i hstart
  split
  swap
  · rename_i htype
    obtain ⟨s,hs,hsplit⟩ := markedSendMulti_splits hheld
      fun ys hlen hread => sendTypeMulti_splits (q := q) (hlen ▸ hres) hread
    exact ⟨s,hs,iff_of_true hsplit fun hcall => absurd hcall.2.2.1 htype⟩
  rename_i htype
  refine ⟨_,rfl,?_⟩
  simp only [sendOutputMulti]
  split
  · rename_i hstate
    exact iff_of_true rejected fun hcall => absurd (hcall.2.2.2.1 hstate.1) hstate.2
  rename_i hstate
  split
  · rename_i hordered
    have hno : ¬CallsOutputFn cfg core q := fun hcall => by
      rw [hcall.2.2.2.2] at hordered
      cases hordered
    split
    · exact iff_of_true rejected fun hcall => absurd hcall hno
    · have hclamped : (if res.enqMulti ≤ 0 then 0 else res.enqMulti) = max res.enqMulti 0 := by
        split <;> omega
      exact iff_of_true (.clamped hres.enqMulti hclamped (same xs) (restored xs)) fun hcall =>
        absurd hcall hno
  · rename_i hordered
    have hcall := callsOutputFn_of_checks hallocated hstart htype hstate hordered
    refine ⟨fun hsplit _ => ⟨hsplit.nonneg,hsplit.le⟩,fun hrange => ?_⟩
    obtain ⟨hnonneg,hle⟩ := hrange hcall
    exact .clamped hle (by dsimp only; omega) (same xs) (restored xs)

section Api

/-- Events that only the event group tells apart. -/
private theorem splits_congr {ys : List (Event γ)} {s : Sent γ}
    (h : List.Forall₂ (fun x y => Restored cfg x y ∧ Restored cfg y x) xs ys) :
    Splits cfg ys s ↔ Splits cfg xs s := by
  constructor
  · intro hs
    exact hs.prepared h (fun x y z hxy hyz => hyz.trans hxy.1.hdl) fun x y z hxy hyz =>
      hxy.1.trans hyz
  · intro hs
    exact hs.prepared h.flip (fun y x z hxy hxz => hxz.trans hxy.2.hdl) fun y x z hxy hxz =>
      hxy.2.trans hxz

private theorem untagged (x : Event γ) : Restored cfg x { x with egrp := none } ∧
    Restored cfg { x with egrp := none } x :=
  ⟨⟨rfl,rfl,rfl,rfl,.inl rfl,rfl⟩,⟨rfl,rfl,rfl,rfl,.inl rfl,rfl⟩⟩

private theorem tagged (eventGroup : Option γ) (egrpElem : Option (EgrpElem γ)) (x : Event γ) :
    Restored cfg x (x.egrpTagMulti eventGroup egrpElem) ∧
      Restored cfg (x.egrpTagMulti eventGroup egrpElem) x := by
  simp only [Event.egrpTagMulti]
  split <;> exact ⟨⟨rfl,rfl,rfl,rfl,.inl rfl,rfl⟩,⟨rfl,rfl,rfl,rfl,.inl rfl,rfl⟩⟩

private theorem held_map {f : Event γ → Event γ} (hf : ∀ x, Restored cfg x (f x))
    (h : ∀ x ∈ xs, Held cfg x) : ∀ y ∈ xs.map f, Held cfg y := by
  intro y hy
  obtain ⟨x,hx,rfl⟩ := List.mem_map.1 hy
  exact (hf x).held (h x hx)

/-- The events are accepted, and passed to the output function at once. -/
def PassedOut (cfg : Config) (core : Core) (q : QueueElem) (xs : List (Event γ)) : Prop :=
  CallsOutputFn cfg core q ∧ (0 < cfg.checkLevel → ∀ x ∈ xs, x.timerInd = false)

theorem emSendMulti_splits (hne : xs ≠ []) (hres : Documented res xs.length)
    (hheld : ∀ x ∈ xs, Held cfg x) :
    ∃ s, emSendMulti cfg core q res xs = .ok s ∧ (Splits cfg xs s ↔
      (PassedOut cfg core q xs → 0 ≤ res.outputFn ∧ res.outputFn ≤ xs.length)) := by
  simp only [emSendMulti]
  rw [if_neg fun h => hne h.2]
  generalize hgood : (if 0 < cfg.checkLevel then xs.takeWhile (!·.timerInd) else xs) = good
  split
  · rename_i hlen
    have hheld' := held_map (fun x => (untagged x).1) hheld
    obtain ⟨s,hs,hsplit⟩ := @sendInternalMulti_splits γ cfg core q res _
      (by rw [List.length_map]; exact hres) hheld'
    refine ⟨s,hs,?_⟩
    rw [splits_congr (mapped fun x _ => untagged x), List.length_map] at hsplit
    rw [hsplit]
    have hall : 0 < cfg.checkLevel → ∀ x ∈ xs, x.timerInd = false := by
      intro hlevel x hx
      rw [if_pos hlevel] at hgood
      have heq : xs.takeWhile (!·.timerInd) = xs :=
        (List.takeWhile_prefix _).eq_of_length (by rw [hgood, hlen])
      rw [← heq] at hx
      simpa using List.mem_takeWhile_imp hx
    exact ⟨fun h hout => h hout.1,fun h hcall => h ⟨hcall,hall⟩⟩
  · rename_i hlen
    have hlevel : 0 < cfg.checkLevel := by
      by_contra hzero
      rw [if_neg hzero] at hgood
      exact hlen (by rw [hgood])
    rw [if_pos hlevel] at hgood
    have hprefix : good <+: xs := hgood ▸ List.takeWhile_prefix _
    refine ⟨_,rfl,iff_of_true (.none ?_) fun hout => ?_⟩
    · obtain ⟨rest,rfl⟩ := hprefix
      rw [List.drop_left]
      exact List.rel_append (mapped fun x _ => (untagged x).1) (restored rest)
    · have hall : xs.takeWhile (!·.timerInd) = xs :=
        List.takeWhile_eq_self_iff.2 fun x hx => by rw [hout.2 hlevel x hx]; rfl
      exact absurd (by rw [← hgood, hall]) hlen

theorem emSendGroupMulti_splits {eventGroup : Option γ} {egrpElem : Option (EgrpElem γ)}
    (hres : Documented res xs.length) (hheld : ∀ x ∈ xs, Held cfg x) :
    ∃ s, emSendGroupMulti cfg core q res xs eventGroup egrpElem = .ok s ∧ Splits cfg xs s := by
  simp only [emSendGroupMulti]
  split
  · exact ⟨_,rfl,rejected⟩
  split
  · exact ⟨_,rfl,rejected⟩
  split
  · exact ⟨_,rfl,rejected⟩
  split
  · exact ⟨_,rfl,rejected⟩
  have htag : List.Forall₂ (fun x y => Restored cfg x y ∧ Restored cfg y x) xs
      (xs.map (Event.egrpTagMulti eventGroup egrpElem)) :=
    mapped fun x _ => tagged eventGroup egrpElem x
  simp only [← splits_congr htag]
  rw [← List.length_map] at hres
  have hheld' := held_map (fun x => (tagged eventGroup egrpElem x).1) hheld
  split
  · exact ⟨_,rfl,rejected⟩
  split
  · exact ⟨_,rfl,rejected⟩
  split
  · exact markedSendMulti_splits hheld' fun ys hlen _ =>
      ⟨_,rfl,eoStartBufferEvents_splits (hlen ▸ hres)⟩
  · exact markedSendMulti_splits hheld' fun ys hlen hread =>
      sendTypeMulti_splits (hlen ▸ hres) hread

end Api

end EmOdp.Send
