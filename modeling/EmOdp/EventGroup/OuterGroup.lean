import EmOdp.EventGroup.ControlPoll

/-! When a nested control-queue poll leaves the outer event group alone. -/
namespace EmOdp.EventGroup.ControlPoll

/-- The control events of a poll, in the order they are handled. -/
def handled (rounds : List Round) : List CtrlEvent :=
  (rounds.takeWhile (!·.events.isEmpty)).flatMap Round.events

/-- The operation was made for an event that is tagged with its group. -/
def WordOp.Tagged (op : WordOp) : Prop :=
  ∃ egrp, op.event = some egrp ∧ eventGroupElemGet egrp = some op.egrpElem

instance (op : WordOp) : Decidable op.Tagged :=
  match h : op.event with
  | none => isFalse (by simp [WordOp.Tagged, h])
  | some egrp => decidable_of_iff (eventGroupElemGet egrp = some op.egrpElem) (by
      simp [WordOp.Tagged, h])

/-- The polls leave the outer group alone and the receive counts its events once. -/
structure OuterUntouched (g : Fin emMaxEventGroups) (rcvMultiCnt : Nat) (ops : List WordOp) :
    Prop where
  counters : ∀ op ∈ ops, op.egrpElem = g → op.new ≠ op.old → op.event.isSome → op.Tagged
  undef : ∀ op ∈ ops, op.event = some emEventGroupUndef → op.new = op.old
  once : (ops.filter fun op => op.kind = .post ∧ op.egrpElem = g ∧ ¬op.Tagged).map (·.decr) =
    [rcvMultiCnt]

namespace Locm

/-- Equal in all that the event group operations read and write. -/
structure SameGroups (s t : Locm) : Prop where
  counts : s.counts = t.counts
  egrpElem : s.current.egrpElem = t.current.egrpElem
  egrpGen : s.current.egrpGen = t.current.egrpGen
  ops : s.ops = t.ops

namespace SameGroups
variable {s t u : Locm}

theorem refl (s : Locm) : SameGroups s s := ⟨rfl,rfl,rfl,rfl⟩

theorem trans (h : SameGroups s t) (h' : SameGroups t u) : SameGroups s u :=
  ⟨h.counts.trans h'.counts,h.egrpElem.trans h'.egrpElem,h.egrpGen.trans h'.egrpGen,
    h.ops.trans h'.ops⟩

theorem interfere (h : SameGroups s t) (f : Counts → Counts) :
    SameGroups (s.interfere f) (t.interfere f) :=
  ⟨congrArg f h.counts,h.egrpElem,h.egrpGen,h.ops⟩

theorem update (h : SameGroups s t) (kind : OpKind) (g : Fin emMaxEventGroups) (n : Nat)
    (event : Option EmEventGroup) (new : Option EgrpCounter) :
    SameGroups (s.update kind g n event new) (t.update kind g n event new) := by
  refine ⟨?_,h.egrpElem,h.egrpGen,?_⟩ <;> simp only [Locm.update, h.counts, h.ops]

theorem eventGroupSetLocal (h : SameGroups s t) (ev : CtrlEvent) (n : Nat) :
    SameGroups (s.eventGroupSetLocal ev n) (t.eventGroupSetLocal ev n) := by
  simp only [Locm.eventGroupSetLocal, h.counts]
  split
  · exact h
  · split
    · exact h
    · rename_i g _
      have hu := h.update .pre g n (some ev.egrp) ((t.counts g).preCountDecrement n ev.egrpGen)
      split
      · exact ⟨hu.counts,rfl,hu.egrpGen,hu.ops⟩
      · exact ⟨hu.counts,rfl,rfl,hu.ops⟩

theorem countDecrementCurrent (h : SameGroups s t) (n : Nat) (event : Option EmEventGroup) :
    SameGroups (s.countDecrementCurrent n event) (t.countDecrementCurrent n event) := by
  simp only [Locm.countDecrementCurrent, h.egrpElem, h.egrpGen, h.counts]
  split
  · exact h
  · rename_i g _
    have hu := h.update .post g n event ((t.counts g).postCountDecrement n t.current.egrpGen)
    exact ⟨hu.counts,rfl,hu.egrpGen,hu.ops⟩

theorem handleCtrlEvents (h : SameGroups s t) (evTbl : List CtrlEvent) :
    SameGroups (s.handleCtrlEvents evTbl) (t.handleCtrlEvents evTbl) := by
  induction evTbl generalizing s t with
  | nil => exact h
  | cons ev evs ih =>
    have hs := ((h.interfere ev.before).eventGroupSetLocal ev 1).interfere ev.during
    exact ih (hs.countDecrementCurrent 1 (some ev.egrp))

private theorem oneQueue (h : SameGroups s t) (qElem : Nat) (evTbl : List CtrlEvent) :
    SameGroups (if evTbl = [] then s else (s.setQElem qElem).handleCtrlEvents evTbl)
      (t.handleCtrlEvents evTbl) := by
  split
  · subst evTbl; exact h
  · exact handleCtrlEvents (s := s.setQElem qElem) ⟨h.counts,h.egrpElem,h.egrpGen,h.ops⟩ evTbl

theorem pollRound (p : CtrlPoll) (h : SameGroups s t) (r : Round) :
    SameGroups (s.pollRound p r) (t.handleCtrlEvents r.events) := by
  simp only [Round.events, Locm.handleCtrlEvents, List.foldl_append]
  exact (h.oneQueue p.thrUnschedQelem r.thrEvTbl).oneQueue p.sharedUnschedQelem r.sharedEvTbl

/-- A poll handles its events one after the other. -/
theorem pollLoop (p : CtrlPoll) (h : SameGroups s t) (rounds : List Round) :
    SameGroups (s.pollLoop p rounds) (t.handleCtrlEvents (handled rounds)) := by
  induction rounds generalizing s t with
  | nil => exact h
  | cons r rounds ih =>
    by_cases hr : r.events.isEmpty
    · simpa [Locm.pollLoop, handled, hr, Locm.handleCtrlEvents] using h
    · have hcons : handled (r :: rounds) = r.events ++ handled rounds := by
        simp [handled, hr]
      simp only [Locm.pollLoop, hr, hcons, Locm.handleCtrlEvents, List.foldl_append]
      exact ih (h.pollRound p r)

end SameGroups
theorem eventGroupElemGet_undef : eventGroupElemGet emEventGroupUndef = none := by decide

variable {s : Locm} {ev : CtrlEvent} {g : Fin emMaxEventGroups}

theorem countDecrementCurrent_none {n : Nat} {e : Option EmEventGroup}
    (h : s.current.egrpElem = none) : s.countDecrementCurrent n e = s := by
  simp only [countDecrementCurrent, h]

theorem countDecrementCurrent_some {n : Nat} {e : Option EmEventGroup}
    (h : s.current.egrpElem = some g) : ∃ old new,
    (s.countDecrementCurrent n e).ops = s.ops ++ [⟨.post,g,n,old,new,e⟩] := by
  simp only [countDecrementCurrent, h]
  exact ⟨_,_,rfl⟩

theorem countDecrementCurrent_egrpElem (s : Locm) (n : Nat) (event : Option EmEventGroup) :
    (s.countDecrementCurrent n event).current.egrpElem = none := by
  simp only [countDecrementCurrent]
  split
  · assumption
  · rfl

theorem eventGroupSetLocal_untagged {n : Nat} (hg : eventGroupElemGet ev.egrp = none) :
    s.eventGroupSetLocal ev n = s := by
  simp only [eventGroupSetLocal, hg, ite_self]

theorem eventGroupSetLocal_tagged {n : Nat} (hg : eventGroupElemGet ev.egrp = some g) :
    (∃ old new, (s.eventGroupSetLocal ev n).ops =
      s.ops ++ [⟨.pre,g,n,old,new,some ev.egrp⟩]) ∧
    ∀ g', (s.eventGroupSetLocal ev n).current.egrpElem = some g' → g' = g := by
  have hne : ev.egrp ≠ emEventGroupUndef := fun h => by
    rw [h, eventGroupElemGet_undef] at hg
    cases hg
  simp only [eventGroupSetLocal, hne, if_false, hg]
  split
  · exact ⟨⟨_,_,rfl⟩,nofun⟩
  · exact ⟨⟨_,_,rfl⟩,fun _ h => (Option.some.inj h).symm⟩

/-- An event with a group handle reaches no other group. -/
theorem handleCtrlEvent_tagged (hg : eventGroupElemGet ev.egrp = some g) :
    ∃ l, (s.handleCtrlEvent ev).ops = s.ops ++ l ∧ ∀ op ∈ l, op.Tagged := by
  obtain ⟨⟨old,new,hops⟩,hcur⟩ := eventGroupSetLocal_tagged (s := s.interfere ev.before) (n := 1) hg
  have htag : ∀ kind old new, WordOp.Tagged ⟨kind,g,1,old,new,some ev.egrp⟩ := fun _ _ _ =>
    ⟨ev.egrp,rfl,hg⟩
  rcases hc : ((s.interfere ev.before).eventGroupSetLocal ev 1).current.egrpElem with _ | g'
  · refine ⟨[⟨.pre,g,1,old,new,some ev.egrp⟩],?_,by simpa using htag _ _ _⟩
    rw [handleCtrlEvent, countDecrementCurrent_none (s := interfere _ _) hc]
    exact hops
  · obtain rfl := hcur g' hc
    obtain ⟨old',new',hops'⟩ := countDecrementCurrent_some
      (s := ((s.interfere ev.before).eventGroupSetLocal ev 1).interfere ev.during)
      (n := 1) (e := some ev.egrp) hc
    refine ⟨[⟨.pre,g',1,old,new,some ev.egrp⟩,⟨.post,g',1,old',new',some ev.egrp⟩],?_,?_⟩
    · rw [handleCtrlEvent, hops']
      simp only [interfere] at hops ⊢
      rw [hops, List.append_assoc]
      rfl
    · simp [htag]

theorem handleCtrlEvent_idle (hg : eventGroupElemGet ev.egrp = none)
    (hc : s.current.egrpElem = none) : (s.handleCtrlEvent ev).ops = s.ops := by
  rw [handleCtrlEvent, eventGroupSetLocal_untagged hg,
    countDecrementCurrent_none (s := (s.interfere _).interfere _) hc]
  rfl

/-- An event without a group leaves the current group in place, to be decremented for it. -/
theorem handleCtrlEvent_stray (hg : eventGroupElemGet ev.egrp = none)
    (hc : s.current.egrpElem = some g) : ∃ old new,
    (s.handleCtrlEvent ev).ops = s.ops ++ [⟨.post,g,1,old,new,some ev.egrp⟩] := by
  rw [handleCtrlEvent, eventGroupSetLocal_untagged hg]
  exact countDecrementCurrent_some (s := (s.interfere _).interfere _) hc

theorem handleCtrlEvent_egrpElem (s : Locm) (ev : CtrlEvent) :
    (s.handleCtrlEvent ev).current.egrpElem = none :=
  countDecrementCurrent_egrpElem _ 1 _

/-- With no current group every operation is on the group of its event. -/
theorem handleCtrlEvents_clean (evTbl : List CtrlEvent) (h : s.current.egrpElem = none) :
    ∃ l, (s.handleCtrlEvents evTbl).ops = s.ops ++ l ∧ ∀ op ∈ l, op.Tagged := by
  induction evTbl generalizing s with
  | nil => exact ⟨[],by simp [handleCtrlEvents],nofun⟩
  | cons ev evs ih =>
    obtain ⟨l,hl,ht⟩ := ih (handleCtrlEvent_egrpElem s ev)
    rcases hg : eventGroupElemGet ev.egrp with _ | g
    · exact ⟨l,by rw [← handleCtrlEvent_idle hg h, ← hl]; rfl,ht⟩
    · obtain ⟨l₁,hl₁,ht₁⟩ := handleCtrlEvent_tagged (s := s) hg
      refine ⟨l₁ ++ l,?_,fun op ho => ?_⟩
      · rw [← List.append_assoc, ← hl₁, ← hl]; rfl
      · rcases List.mem_append.1 ho with ho | ho
        · exact ht₁ op ho
        · exact ht op ho

theorem poll_current (p : CtrlPoll) (s : Locm) (rounds : List Round) :
    (s.pollUnschedCtrlQueue p rounds).current = s.current := by
  simp only [pollUnschedCtrlQueue]
  split
  · rfl
  · split <;> rfl

theorem poll_ops (p : CtrlPoll) (s : Locm) (rounds : List Round) :
    (s.pollUnschedCtrlQueue p rounds).ops = (s.handleCtrlEvents (handled rounds)).ops := by
  simp only [pollUnschedCtrlQueue]
  split
  · rfl
  · rename_i r rounds
    split
    · rename_i hr
      simp [handled, hr, handleCtrlEvents]
    · have hsame : SameGroups { s with current := { s.current with
          rcvMultiCnt := 1, schedContextType := SchedContextType.none } } s := ⟨rfl,rfl,rfl,rfl⟩
      exact (hsame.pollLoop p (r :: rounds)).ops

/-- The first control event that the poll handles carries the handle of a group. -/
def FirstTagged (rounds : List Round) : Prop :=
  ∀ ev ∈ (handled rounds).head?, (eventGroupElemGet ev.egrp).isSome = true

instance (rounds : List Round) : Decidable (FirstTagged rounds) :=
  inferInstanceAs (Decidable (∀ ev ∈ (handled rounds).head?, _))

/-- What one poll does inside a receive with a current group. -/
theorem poll_effect (p : CtrlPoll) (rounds : List Round) (hc : s.current.egrpElem = some g) :
    ∃ l, (s.pollUnschedCtrlQueue p rounds).ops = s.ops ++ l ∧
      (FirstTagged rounds → ∀ op ∈ l, op.Tagged) ∧
      (¬FirstTagged rounds → ∃ op ∈ l, op.kind = .post ∧ op.egrpElem = g ∧ ¬op.Tagged) := by
  rw [poll_ops]
  rcases hh : handled rounds with _ | ⟨ev,evs⟩
  · exact ⟨[],by simp [handleCtrlEvents],fun _ => nofun,fun h => by simp [FirstTagged, hh] at h⟩
  obtain ⟨l,hl,ht⟩ := handleCtrlEvents_clean evs (handleCtrlEvent_egrpElem s ev)
  have hcons : (s.handleCtrlEvents (ev :: evs)).ops = (s.handleCtrlEvent ev).ops ++ l := hl
  rcases hg : eventGroupElemGet ev.egrp with _ | g'
  · obtain ⟨old,new,hs⟩ := handleCtrlEvent_stray hg hc
    refine ⟨⟨.post,g,1,old,new,some ev.egrp⟩ :: l,by rw [hcons, hs]; simp,fun h => ?_,fun _ => ?_⟩
    · simp [FirstTagged, hh, hg] at h
    · exact ⟨_,List.mem_cons_self,rfl,rfl,by simp [WordOp.Tagged, hg]⟩
  · obtain ⟨l₁,hl₁,ht₁⟩ := handleCtrlEvent_tagged (s := s) hg
    refine ⟨l₁ ++ l,by rw [hcons, hl₁, List.append_assoc],fun _ op ho => ?_,fun h => ?_⟩
    · exact (List.mem_append.1 ho).elim (ht₁ op) (ht op)
    · simp [FirstTagged, hh, hg] at h

theorem polls_effect (p : CtrlPoll) (polls : List (List Round)) (hc : s.current.egrpElem = some g) :
    (polls.foldl (pollUnschedCtrlQueue p) s).current = s.current ∧
    ∃ l, (polls.foldl (pollUnschedCtrlQueue p) s).ops = s.ops ++ l ∧
      ((∀ rounds ∈ polls, FirstTagged rounds) → ∀ op ∈ l, op.Tagged) ∧
      ((¬∀ rounds ∈ polls, FirstTagged rounds) →
        ∃ op ∈ l, op.kind = .post ∧ op.egrpElem = g ∧ ¬op.Tagged) := by
  induction polls generalizing s with
  | nil => exact ⟨rfl,[],by simp,fun _ => nofun,fun h => by simp at h⟩
  | cons rounds polls ih =>
    have hcur := poll_current p s rounds
    obtain ⟨hcur',l,hl,ht,hs⟩ := ih (s := s.pollUnschedCtrlQueue p rounds) (by rw [hcur, hc])
    obtain ⟨l₁,hl₁,ht₁,hs₁⟩ := poll_effect p rounds hc
    refine ⟨hcur'.trans hcur,l₁ ++ l,?_,fun h op ho => ?_,fun h => ?_⟩
    · rw [List.foldl_cons, hl, hl₁, List.append_assoc]
    · rw [List.forall_mem_cons] at h
      exact (List.mem_append.1 ho).elim (ht₁ h.1 op) (ht h.2 op)
    · rw [List.forall_mem_cons, not_and_or] at h
      rcases h with h | h
      · obtain ⟨op,ho,hop⟩ := hs₁ h
        exact ⟨op,List.mem_append_left _ ho,hop⟩
      · obtain ⟨op,ho,hop⟩ := hs h
        exact ⟨op,List.mem_append_right _ ho,hop⟩

/-- The operations of the rest of the receive. -/
def opsOfRest (p : CtrlPoll) (s : Locm) (polls : List (List Round)) (atReturn : Counts → Counts) :
    List WordOp :=
  (restOfReceive p { s with ops := [] } polls atReturn).ops

/-- The outer group is left alone exactly when no poll starts with an event that has
no group: for that event the outer group is decremented. -/
theorem outer_untouched_iff (p : CtrlPoll) (s : Locm) (polls : List (List Round))
    (atReturn : Counts → Counts) (hc : s.current.egrpElem = some g) :
    OuterUntouched g s.current.rcvMultiCnt (opsOfRest p s polls atReturn) ↔
      ∀ rounds ∈ polls, FirstTagged rounds := by
  obtain ⟨hcur,l,hl,ht,hs⟩ := polls_effect (s := { s with ops := [] }) p polls hc
  obtain ⟨old,new,hret⟩ := countDecrementCurrent_some
    (s := (polls.foldl (pollUnschedCtrlQueue p) { s with ops := [] }).interfere atReturn)
    (n := s.current.rcvMultiCnt) (e := none) (by rw [← hc]; exact congrArg _ hcur)
  have hops : opsOfRest p s polls atReturn =
      l ++ [⟨.post,g,s.current.rcvMultiCnt,old,new,none⟩] := by
    rw [opsOfRest, restOfReceive, hret]
    simp only [interfere, hl, List.nil_append]
  have hlast : ¬WordOp.Tagged ⟨.post,g,s.current.rcvMultiCnt,old,new,none⟩ := by
    rintro ⟨_,h,_⟩; cases h
  have honce : ((opsOfRest p s polls atReturn).filter fun op =>
      op.kind = .post ∧ op.egrpElem = g ∧ ¬op.Tagged).map (·.decr) =
      (l.filter fun op => op.kind = .post ∧ op.egrpElem = g ∧ ¬op.Tagged).map (·.decr) ++
        [s.current.rcvMultiCnt] := by
    simp [hops, hlast]
  constructor
  · intro h
    by_contra hn
    obtain ⟨op,ho,hop⟩ := hs hn
    have hnil := honce.symm.trans h.once
    rw [List.append_left_eq_self, List.map_eq_nil_iff, List.filter_eq_nil_iff] at hnil
    exact hnil op ho (decide_eq_true hop)
  · intro h
    have htag := ht h
    refine ⟨fun op ho _ _ hev => ?_,fun op ho hev => ?_,?_⟩
    · rw [hops] at ho
      rcases List.mem_append.1 ho with ho | ho
      · exact htag op ho
      · simp [List.mem_singleton.1 ho] at hev
    · rw [hops] at ho
      rcases List.mem_append.1 ho with ho | ho
      · obtain ⟨egrp,he,hg⟩ := htag op ho
        rw [hev] at he
        cases he
        rw [eventGroupElemGet_undef] at hg
        cases hg
      · simp [List.mem_singleton.1 ho] at hev
    · rw [honce, List.append_left_eq_self, List.map_eq_nil_iff, List.filter_eq_nil_iff]
      intro op ho hop
      exact (of_decide_eq_true hop).2.2 (htag op ho)

end Locm

/-- One of two events of group 0 is being received, the other is still queued. -/
private def receiving : Locm where
  counts := fun _ => ⟨1,2,true,1⟩
  current := ⟨.parallel,1,some 7,some 7,some ⟨0,by decide⟩,1⟩

private def queues : CtrlPoll := ⟨1,2⟩

theorem outer_untouched_iff_tagged :
    OuterUntouched ⟨0,by decide⟩ 1 (Locm.opsOfRest queues receiving [[⟨[⟨1,1,id,id⟩],[]⟩]] id) :=
  (Locm.outer_untouched_iff queues receiving _ id rfl).2 (by decide)

/-- A poll whose first event is an untagged one, such as `EM_INTERNAL_DONE`: the group
completes before its other event has been received. -/
theorem outer_decremented_twice :
    ¬OuterUntouched ⟨0,by decide⟩ 1
      (Locm.opsOfRest queues receiving [[⟨[⟨emEventGroupUndef,0,id,id⟩],[]⟩]] id) ∧
    (Locm.restOfReceive queues receiving [[⟨[⟨emEventGroupUndef,0,id,id⟩],[]⟩]] id).counts
      ⟨0,by decide⟩ = ⟨1,0,false,1⟩ :=
  ⟨fun h => absurd h.once (by decide),by decide⟩

end EmOdp.EventGroup.ControlPoll
