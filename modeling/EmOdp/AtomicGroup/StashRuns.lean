import EmOdp.AtomicGroup.StashLives

/-! The stashes of atomic groups over runs of creates and deletes. -/
namespace EmOdp.AtomicGroup.Stashes
open Lib
variable {α γ H ε : Type} [DecidableEq α] [DecidableEq H]

namespace State
variable {s t : State α γ H ε} {a : α} {hi lo : Flush} {cfg : Config}

/-- What deletes, queues, events and other components leave of the stashes of groups. -/
structure Same (s t : State α γ H ε) : Prop where
  life : t.life = s.life
  allocated : ∀ a, (t.elem a).allocated = (s.elem a).allocated
  stashes : ∀ a hi, t.stashOf a hi = s.stashOf a hi
  unused : ∀ a, (t.elem a).allocated = false → (t.elem a).qlist = (s.elem a).qlist
  ok : t.stashes.Ok
  mem : ∀ x ∈ t.stashes, ∀ o, x.payload.owner = some o →
    ∃ r ∈ s.stashes, r.payload.owner = some o ∧ r.handle = x.handle ∧ r.destroyedBy = x.destroyedBy
  holds : ∀ a k, s.Holds a k → t.Holds a k

omit [DecidableEq α] in
theorem Inv.same (h : s.Inv) (ht : Same s t) : t.Inv := by
  have hongoing {b : α} {n : Nat} : t.Ongoing b n ↔ s.Ongoing b n := by
    rw [Ongoing, Ongoing, ht.allocated, ht.life]
  refine ⟨⟨fun x hx b n how hb => ?_,fun x hx b n how hb => ?_⟩,ht.ok,fun x hx b n how => ?_,
    fun b hb => ?_,fun b hb hi k hk => ?_,fun b hb k hk => ?_⟩
  · obtain ⟨r,hr,how',hhandle,hby⟩ := ht.mem x hx _ how
    obtain ⟨halive,hi,hk⟩ := h.ongoing r hr b n how' (hongoing.1 hb)
    exact ⟨hby.symm.trans halive,hi,(ht.stashes b hi).trans (hhandle ▸ hk)⟩
  · obtain ⟨r,hr,how',-,hby⟩ := ht.mem x hx _ how
    exact hby.symm.trans (h.ended r hr b n how' (mt hongoing.2 hb))
  · obtain ⟨r,hr,how',-,-⟩ := ht.mem x hx _ how
    rw [ht.life]
    exact h.bound r hr b n how'
  · rw [ht.unused b hb]
    exact h.unused b ((ht.allocated b).symm.trans hb)
  · rw [ht.stashes] at hk
    exact ht.holds b k (h.held b ((ht.allocated b).symm.trans hb) hi k hk)
  · rw [ht.stashes] at hk ⊢
    exact h.distinct b ((ht.allocated b).symm.trans hb) k hk

omit [DecidableEq α] in
theorem Complete.same (h : s.Complete) (ht : Same s t) : t.Complete := by
  intro a ha hi
  rw [ht.stashes]
  exact h a ((ht.allocated a).symm.trans ha) hi

omit [DecidableEq α] in
theorem setEvents_same (hok : s.stashes.Ok) (k : H) (events : List ε) : Same s (s.setEvents k events) := by
  refine ⟨rfl,fun _ => rfl,fun _ _ => rfl,fun _ _ => rfl,hok.change (fun _ => rfl) fun _ hr => hr,
    fun x hx o how => ?_,fun b k' hb => ?_⟩
  · rcases Resources.mem_change hx with hx | ⟨r,hr,-,rfl⟩
    · exact ⟨x,hx,how,rfl,rfl⟩
    · exact ⟨r,hr,how,rfl,rfl⟩
  · obtain ⟨r,hr,how,halive⟩ := hb
    by_cases hk : k' = k
    · obtain rfl := hk
      have hself := Resources.behind_change_self (R := s.stashes) (h := k') (f := refilled events)
        fun _ => rfl
      rw [hr] at hself
      exact ⟨_,hself,how,halive⟩
    · exact ⟨r,(Resources.behind_change_ne (f := refilled events) (fun _ => rfl) hk).trans hr,how,halive⟩

theorem setQueues_same (hok : s.stashes.Ok) (n : Nat) (ha : (s.elem a).allocated = true) :
    Same s (s.setElem a { s.elem a with qlist := n }) := by
  have helem (b : α) : (Function.update s.elem a { s.elem a with qlist := n } b).allocated =
      (s.elem b).allocated := by
    by_cases hb : b = a
    · rw [hb, Function.update_self]
    · rw [Function.update_of_ne hb]
  refine ⟨rfl,helem,fun b hi => ?_,fun b hb => ?_,hok,fun x hx o how => ⟨x,hx,how,rfl,rfl⟩,
    fun _ _ hb => hb⟩
  · simp only [stashOf, setElem]
    by_cases hb : b = a
    · rw [hb, Function.update_self]
    · rw [Function.update_of_ne hb]
  · have hba : b ≠ a := by
      rintro rfl
      exact Bool.false_ne_true (hb.symm.trans ((helem b).trans ha))
    simp only [setElem, Function.update_of_ne hba]

omit [DecidableEq α] in
theorem otherCreate_same (hok : s.stashes.Ok) {k : H} (hfree : s.stashes.Free k) (numObj : Nat) :
    Same s (s.odpStashCreate (some k) numObj none) := by
  refine ⟨rfl,fun _ => rfl,fun _ _ => rfl,fun _ _ => rfl,hok.create hfree,fun x hx o how => ?_,
    fun b k' hb => ?_⟩
  · rcases List.mem_cons.1 hx with rfl | hx
    · cases how
    · exact ⟨x,hx,how,rfl,rfl⟩
  · obtain ⟨r,hr,how,halive⟩ := hb
    have hk : k' ≠ k := by
      rintro rfl
      exact hfree r hr halive
    exact ⟨r,(Resources.behind_create_ne hk).trans hr,how,halive⟩

omit [DecidableEq α] in
theorem otherDestroy_same (hok : s.stashes.Ok) {k : H} {r : Resource H (Stash α ε) (Option (α × Nat))}
    (hr : s.stashes.behind k = some r) (how : r.payload.owner = none) (halive : r.destroyedBy = []) :
    Same s (s.odpStashDestroy k none) := by
  refine ⟨rfl,fun _ => rfl,fun _ _ => rfl,fun _ _ => rfl,
    hok.change (fun _ => rfl) fun x hx hc => hx (List.append_eq_nil_iff.1 hc).1,fun x hx o how' => ?_,
    fun b k' hb => ?_⟩
  · rcases (hok.mem_change_iff hr halive).1 hx with rfl | ⟨hx,-⟩
    · exact absurd (how.symm.trans how') (Option.some_ne_none o).symm
    · exact ⟨x,hx,how',rfl,rfl⟩
  · obtain ⟨r',hr',how',halive'⟩ := hb
    have hk : k' ≠ k := by
      rintro rfl
      obtain rfl := Option.some.inj (hr.symm.trans hr')
      exact Option.some_ne_none _ (how'.symm.trans how)
    exact ⟨r',(Resources.behind_destroy_ne hk).trans hr',how',halive'⟩

theorem emAtomicGroupDelete_rejected (h : (s.elem a).qlist ≠ 0 ∨ (s.elem a).allocated = false) :
    s.emAtomicGroupDelete (some a) hi lo = (s,.badState) := by
  rw [emAtomicGroupDelete, if_pos h]

theorem Complete.delete (hcomplete : s.Complete) (ha : (s.elem a).allocated = true)
    (hq : (s.elem a).qlist = 0) : (s.emAtomicGroupDelete (some a) hi lo).1.Complete := by
  intro b hb hi'
  rw [emAtomicGroupDelete_eq ha hq] at hb ⊢
  simp only [stashOf, setElem, flushed, agStashDestroy_elem] at hb ⊢
  by_cases hba : b = a
  · rw [hba, Function.update_self] at hb
    exact absurd hb Bool.false_ne_true
  · rw [Function.update_of_ne hba] at hb ⊢
    exact hcomplete b hb hi'

/-- A delete reports success if and only if it deletes the group, and frees every event. -/
theorem Inv.delete_exact (h : s.Inv) (hcomplete : s.Complete) {atomicGroup : Option α}
    (hclean : s.Clean (.delete atomicGroup hi lo)) : s.CallExact cfg (.delete atomicGroup hi lo) := by
  cases atomicGroup with
  | none =>
    refine ⟨iff_of_false nofun ?_,nofun⟩
    rintro ⟨a,ha,-⟩
    cases ha
  | some a =>
    by_cases hrej : (s.elem a).qlist ≠ 0 ∨ (s.elem a).allocated = false
    · have hdel := @emAtomicGroupDelete_rejected _ _ _ _ _ _ s a hi lo hrej
      rw [CallExact, hdel]
      refine ⟨iff_of_false nofun ?_,nofun⟩
      rintro ⟨b,-,hb,hb',-⟩
      exact Bool.false_ne_true (hb'.symm.trans hb)
    · obtain ⟨hq,ha⟩ := not_or.1 hrej
      have hq := not_not.1 hq
      have ha := Bool.of_not_eq_false ha
      obtain ⟨hdHi,hdLo,hgetsHi,hgetsLo⟩ := hclean a rfl hq ha
      have hd := (h.delete ha hq (fun _ => hdHi) (fun _ => hdLo)).2
      have hfreed := (@Inv.delete_clean _ _ _ _ _ s a hi lo h ha (fun _ => hdHi) (fun _ => hdLo)).2
      rw [flushLoop_all hgetsHi, flushLoop_all hgetsLo] at hfreed
      have hdel := @emAtomicGroupDelete_eq _ _ _ _ _ _ s a hi lo ha hq
      refine ⟨iff_of_true (by rw [hdel]) ⟨a,rfl,ha,?_,fun b => ?_⟩,?_⟩
      · rw [hdel]
        simp only [setElem, Function.update_self]
      · obtain ⟨k,hk⟩ := Option.isSome_iff_exists.1 (hcomplete a ha b)
        obtain ⟨r,hr,hby⟩ := hd.stashes.self k ⟨b,hk⟩
        exact ⟨k,r,hk,hr,hby⟩
      · rintro b hb -
        obtain rfl := Option.some.inj hb
        rw [hdel]
        exact hfreed

theorem Inv.callExact (h : s.Inv) (hcomplete : s.Complete) {l : Label α γ H ε}
    (hst : s.step cfg l = some t) (hclean : s.Clean l) : s.CallExact cfg l := by
  cases l with
  | create name queueGroup o =>
    rw [step] at hst
    split at hst
    · rename_i hposs
      exact (h.create cfg hcomplete hposs hclean).2.2
    · cases hst
  | delete atomicGroup hi lo => exact h.delete_exact hcomplete hclean
  | setQueues => trivial
  | put => trivial
  | take => trivial
  | otherCreate => trivial
  | otherDestroy => trivial

theorem Inv.step (h : s.Inv) (hcomplete : s.Complete) {l : Label α γ H ε}
    (hst : s.step cfg l = some t) (hclean : s.Clean l) : t.Inv ∧ t.Complete := by
  cases l with
  | create name queueGroup o =>
    rw [State.step] at hst
    split at hst
    · rename_i hposs
      obtain rfl := Option.some.inj hst
      obtain ⟨hinv,hcomp,-⟩ := h.create cfg hcomplete hposs hclean
      exact ⟨hinv,hcomp⟩
    · cases hst
  | delete atomicGroup hi lo =>
    obtain rfl := Option.some.inj hst
    cases atomicGroup with
    | none => exact ⟨h,hcomplete⟩
    | some a =>
      by_cases hrej : (s.elem a).qlist ≠ 0 ∨ (s.elem a).allocated = false
      · rw [emAtomicGroupDelete_rejected hrej]
        exact ⟨h,hcomplete⟩
      · obtain ⟨hq,ha⟩ := not_or.1 hrej
        have hq := not_not.1 hq
        have ha := Bool.of_not_eq_false ha
        obtain ⟨hdHi,hdLo,-,-⟩ := hclean a rfl hq ha
        exact ⟨(h.delete ha hq (fun _ => hdHi) fun _ => hdLo).1,hcomplete.delete ha hq⟩
  | setQueues a n =>
    rw [State.step] at hst
    split at hst
    · rename_i ha
      obtain rfl := Option.some.inj hst
      have hsame := setQueues_same h.ok n ha
      exact ⟨h.same hsame,hcomplete.same hsame⟩
    · cases hst
  | put a hi event =>
    rw [State.step] at hst
    split at hst
    · obtain ⟨k,-,rfl⟩ := Option.map_eq_some_iff.1 hst
      have hsame := setEvents_same h.ok k (s.eventsIn k ++ [event])
      exact ⟨h.same hsame,hcomplete.same hsame⟩
    · cases hst
  | take a hi n =>
    rw [State.step] at hst
    split at hst
    · obtain ⟨k,-,rfl⟩ := Option.map_eq_some_iff.1 hst
      have hsame := setEvents_same h.ok k ((s.eventsIn k).drop n)
      exact ⟨h.same hsame,hcomplete.same hsame⟩
    · cases hst
  | otherCreate k numObj =>
    rw [State.step] at hst
    split at hst
    · rename_i hfree
      obtain rfl := Option.some.inj hst
      have hsame := otherCreate_same h.ok hfree numObj
      exact ⟨h.same hsame,hcomplete.same hsame⟩
    · cases hst
  | otherDestroy k =>
    rw [State.step] at hst
    obtain ⟨r,hr,hst⟩ := Option.bind_eq_some_iff.1 hst
    split at hst
    · rename_i hother
      obtain rfl := Option.some.inj hst
      have hsame := otherDestroy_same h.ok hr hother.1 hother.2
      exact ⟨h.same hsame,hcomplete.same hsame⟩
    · cases hst

omit [DecidableEq α] in
theorem Initial.inv (h : s.Initial) : s.Inv ∧ s.Complete := by
  obtain ⟨helem,-,hstashes,-⟩ := h
  have hnot {a : α} (ha : (s.elem a).allocated = true) : False := by
    rw [helem] at ha
    exact Bool.false_ne_true ha
  refine ⟨⟨⟨?_,?_⟩,?_,?_,fun a _ => ?_,fun a ha => (hnot ha).elim,fun a ha => (hnot ha).elim⟩,
    fun a ha => (hnot ha).elim⟩
  · rw [hstashes]
    exact fun _ hr => absurd hr List.not_mem_nil
  · rw [hstashes]
    exact fun _ hr => absurd hr List.not_mem_nil
  · rw [hstashes]
    exact Resources.ok_nil
  · rw [hstashes]
    exact fun _ hr => absurd hr List.not_mem_nil
  · rw [helem]

end State

/-- Every stash of an atomic group is destroyed once and in its own life, and every create and
delete does what it reports, as long as the capability query does not fail for an element that
has had stashes and ODP gives out and destroys what the calls ask it to. -/
theorem stashes_managed {cfg : Config} {s : State α γ H ε}
    (h : (system cfg).ReachableVia (fun s l _ => s.Clean l) s) :
    s.Managed ∧ ∀ l t, s.step cfg l = some t → s.Clean l → s.CallExact cfg l := by
  obtain ⟨hinv,hcomplete⟩ := h.invariant (I := fun s => s.Inv ∧ s.Complete)
    (fun _ hs => State.Initial.inv hs) fun _ _ _ hs hst hclean => hs.1.step hs.2 hst hclean
  exact ⟨hinv.toManaged,fun _ _ hst hclean => hinv.callExact hcomplete hst hclean⟩

private def odpConfig : Config := ⟨0,512⟩

private def emptyPool : State Bool Unit Nat Nat := ⟨fun _ => {},fun _ => 0,[],[]⟩

private theorem emptyPool_initial : emptyPool.Initial := ⟨fun _ => rfl,fun _ => rfl,rfl,rfl⟩

/-- A group is created, stashes an event and is deleted. -/
private def oneLife : Option (State Bool Unit Nat Nat) :=
  System.exec (State.step · odpConfig) (fun s l _ => decide (s.Clean l)) emptyPool
    [.create none (some ()) ⟨some false,some 512,some 0,some 1,{},{}⟩,.put false true 7,
      .delete (some false) ⟨[1,0],true⟩ ⟨[0],true⟩]

private theorem oneLife_isSome : oneLife.isSome = true := by decide

theorem stashes_managed_one_life : (oneLife.get oneLife_isSome).Managed ∧ ∀ l t,
    (oneLife.get oneLife_isSome).step odpConfig l = some t → (oneLife.get oneLife_isSome).Clean l →
      (oneLife.get oneLife_isSome).CallExact odpConfig l :=
  stashes_managed (System.ReachableVia.exec (fun _ _ _ => of_decide_eq_true) (.start emptyPool_initial)
    (Option.some_get oneLife_isSome).symm)

/-- The capability query fails for an element whose handles now stand for the stashes of another
group. -/
private def secondLife : Option (State Bool Unit Nat Nat) :=
  System.exec (State.step · odpConfig) (fun _ _ _ => true) emptyPool
    [.create none (some ()) ⟨some false,some 512,some 0,some 1,{},{}⟩,
      .delete (some false) {} {},
      .create none (some ()) ⟨some true,some 512,some 0,some 1,{},{}⟩,
      .create none (some ()) ⟨some false,none,none,none,{},{}⟩]

private theorem secondLife_isSome : secondLife.isSome = true := by decide

theorem failed_create_destroys_others : ¬∀ (cfg : Config) (s : State Bool Unit Nat Nat),
    (system cfg).Reachable s → s.Managed ∧ ∀ l t, s.step cfg l = some t → s.CallExact cfg l := by
  intro hall
  obtain ⟨hmanaged,-⟩ := hall odpConfig (secondLife.get secondLife_isSome)
    (System.ReachableVia.exec (fun _ _ _ _ => trivial) (.start emptyPool_initial)
      (Option.some_get secondLife_isSome).symm)
  have hmem : ⟨1,⟨512,some (true,1),[]⟩,[some (false,2)]⟩ ∈ (secondLife.get secondLife_isSome).stashes := by
    decide
  have hongoing : (secondLife.get secondLife_isSome).Ongoing true 1 :=
    ⟨by decide,by decide⟩
  exact absurd (hmanaged.ongoing _ hmem true 1 rfl hongoing).1 (List.cons_ne_nil _ _)

end EmOdp.AtomicGroup.Stashes
