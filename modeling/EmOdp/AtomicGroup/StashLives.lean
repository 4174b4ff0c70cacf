import EmOdp.AtomicGroup.Stashes

/-! The life of an atomic group: its stashes are made when it begins and destroyed when it ends. -/
namespace EmOdp.AtomicGroup.Stashes
open Lib

/-- How many events the calls of `odp_stash_get_u64` return. -/
def returned : List Int → Nat
  | [] => 0
  | cnt :: gets => if cnt ≤ 0 then 0 else cnt.toNat + returned gets

theorem flushLoop_nil {ε : Type} (gets : List Int) : flushLoop gets ([] : List ε) = ([],[]) := by
  induction gets with
  | nil => rfl
  | cons cnt gets ih =>
    rw [flushLoop]
    split
    · rfl
    · rw [List.drop_nil, ih, List.take_nil]
      rfl

theorem flushLoop_all {ε : Type} {gets : List Int} {events : List ε}
    (h : events.length ≤ returned gets) : flushLoop gets events = (events,[]) := by
  induction gets generalizing events with
  | nil =>
    obtain rfl := List.length_eq_zero_iff.1 (Nat.le_zero.1 h)
    rfl
  | cons cnt gets ih =>
    rw [returned] at h
    rw [flushLoop]
    split
    · rename_i hcnt
      rw [if_pos hcnt] at h
      obtain rfl := List.length_eq_zero_iff.1 (Nat.le_zero.1 h)
      rfl
    · rename_i hcnt
      rw [if_neg hcnt] at h
      have hrest : (events.drop cnt.toNat).length ≤ returned gets := by
        rw [List.length_drop]
        omega
      rw [ih hrest]
      exact congrArg (fun taken => (taken,[])) (List.take_append_drop cnt.toNat events)

variable {α γ H ε : Type} [DecidableEq α] [DecidableEq H]

namespace State
variable (s t : State α γ H ε)

/-- The group is in its `n`-th life. -/
def Ongoing (a : α) (n : Nat) : Prop := (s.elem a).allocated = true ∧ n = s.life a

/-- The events that a group has stashed. -/
def eventsOf (a : α) (hi : Bool) : List ε := ((s.stashOf a hi).map s.eventsIn).getD []

/-- A stash made for an atomic group is one of its two while that life of the group goes on, and
has been destroyed once, in that life, when it is over. -/
structure Managed : Prop where
  ongoing : ∀ r ∈ s.stashes, ∀ a n, r.payload.owner = some (a,n) → s.Ongoing a n →
    r.destroyedBy = [] ∧ ∃ hi, s.stashOf a hi = some r.handle
  ended : ∀ r ∈ s.stashes, ∀ a n, r.payload.owner = some (a,n) → ¬s.Ongoing a n →
    r.destroyedBy = [some (a,n)]

/-- What a create leaves that returns `EM_ATOMIC_GROUP_UNDEF`: every element is in the pool as
before, and every stash is one that was there before or is destroyed. -/
structure NothingLeft : Prop where
  pool : ∀ a, (t.elem a).allocated = (s.elem a).allocated
  kept : ∀ r ∈ s.stashes, r ∈ t.stashes
  destroyed : ∀ r ∈ t.stashes, r ∈ s.stashes ∨ r.destroyedBy ≠ []
  freed : t.freed = s.freed

/-- The group is freed, and both of its stashes are destroyed in its life. -/
def Deletes (a : α) : Prop :=
  (s.elem a).allocated = true ∧ (t.elem a).allocated = false ∧
    ∀ hi, ∃ h r, s.stashOf a hi = some h ∧ t.stashes.behind h = some r ∧
      r.destroyedBy = [some (s.owner a)]

/-- A call does what it reports. -/
def CallExact (cfg : Config) : Label α γ H ε → Prop
  | .create name queueGroup o =>
    (s.emAtomicGroupCreate cfg name queueGroup o).2 = none →
      s.NothingLeft (s.emAtomicGroupCreate cfg name queueGroup o).1
  | .delete atomicGroup hi lo =>
    let r := s.emAtomicGroupDelete atomicGroup hi lo
    (r.2 = .ok ↔ ∃ a, atomicGroup = some a ∧ s.Deletes r.1 a) ∧
      ∀ a, atomicGroup = some a → r.2 = .ok →
        r.1.freed = s.freed ++ s.eventsOf a true ++ s.eventsOf a false
  | _ => True

/-- The capability query does not fail for an element that has had a stash before, ODP destroys
the stash of a create that fails and both stashes of a delete, and a delete gets every event. -/
def Clean : Label α γ H ε → Prop
  | .create _ queueGroup o => queueGroup.isSome → ∀ a ∈ o.alloc,
    if o.maxNum = none then (s.elem a).hiPrio = none ∧ (s.elem a).loPrio = none
    else (o.hiPrio.isSome → o.loPrio = none → o.hiFlush.destroyed = true) ∧
      (o.loPrio.isSome → o.hiPrio = none → o.loFlush.destroyed = true)
  | .delete atomicGroup hi lo => ∀ a ∈ atomicGroup, (s.elem a).qlist = 0 → (s.elem a).allocated = true →
    hi.destroyed = true ∧ lo.destroyed = true ∧ (s.eventsOf a true).length ≤ returned hi.gets ∧
      (s.eventsOf a false).length ≤ returned lo.gets
  | _ => True

instance (l : Label α γ H ε) : Decidable (s.Clean l) :=
  match l with
  | .create _ queueGroup o => inferInstanceAs (Decidable (queueGroup.isSome → ∀ a ∈ o.alloc,
      if o.maxNum = none then (s.elem a).hiPrio = none ∧ (s.elem a).loPrio = none
      else (o.hiPrio.isSome → o.loPrio = none → o.hiFlush.destroyed = true) ∧
        (o.loPrio.isSome → o.hiPrio = none → o.loFlush.destroyed = true)))
  | .delete atomicGroup hi lo => inferInstanceAs (Decidable (∀ a ∈ atomicGroup, (s.elem a).qlist = 0 →
      (s.elem a).allocated = true → hi.destroyed = true ∧ lo.destroyed = true ∧
        (s.eventsOf a true).length ≤ returned hi.gets ∧
          (s.eventsOf a false).length ≤ returned lo.gets))
  | .setQueues .. | .put .. | .take .. | .otherCreate .. | .otherDestroy .. => isTrue trivial

/-- The handle stands for a stash that was made in this life of the group. -/
def Holds (a : α) (h : H) : Prop :=
  ∃ r, s.stashes.behind h = some r ∧ r.payload.owner = some (s.owner a) ∧ r.destroyedBy = []

structure Inv : Prop extends s.Managed where
  ok : s.stashes.Ok
  bound : ∀ r ∈ s.stashes, ∀ a n, r.payload.owner = some (a,n) → n ≤ s.life a
  unused : ∀ a, (s.elem a).allocated = false → (s.elem a).qlist = 0
  held : ∀ a, (s.elem a).allocated = true → ∀ hi h, s.stashOf a hi = some h → s.Holds a h
  distinct : ∀ a, (s.elem a).allocated = true → ∀ h, s.stashOf a true = some h → s.stashOf a false ≠ some h

/-- Every group has both of its stashes. -/
def Complete : Prop := ∀ a, (s.elem a).allocated = true → ∀ hi, (s.stashOf a hi).isSome = true

/-- The stashes of some handles of a group are destroyed in its life, and no others. -/
structure Destroyed (a : α) (handles : H → Prop) : Prop where
  life : t.life = s.life
  stashes : Resources.Destroys Stash.owner s.stashes t.stashes handles (some (s.owner a))

/-- Stashes are made for the life of a group that goes on. -/
structure Created (a : α) (handles : H → Prop) : Prop where
  life : t.life = s.life
  stashes : Resources.Creates s.stashes t.stashes handles fun _ stash =>
    stash.owner = some (s.owner a) ∧ stash.events = []

/-- The stashes of the group. -/
def Handles (a : α) (k : H) : Prop := ∃ hi, s.stashOf a hi = some k

variable {s t} {a : α} {stash : Option H} {o hi lo : Flush}

omit [DecidableEq α] in
theorem Destroyed.trans {u : State α γ H ε} {first second : H → Prop} (h : Destroyed s t a first)
    (h' : Destroyed t u a second) (hdisj : ∀ k, first k → ¬second k) :
    Destroyed s u a fun k => first k ∨ second k := by
  have howner : t.owner a = s.owner a := Prod.ext rfl (congrFun h.life a)
  exact ⟨h'.life.trans h.life,h.stashes.trans (howner ▸ h'.stashes) hdisj⟩

omit [DecidableEq α] in
theorem agStashDestroy_elem : (s.agStashDestroy a stash o).1.elem = s.elem := by
  cases stash with
  | none => rfl
  | some h =>
    rw [agStashDestroy]
    split <;> rfl

omit [DecidableEq α] in
theorem agStashDestroy_freed : (s.agStashDestroy a stash o).1.freed =
    s.freed ++ (flushLoop o.gets ((stash.map s.eventsIn).getD [])).1 := by
  cases stash with
  | none =>
    rw [Option.map_none, Option.getD_none, flushLoop_nil, List.append_nil]
    rfl
  | some h =>
    rw [agStashDestroy]
    split <;> rfl

/-- A stash with other events in it. -/
def refilled (events : List ε) (r : Resource H (Stash α ε) (Option (α × Nat))) :
    Resource H (Stash α ε) (Option (α × Nat)) :=
  { r with payload.events := events }

/-- A stash that is destroyed with `left` in it. -/
private def dead (left : List ε) (d : Option (α × Nat)) (r : Resource H (Stash α ε) (Option (α × Nat))) :
    Resource H (Stash α ε) (Option (α × Nat)) :=
  { r with payload.events := left, destroyedBy := r.destroyedBy ++ [d] }

omit [DecidableEq α] in
/-- A stash of the group is destroyed in its life. -/
theorem agStashDestroy_destroyed (hok : s.stashes.Ok) (hheld : ∀ h, stash = some h → s.Holds a h)
    (ho : stash.isSome = true → o.destroyed = true) :
    (s.agStashDestroy a stash o).2 = stash.isSome ∧
      Destroyed s (s.agStashDestroy a stash o).1 a (stash = some ·) := by
  cases stash with
  | none =>
    refine ⟨rfl,rfl,.none hok fun k hk => ?_⟩
    cases hk
  | some h =>
    obtain ⟨r,hr,-,halive⟩ := hheld h rfl
    rw [agStashDestroy, if_pos (ho rfl)]
    have hone := Resources.Destroys.one _ (d := some (s.owner a)) hok hr halive
      (f := dead (flushLoop o.gets (s.eventsIn h)).2 (some (s.owner a))) (fun _ => rfl) (fun _ => rfl)
      fun x => (rfl : x.payload.owner = _)
    have hstashes : ((s.stashes.change (refilled (flushLoop o.gets (s.eventsIn h)).2) h).destroy h
        (some (s.owner a))) = s.stashes.change (dead _ (some (s.owner a))) h :=
      Resources.change_change fun _ => rfl
    have hhandles : (h = ·) = (some h = some ·) := by
      funext k
      rw [Option.some.injEq]
    rw [← hstashes, hhandles] at hone
    exact ⟨rfl,rfl,hone⟩

omit [DecidableEq α] [DecidableEq H] in
theorem handles_or {k : H} :
    s.Handles a k ↔ (s.elem a).hiPrio = some k ∨ (s.elem a).loPrio = some k :=
  (Bool.exists_bool (p := fun hi => s.stashOf a hi = some k)).trans or_comm

omit [DecidableEq α] in
theorem Inv.handles_iff (h : s.Inv) (ha : (s.elem a).allocated = true)
    {r : Resource H (Stash α ε) (Option (α × Nat))} (hr : r ∈ s.stashes) (halive : r.destroyedBy = []) :
    s.Handles a r.handle ↔ r.payload.owner = some (s.owner a) := by
  constructor
  · rintro ⟨hi,hk⟩
    obtain ⟨r',hr',how,-⟩ := h.held a ha hi _ hk
    obtain rfl := Option.some.inj ((h.ok.behind_of_alive hr halive).symm.trans hr')
    exact how
  · intro how
    exact (h.ongoing r hr a _ how ⟨ha,rfl⟩).2

omit [DecidableEq α] in
/-- What is destroyed at the end of a life was made in it. -/
theorem Inv.mem_destroyed (h : s.Inv) (ha : (s.elem a).allocated = true)
    (hd : Destroyed s t a (s.Handles a)) {x : Resource H (Stash α ε) (Option (α × Nat))}
    (hx : x ∈ t.stashes) : x ∈ s.stashes ∧ (x.destroyedBy = [] → ¬s.Handles a x.handle) ∨
      s.Handles a x.handle ∧ x.payload.owner = some (s.owner a) ∧ x.destroyedBy = [some (s.owner a)] := by
  rcases hd.stashes.mem x hx with hx | ⟨⟨hi,hk⟩,hby,r,hr,hkey⟩
  · exact .inl hx
  · obtain ⟨r',hr',how,-⟩ := h.held a ha hi _ hk
    obtain rfl := Option.some.inj (hr.symm.trans hr')
    exact .inr ⟨⟨hi,hk⟩,hkey.symm.trans how,hby⟩

/-- The group ends its life with its stashes. -/
theorem Inv.ended_life (h : s.Inv) (ha : (s.elem a).allocated = true) {e : AtomicGroupElem γ H}
    (hd : Destroyed s t a (s.Handles a)) (helem : t.elem = Function.update s.elem a e)
    (he : e.allocated = false) (hq : e.qlist = 0) : t.Inv := by
  have hself : t.elem a = e := by rw [helem, Function.update_self]
  have hother {b : α} (hb : b ≠ a) : t.elem b = s.elem b := by rw [helem, Function.update_of_ne hb]
  have hne {b : α} (hb : (t.elem b).allocated = true) : b ≠ a := by
    rintro rfl
    rw [hself, he] at hb
    exact Bool.false_ne_true hb
  have halloc {b : α} (hb : (t.elem b).allocated = true) : (s.elem b).allocated = true := by
    rw [← hother (hne hb)]
    exact hb
  have hongoing {b : α} {n : Nat} : t.Ongoing b n ↔ b ≠ a ∧ s.Ongoing b n := by
    rw [Ongoing, Ongoing, hd.life]
    exact ⟨fun hb => ⟨hne hb.1,halloc hb.1,hb.2⟩,fun hb => ⟨(hother hb.1).symm ▸ hb.2.1,hb.2.2⟩⟩
  have hstash {b : α} {hi : Bool} (hb : b ≠ a) : t.stashOf b hi = s.stashOf b hi := by
    rw [stashOf, stashOf, hother hb]
  refine ⟨⟨fun x hx b n how hb => ?_,fun x hx b n how hb => ?_⟩,hd.stashes.ok,fun x hx b n how => ?_,
    fun b hb => ?_,fun b hb hi k hk => ?_,fun b hb k hk => ?_⟩
  · obtain ⟨hba,hb⟩ := hongoing.1 hb
    rcases h.mem_destroyed ha hd hx with ⟨hxs,-⟩ | ⟨-,how',-⟩
    · obtain ⟨halive,hi,hk⟩ := h.ongoing x hxs b n how hb
      exact ⟨halive,hi,(hstash hba).trans hk⟩
    · exact absurd (congrArg Prod.fst (Option.some.inj (how.symm.trans how'))) hba
  · rcases h.mem_destroyed ha hd hx with ⟨hxs,hnot⟩ | ⟨-,how',hby⟩
    · by_cases hs : s.Ongoing b n
      · obtain rfl : b = a := not_not.1 fun hba => hb (hongoing.2 ⟨hba,hs⟩)
        obtain ⟨halive,hk⟩ := h.ongoing x hxs b n how hs
        exact absurd hk (hnot halive)
      · exact h.ended x hxs b n how hs
    · obtain ⟨rfl,rfl⟩ : b = a ∧ n = s.life a := Prod.mk.inj (Option.some.inj (how.symm.trans how'))
      exact hby
  · rw [hd.life]
    rcases h.mem_destroyed ha hd hx with ⟨hxs,-⟩ | ⟨-,how',-⟩
    · exact h.bound x hxs b n how
    · obtain ⟨rfl,rfl⟩ : b = a ∧ n = s.life a := Prod.mk.inj (Option.some.inj (how.symm.trans how'))
      exact Nat.le_refl _
  · by_cases hba : b = a
    · rw [hba, hself, hq]
    · rw [hother hba] at hb ⊢
      exact h.unused b hb
  · rw [hstash (hne hb)] at hk
    obtain ⟨r,hr,how,halive⟩ := h.held b (halloc hb) hi k hk
    obtain ⟨hrs,rfl⟩ := Resources.mem_of_behind hr
    have hnot : ¬s.Handles a r.handle := fun hc => hne hb
      (congrArg Prod.fst (Option.some.inj (how.symm.trans ((h.handles_iff ha hrs halive).1 hc))))
    refine ⟨r,(hd.stashes.other _ hnot).trans hr,how.trans ?_,halive⟩
    rw [owner, owner, hd.life]
  · rw [hstash (hne hb)] at hk ⊢
    exact h.distinct b (halloc hb) k hk

/-- The state in which `ag_stash_destroy` has run for both stashes. -/
def flushed (s : State α γ H ε) (a : α) (hi lo : Flush) : State α γ H ε :=
  ((s.agStashDestroy a (s.elem a).hiPrio hi).1.agStashDestroy a (s.elem a).loPrio lo).1

/-- A delete that is not rejected reports the free of the element only. -/
theorem emAtomicGroupDelete_eq (ha : (s.elem a).allocated = true) (hq : (s.elem a).qlist = 0) :
    s.emAtomicGroupDelete (some a) hi lo =
      ((flushed s a hi lo).setElem a { s.elem a with allocated := false, queueGroup := none, name := [] },
        .ok) := by
  have helem : (flushed s a hi lo).elem = s.elem := agStashDestroy_elem.trans agStashDestroy_elem
  have hstate : (((flushed s a hi lo).setElem a { (flushed s a hi lo).elem a with
      queueGroup := none, name := [] }).atomicGroupFree a).1 =
      (flushed s a hi lo).setElem a { s.elem a with allocated := false, queueGroup := none, name := [] } := by
    simp only [atomicGroupFree, setElem, Function.update_self, Function.update_idem, helem]
  rw [emAtomicGroupDelete, if_neg (not_or.2 ⟨not_not.2 hq,fun hc => Bool.false_ne_true (hc.symm.trans ha)⟩)]
  dsimp only
  rw [← hstate]
  exact ite_self _

omit [DecidableEq α] in
theorem Inv.delete_clean (h : s.Inv) (ha : (s.elem a).allocated = true)
    (hhi : (s.elem a).hiPrio.isSome = true → hi.destroyed = true)
    (hlo : (s.elem a).loPrio.isSome = true → lo.destroyed = true) :
    Destroyed s (flushed s a hi lo) a (s.Handles a) ∧ (flushed s a hi lo).freed =
      s.freed ++ (flushLoop hi.gets (s.eventsOf a true)).1 ++ (flushLoop lo.gets (s.eventsOf a false)).1 := by
  have hfirst := (agStashDestroy_destroyed h.ok (h.held a ha true) hhi).2
  have hother (k : H) (hk : (s.elem a).loPrio = some k) :
      (s.agStashDestroy a (s.elem a).hiPrio hi).1.stashes.behind k = s.stashes.behind k :=
    hfirst.stashes.other k fun hc => h.distinct a ha k hc hk
  have hsecond := (agStashDestroy_destroyed (o := lo) (a := a) hfirst.stashes.ok (fun k hk => ?_) hlo).2
  · have hhandles : (fun k => (s.elem a).hiPrio = some k ∨ (s.elem a).loPrio = some k) = s.Handles a := by
      funext k
      exact propext (or_comm.trans (Bool.exists_bool (p := fun hi => s.stashOf a hi = some k)).symm)
    have hevents : ((s.elem a).loPrio.map (s.agStashDestroy a (s.elem a).hiPrio hi).1.eventsIn).getD [] =
        s.eventsOf a false := by
      rw [eventsOf, show s.stashOf a false = (s.elem a).loPrio from rfl]
      cases hk : (s.elem a).loPrio with
      | none => rfl
      | some k =>
        rw [Option.map_some, Option.map_some, eventsIn, hother k hk]
        rfl
    refine ⟨hhandles ▸ hfirst.trans hsecond fun k hk => h.distinct a ha k hk,?_⟩
    rw [flushed, agStashDestroy_freed, agStashDestroy_freed, hevents]
    rfl
  · obtain ⟨r,hr,how,halive⟩ := h.held a ha false k hk
    refine ⟨r,(hother k hk).trans hr,how.trans ?_,halive⟩
    rw [owner, owner, hfirst.life]

omit [DecidableEq α] in
theorem Created.trans {u : State α γ H ε} {first second : H → Prop} (h : Created s t a first)
    (h' : Created t u a second) (hdisj : ∀ k, first k → ¬second k) :
    Created s u a fun k => first k ∨ second k := by
  have howner : t.owner a = s.owner a := Prod.ext rfl (congrFun h.life a)
  exact ⟨h'.life.trans h.life,h.stashes.trans (howner ▸ h'.stashes) hdisj⟩

omit [DecidableEq α] in
theorem odpStashCreate_created (numObj : Nat) (hok : s.stashes.Ok)
    (hfree : ∀ h ∈ stash, s.stashes.Free h) :
    Created s (s.odpStashCreate stash numObj (some (s.owner a))) a (stash = some ·) := by
  cases stash with
  | none =>
    refine ⟨rfl,.none hok fun k hk => ?_⟩
    cases hk
  | some h =>
    have hhandles : (h = ·) = (some h = some ·) := by
      funext k
      rw [Option.some.injEq]
    exact ⟨rfl,hhandles ▸ .one _ hok (hfree h rfl) ⟨rfl,rfl⟩⟩

/-- A new life of a group begins, with the stashes that have been made for it. -/
theorem Inv.begun_life (h : s.Inv) (ha : (s.elem a).allocated = false) {e : AtomicGroupElem γ H}
    {u : State α γ H ε} (hstashes : u.stashes = s.stashes)
    (hlife : u.life = Function.update s.life a (s.life a + 1)) (hc : Created u t a (t.Handles a))
    (helem : t.elem = Function.update s.elem a e) (he : e.allocated = true)
    (hdistinct : ∀ k, e.hiPrio = some k → e.loPrio ≠ some k)
    (hhandles : ∀ k, t.Handles a k → s.stashes.Free k) : t.Inv := by
  have howner : u.owner a = (a,s.life a + 1) := by rw [owner, hlife, Function.update_self]
  have hself : t.elem a = e := by rw [helem, Function.update_self]
  have hother {b : α} (hb : b ≠ a) : t.elem b = s.elem b := by rw [helem, Function.update_of_ne hb]
  have hlifeOther {b : α} (hb : b ≠ a) : t.life b = s.life b := by
    rw [hc.life, hlife, Function.update_of_ne hb]
  have hlifeSelf : t.life a = s.life a + 1 := by rw [hc.life, hlife, Function.update_self]
  have hstash {b : α} {hi : Bool} (hb : b ≠ a) : t.stashOf b hi = s.stashOf b hi := by
    rw [stashOf, stashOf, hother hb]
  -- the stashes of earlier lives of the group are over, before and after
  have hongoing {x : Resource H (Stash α ε) (Option (α × Nat))} (hx : x ∈ s.stashes) {b : α} {n : Nat}
      (how : x.payload.owner = some (b,n)) : t.Ongoing b n ↔ b ≠ a ∧ s.Ongoing b n := by
    by_cases hb : b = a
    · obtain rfl := hb
      have hn := h.bound x hx b n how
      refine iff_of_false (fun hc => ?_) fun hc => hc.1 rfl
      have := hlifeSelf ▸ hc.2
      omega
    · rw [Ongoing, Ongoing, hother hb, hlifeOther hb]
      exact ⟨fun hc => ⟨hb,hc⟩,And.right⟩
  refine ⟨⟨fun x hx b n how hb => ?_,fun x hx b n how hb => ?_⟩,hc.stashes.ok,fun x hx b n how => ?_,
    fun b hb => ?_,fun b hb hi k hk => ?_,fun b hb k hk => ?_⟩
  · rcases hc.stashes.mem x hx with hxu | ⟨hk,halive,how',-⟩
    · have hxs := hstashes ▸ hxu
      obtain ⟨hba,hb⟩ := (hongoing hxs how).1 hb
      obtain ⟨halive,hi,hk⟩ := h.ongoing x hxs b n how hb
      exact ⟨halive,hi,(hstash hba).trans hk⟩
    · rw [howner] at how'
      obtain ⟨rfl,rfl⟩ := Prod.mk.inj (Option.some.inj (how.symm.trans how'))
      exact ⟨halive,hk⟩
  · rcases hc.stashes.mem x hx with hxu | ⟨hk,-,how',-⟩
    · have hxs := hstashes ▸ hxu
      refine h.ended x hxs b n how fun hs => hb ((hongoing hxs how).2 ⟨?_,hs⟩)
      rintro rfl
      exact Bool.false_ne_true (ha.symm.trans hs.1)
    · rw [howner] at how'
      obtain ⟨rfl,rfl⟩ := Prod.mk.inj (Option.some.inj (how.symm.trans how'))
      exact absurd ⟨hself.symm ▸ he,hlifeSelf.symm⟩ hb
  · rcases hc.stashes.mem x hx with hxu | ⟨hk,-,how',-⟩
    · have hn := h.bound x (hstashes ▸ hxu) b n how
      by_cases hb : b = a
      · obtain rfl := hb
        rw [hlifeSelf]
        exact Nat.le_succ_of_le hn
      · rwa [hlifeOther hb]
    · rw [howner] at how'
      obtain ⟨rfl,rfl⟩ := Prod.mk.inj (Option.some.inj (how.symm.trans how'))
      exact Nat.le_of_eq hlifeSelf.symm
  · by_cases hba : b = a
    · rw [hba, hself, he] at hb
      exact absurd hb.symm Bool.false_ne_true
    · rw [hother hba] at hb ⊢
      exact h.unused b hb
  · by_cases hba : b = a
    · obtain rfl := hba
      obtain ⟨r,hr,halive,how,-⟩ := hc.stashes.self k ⟨hi,hk⟩
      refine ⟨r,hr,how.trans ?_,halive⟩
      rw [owner, owner, hc.life]
    · rw [hstash hba] at hk
      obtain ⟨r,hr,how,halive⟩ := h.held b (hother hba ▸ hb) hi k hk
      have hnot : ¬t.Handles a k := fun hc => hhandles k hc r hr halive
      refine ⟨r,(hc.stashes.other k hnot).trans (hstashes ▸ hr),how.trans ?_,halive⟩
      rw [owner, owner, hlifeOther hba]
  · by_cases hba : b = a
    · obtain rfl := hba
      rw [stashOf, hself] at hk ⊢
      exact hdistinct k hk
    · rw [hstash hba] at hk ⊢
      exact h.distinct b (hother hba ▸ hb) k hk

/-- A delete that is not rejected ends the life of the group. -/
theorem Inv.delete (h : s.Inv) (ha : (s.elem a).allocated = true) (hq : (s.elem a).qlist = 0)
    (hhi : (s.elem a).hiPrio.isSome = true → hi.destroyed = true)
    (hlo : (s.elem a).loPrio.isSome = true → lo.destroyed = true) :
    (s.emAtomicGroupDelete (some a) hi lo).1.Inv ∧
      Destroyed s (s.emAtomicGroupDelete (some a) hi lo).1 a (s.Handles a) := by
  have hd := (h.delete_clean ha hhi hlo).1
  have helem : (flushed s a hi lo).elem = s.elem := agStashDestroy_elem.trans agStashDestroy_elem
  rw [emAtomicGroupDelete_eq ha hq]
  have hsame : Destroyed s ((flushed s a hi lo).setElem a
      { s.elem a with allocated := false, queueGroup := none, name := [] }) a (s.Handles a) :=
    ⟨hd.life,hd.stashes⟩
  exact ⟨h.ended_life ha hsame (congrArg (Function.update · a _) helem) rfl hq,hsame⟩

/-- The state after `atomic_group_alloc`, with the element as it is set up. -/
private def newLife (s : State α γ H ε) (a : α) (e : AtomicGroupElem γ H) : State α γ H ε :=
  { s.setElem a e with life := Function.update s.life a (s.life a + 1) }

variable (hi lo) in
/-- A group is deleted again right after its stashes have been made. -/
private theorem Inv.nothingLeft {e e' : AtomicGroupElem γ H} (h : t.Inv)
    (ha : (s.elem a).allocated = false) (he : e.allocated = true) (hq : e.qlist = 0)
    (helem : t.elem = Function.update s.elem a e) (hfreed : t.freed = s.freed)
    (hc : Created (newLife s a e') t a (t.Handles a)) (hhandles : ∀ k, t.Handles a k → s.stashes.Free k)
    (hok : s.stashes.Ok) (hhi : e.hiPrio.isSome = true → hi.destroyed = true)
    (hlo : e.loPrio.isSome = true → lo.destroyed = true) :
    s.NothingLeft (t.emAtomicGroupDelete (some a) hi lo).1 := by
  have hself : t.elem a = e := by rw [helem, Function.update_self]
  rw [← hself] at he hq hhi hlo
  have hd := (h.delete he hq hhi hlo).2
  have hundone := hc.stashes.undone hd.stashes hok hhandles
  have hevents (b : Bool) : t.eventsOf a b = [] := by
    rw [eventsOf]
    cases hk : t.stashOf a b with
    | none => rfl
    | some k =>
      obtain ⟨r,hr,-,-,hr'⟩ := hc.stashes.self k ⟨b,hk⟩
      rw [Option.map_some, eventsIn, hr]
      exact hr'
  refine ⟨fun b => ?_,fun x hx => ?_,fun x hx => ?_,?_⟩
  · rw [emAtomicGroupDelete_eq he hq]
    simp only [setElem, flushed, agStashDestroy_elem]
    by_cases hb : b = a
    · rw [hb, Function.update_self, ha]
    · rw [Function.update_of_ne hb, helem, Function.update_of_ne hb]
  · exact hundone.1 x hx
  · refine (hundone.2 x hx).imp_right fun hby => ?_
    rw [hby.1]
    exact List.cons_ne_nil _ _
  · rw [emAtomicGroupDelete_eq he hq]
    refine (h.delete_clean he hhi hlo).2.trans ?_
    rw [hevents, hevents, flushLoop_nil, flushLoop_nil, List.append_nil, List.append_nil, hfreed]

variable {cfg : Config} {name : Option (List UInt8)} {queueGroup : Option γ} {answers : Answers α H}

/-- The element of a group that is set up with these stashes. -/
private def ready (e : AtomicGroupElem γ H) (name : Option (List UInt8)) (group : γ) (hi lo : Option H) :
    AtomicGroupElem γ H :=
  { e with
    allocated := true
    queueGroup := some group
    name := (name.getD []).take (emAtomicGroupNameLen - 1)
    hiPrio := hi
    loPrio := lo }

/-- The state after both calls to `odp_stash_create`. -/
private def made (s : State α γ H ε) (a : α) (e : AtomicGroupElem γ H) (numObj : Nat) : State α γ H ε :=
  let u := newLife s a e
  ((u.odpStashCreate e.hiPrio numObj (some (u.owner a))).odpStashCreate e.loPrio numObj (some (u.owner a)))

omit [DecidableEq H] in
private theorem made_elem (a : α) (e : AtomicGroupElem γ H) (numObj : Nat) :
    (made s a e numObj).elem = Function.update s.elem a e := rfl

private theorem Inv.ofMade (h : s.Inv) (ha : (s.elem a).allocated = false) (e : AtomicGroupElem γ H)
    (numObj : Nat) (he : e.allocated = true) (hhi : ∀ k ∈ e.hiPrio, s.stashes.Free k)
    (hlo : ∀ k ∈ e.loPrio, s.stashes.Free k ∧ e.hiPrio ≠ some k) :
    (made s a e numObj).Inv ∧
      Created (newLife s a e) (made s a e numObj) a ((made s a e numObj).Handles a) ∧
      ∀ k, (made s a e numObj).Handles a k → s.stashes.Free k := by
  have hself : (made s a e numObj).elem a = e := Function.update_self ..
  have hfirst := odpStashCreate_created (a := a) (s := newLife s a e) numObj h.ok hhi
  have hsecond : Created _ (made s a e numObj) a (e.loPrio = some ·) := odpStashCreate_created numObj
    hfirst.stashes.ok fun k hk r hr => (hlo k hk).1 r ((hfirst.stashes.other k (hlo k hk).2).symm.trans hr)
  have hhandles : (fun k => e.hiPrio = some k ∨ e.loPrio = some k) = (made s a e numObj).Handles a := by
    funext k
    refine propext (Iff.trans ?_ handles_or.symm)
    rw [hself]
  have hc : Created (newLife s a e) (made s a e numObj) a ((made s a e numObj).Handles a) :=
    hhandles ▸ hfirst.trans hsecond fun k hk hk' => (hlo k hk').2 hk
  have hfree (k : H) (hk : (made s a e numObj).Handles a k) : s.stashes.Free k := by
    rw [← hhandles] at hk
    exact hk.elim (hhi k) fun hk => (hlo k hk).1
  exact ⟨h.begun_life (u := newLife s a e) ha rfl rfl hc rfl he
    (fun k hk hk' => (hlo k hk').2 hk) hfree,hc,hfree⟩

omit [DecidableEq H] in
private theorem alloc_eq (a : α) (group : γ) :
    (s.atomicGroupAlloc a).setElem a { (s.atomicGroupAlloc a).elem a with
      queueGroup := some group
      name := (name.getD []).take (emAtomicGroupNameLen - 1) } =
      newLife s a (ready (s.elem a) name group (s.elem a).hiPrio (s.elem a).loPrio) := by
  simp only [atomicGroupAlloc, setElem, newLife, ready, Function.update_self, Function.update_idem]

omit [DecidableEq H] in
private theorem made_eq (a : α) (group : γ) (numObj : Nat) (stashHi stashLo : Option H) :
    let u := newLife s a (ready (s.elem a) name group (s.elem a).hiPrio (s.elem a).loPrio)
    let v := (u.odpStashCreate stashHi numObj (some (u.owner a))).odpStashCreate stashLo
      numObj (some (u.owner a))
    v.setElem a { v.elem a with hiPrio := stashHi, loPrio := stashLo } =
      made s a (ready (s.elem a) name group stashHi stashLo) numObj := by
  simp only [newLife, made, setElem, odpStashCreate, ready, owner, Function.update_self,
    Function.update_idem]

omit [DecidableEq H] [DecidableEq α] in
theorem NothingLeft.refl : s.NothingLeft s := ⟨fun _ => rfl,fun _ hx => hx,fun _ hx => .inl hx,rfl⟩

variable (hi lo) in
/-- A group is deleted again with the stashes that could be made for it. -/
private theorem Inv.failed (h : s.Inv) (hcomplete : s.Complete) (ha : (s.elem a).allocated = false)
    (e : AtomicGroupElem γ H) (numObj : Nat) (he : e.allocated = true) (hq : e.qlist = 0)
    (hhi : ∀ k ∈ e.hiPrio, s.stashes.Free k) (hlo : ∀ k ∈ e.loPrio, s.stashes.Free k ∧ e.hiPrio ≠ some k)
    (hdHi : e.hiPrio.isSome = true → hi.destroyed = true)
    (hdLo : e.loPrio.isSome = true → lo.destroyed = true) :
    ((made s a e numObj).emAtomicGroupDelete (some a) hi lo).1.Inv ∧
      ((made s a e numObj).emAtomicGroupDelete (some a) hi lo).1.Complete ∧
      s.NothingLeft ((made s a e numObj).emAtomicGroupDelete (some a) hi lo).1 := by
  obtain ⟨hinv,hc,hfree⟩ := h.ofMade ha e numObj he hhi hlo
  have hnothing := hinv.nothingLeft hi lo ha he hq rfl rfl hc hfree h.ok hdHi hdLo
  have hself : (made s a e numObj).elem a = e := Function.update_self ..
  rw [← hself] at he hq hdHi hdLo
  refine ⟨(hinv.delete he hq hdHi hdLo).1,fun b hb hi' => ?_,hnothing⟩
  rw [hnothing.pool] at hb
  have hba : b ≠ a := by
    rintro rfl
    exact Bool.false_ne_true (ha.symm.trans hb)
  rw [emAtomicGroupDelete_eq he hq]
  simp only [stashOf, setElem, flushed, agStashDestroy_elem, made_elem, Function.update_of_ne hba]
  exact hcomplete b hb hi'

private theorem Inv.succeeded (h : s.Inv) (hcomplete : s.Complete) (ha : (s.elem a).allocated = false)
    (e : AtomicGroupElem γ H) (numObj : Nat) (he : e.allocated = true)
    (hhi : ∀ k ∈ e.hiPrio, s.stashes.Free k) (hlo : ∀ k ∈ e.loPrio, s.stashes.Free k ∧ e.hiPrio ≠ some k)
    (hboth : ¬(e.hiPrio = none ∨ e.loPrio = none)) :
    (made s a e numObj).Inv ∧ (made s a e numObj).Complete := by
  refine ⟨(h.ofMade ha e numObj he hhi hlo).1,fun b hb hi' => ?_⟩
  simp only [stashOf, made_elem] at hb ⊢
  by_cases hba : b = a
  · obtain rfl := hba
    rw [Function.update_self]
    obtain ⟨hbothHi,hbothLo⟩ := not_or.1 hboth
    cases hi' with
    | false => exact Option.isSome_iff_ne_none.2 hbothLo
    | true => exact Option.isSome_iff_ne_none.2 hbothHi
  · rw [Function.update_of_ne hba] at hb ⊢
    exact hcomplete b hb hi'

variable (cfg) in
/-- A create, and what a failing one leaves. -/
theorem Inv.create (h : s.Inv) (hcomplete : s.Complete) (hposs : s.Possible answers)
    (hclean : s.Clean (.create name queueGroup answers)) :
    (s.emAtomicGroupCreate cfg name queueGroup answers).1.Inv ∧
      (s.emAtomicGroupCreate cfg name queueGroup answers).1.Complete ∧
      ((s.emAtomicGroupCreate cfg name queueGroup answers).2 = none →
        s.NothingLeft (s.emAtomicGroupCreate cfg name queueGroup answers).1) := by
  cases queueGroup with
  | none => exact ⟨h,hcomplete,fun _ => .refl⟩
  | some group =>
    rcases answers with ⟨_ | a,maxNum,stashHi,stashLo,hi,lo⟩
    · exact ⟨h,hcomplete,fun _ => .refl⟩
    · obtain ⟨halloc,hhi,hlo⟩ := hposs
      have ha : (s.elem a).allocated = false := halloc a rfl
      have hq := h.unused a ha
      have hclean := hclean rfl a rfl
      cases maxNum with
      | none =>
        obtain ⟨hoHi,hoLo⟩ : (s.elem a).hiPrio = none ∧ (s.elem a).loPrio = none := hclean
        have halloc := @alloc_eq _ _ _ _ _ s name a group
        rw [hoHi, hoLo] at halloc
        obtain ⟨hinv,hcomp,hnothing⟩ := h.failed hi lo hcomplete ha
          (ready (s.elem a) name group none none) 0 rfl hq nofun nofun nofun nofun
        rw [emAtomicGroupCreate, createBody]
        simp only [halloc]
        exact ⟨hinv,hcomp,fun _ => hnothing⟩
      | some maxNum =>
        obtain ⟨hdHi,hdLo⟩ := (show (stashHi.isSome → stashLo = none → hi.destroyed = true) ∧
          (stashLo.isSome → stashHi = none → lo.destroyed = true) from hclean)
        rw [emAtomicGroupCreate, createBody]
        simp only [alloc_eq, made_eq]
        by_cases hfail : stashHi = none ∨ stashLo = none
        · obtain ⟨hinv,hcomp,hnothing⟩ := h.failed hi lo hcomplete ha
            (ready (s.elem a) name group stashHi stashLo) (cfg.numObj maxNum) rfl hq hhi hlo
            (fun hsome => hdHi hsome (hfail.resolve_left (Option.isSome_iff_ne_none.1 hsome)))
            fun hsome => hdLo hsome (hfail.resolve_right (Option.isSome_iff_ne_none.1 hsome))
          rw [if_pos hfail]
          exact ⟨hinv,hcomp,fun _ => hnothing⟩
        · obtain ⟨hinv,hcomp⟩ := h.succeeded hcomplete ha
            (ready (s.elem a) name group stashHi stashLo) (cfg.numObj maxNum) rfl hhi hlo hfail
          rw [if_neg hfail]
          exact ⟨hinv,hcomp,fun hc => absurd hc (Option.some_ne_none a)⟩

end State
end EmOdp.AtomicGroup.Stashes
