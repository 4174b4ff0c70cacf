import EmOdp.EoQueues.Aggregators

/-! The lists of the EOs' queues: what is in them, and that every operation is made of changes
that keep it so. -/
namespace EmOdp.EoQueues
open Lib QueueTable
open EoStart (EoState)
variable {ι γ α ε ρ : Type}

/-- The binding is the one to EO `e` with the element `x`. -/
structure Binding.To (b : Binding ε ρ) (e : ε) (x : EoElem ι ρ) : Prop where
  eo : b.eo = some e
  eoElem : b.eoElem = some e
  maxEvents : b.maxEvents = x.maxEvents.setWidth 16
  useMultiRcv : b.useMultiRcv = x.useMultiRcv
  receive : b.receive = if x.useMultiRcv then x.receiveMultiFunc else x.receiveFunc
  eoCtx : b.eoCtx = x.eoCtx

theorem Binding.To.congr {b : Binding ε ρ} {e : ε} {x y : EoElem ι ρ} (h : b.To e x)
    (hxy : x.SameFields y) : b.To e y := by
  constructor
  · exact h.eo
  · exact h.eoElem
  · rw [hxy.maxEvents, h.maxEvents]
  · rw [hxy.useMultiRcv, h.useMultiRcv]
  · rw [hxy.useMultiRcv, hxy.receiveFunc, hxy.receiveMultiFunc, h.receive]
  · rw [hxy.eoCtx, h.eoCtx]

namespace State

/-- The queues that an EO can have are in its list from `EM_QUEUE_STATE_BIND` on. -/
structure Linked (s : State ι γ α ε ρ) : Prop where
  free : ∀ q, (s.tbl.elem q).allocated = false → (s.tbl.elem q).state = .invalid
  state : ∀ q, (s.tbl.elem q).allocated = true → ofEo (s.tbl.elem q).type = true →
    (s.tbl.elem q).state = .init ∨ Active (s.tbl.elem q).state
  mem : ∀ e q, q ∈ (s.eoElem e).queueList ↔ (s.binding q).eoElem = some e
  bound : ∀ q, (∃ e, (s.binding q).eoElem = some e) ↔
    ofEo (s.tbl.elem q).type = true ∧ Active (s.tbl.elem q).state
  unbound : ∀ q, (s.binding q).eoElem = none → (s.binding q).eo = none
  nodup : ∀ e, (s.eoElem e).queueList.Nodup
  binding : ∀ e, ∀ q ∈ (s.eoElem e).queueList, (s.binding q).To e (s.eoElem e)
  eo : ∀ e, (s.eoElem e).queueList ≠ [] → (s.eoElem e).allocated = true

variable {s t u : State ι γ α ε ρ} {e : ε} {q r : ι}

/-- Nothing that concerns the EO of the queue has changed. -/
structure SameQueue (s t : State ι γ α ε ρ) (q : ι) : Prop where
  allocated : (t.tbl.elem q).allocated = (s.tbl.elem q).allocated
  type : (t.tbl.elem q).type = (s.tbl.elem q).type
  state : (t.tbl.elem q).state = (s.tbl.elem q).state
  binding : t.binding q = s.binding q

/-- A queue that is in no list. -/
structure Unlinked (s : State ι γ α ε ρ) (q : ι) : Prop where
  free : (s.tbl.elem q).allocated = false → (s.tbl.elem q).state = .invalid
  state : (s.tbl.elem q).allocated = true → ofEo (s.tbl.elem q).type = true →
    (s.tbl.elem q).state = .init
  binding : (s.binding q).eo = none ∧ (s.binding q).eoElem = none

theorem Unlinked.not_active (h : s.Unlinked q) : ¬(ofEo (s.tbl.elem q).type = true ∧
    Active (s.tbl.elem q).state) := by
  rintro ⟨htype,hactive⟩
  cases halloc : (s.tbl.elem q).allocated with
  | true =>
    rw [h.state halloc htype] at hactive
    rcases hactive with hc | hc <;> cases hc
  | false =>
    rw [h.free halloc] at hactive
    rcases hactive with hc | hc <;> cases hc

theorem Linked.not_active_of_free (h : s.Linked) (hq : (s.tbl.elem q).allocated = false) :
    ¬Active (s.tbl.elem q).state := by
  rw [h.free q hq]
  rintro (hc | hc) <;> cases hc

theorem Linked.eoElem_none (h : s.Linked) (hq : ¬(ofEo (s.tbl.elem q).type = true ∧
    Active (s.tbl.elem q).state)) : (s.binding q).eoElem = none := by
  cases he : (s.binding q).eoElem with
  | none => rfl
  | some e => exact absurd ((h.bound q).1 ⟨e,he⟩) hq

/-- Only queues that are in no list, before and after, have changed. -/
theorem Linked.frame (h : s.Linked) (heo : t.eoElem = s.eoElem)
    (hq : ∀ q, SameQueue s t q ∨
      ¬(ofEo (s.tbl.elem q).type = true ∧ Active (s.tbl.elem q).state) ∧ t.Unlinked q) : t.Linked := by
  constructor
  · intro q halloc
    rcases hq q with hsame | ⟨-,ht⟩
    · rw [hsame.state]
      exact h.free q (hsame.allocated ▸ halloc)
    · exact ht.free halloc
  · intro q halloc htype
    rcases hq q with hsame | ⟨-,ht⟩
    · rw [hsame.state]
      exact h.state q (hsame.allocated ▸ halloc) (hsame.type ▸ htype)
    · exact .inl (ht.state halloc htype)
  · intro e q
    rw [heo, h.mem]
    rcases hq q with hsame | ⟨hs,ht⟩
    · rw [hsame.binding]
    · rw [h.eoElem_none hs, ht.binding.2]
  · intro q
    rcases hq q with hsame | ⟨-,ht⟩
    · rw [hsame.binding, hsame.type, hsame.state]
      exact h.bound q
    · rw [ht.binding.2]
      exact iff_of_false (fun ⟨_,hc⟩ => nomatch hc) ht.not_active
  · intro q hnone
    rcases hq q with hsame | ⟨-,ht⟩
    · rw [hsame.binding] at hnone ⊢
      exact h.unbound q hnone
    · exact ht.binding.1
  · rw [heo]
    exact h.nodup
  · intro e q hmem
    rw [heo] at hmem ⊢
    rcases hq q with hsame | ⟨hs,-⟩
    · rw [hsame.binding]
      exact h.binding e q hmem
    · exact absurd ((h.bound q).1 ⟨e,(h.mem e q).1 hmem⟩) hs
  · rw [heo]
    exact h.eo

variable [DecidableEq ι] [DecidableEq γ] [DecidableEq α] [DecidableEq ε]

omit [DecidableEq ε] in
theorem Linked.queueCreate {p : Create ι γ α} (h : s.Linked) (hfresh : s.tbl.Fresh q p)
    (hcheck : s.tbl.queueCreateCheckArgs p = true) : (s.queueCreate q p).Linked := by
  have hcreated := QueueTable.State.queueCreate_created hfresh hcheck
  rw [queueCreate_eq hcheck]
  refine h.frame rfl fun r => ?_
  by_cases hrq : r = q
  · subst hrq
    refine .inr ⟨fun hc => h.not_active_of_free hfresh.1 hc.2,⟨fun hfree => ?_,fun halloc htype => ?_,?_⟩⟩
    · rcases hcreated.result with ⟨ha,-⟩ | ⟨-,hstate,-⟩
      · cases ha.symm.trans hfree
      · exact hstate
    · rcases hcreated.result with ⟨-,hstate,-⟩ | ⟨ha,-⟩
      · rw [show ofEo (((s.tbl.queueCreate r p).1.elem r).type) = ofEo p.type by rw [hcreated.type]] at htype
        rw [hstate]
        cases hp : p.type <;> rw [hp] at htype <;> first | rfl | cases htype
      · cases ha.symm.trans halloc
    · dsimp only
      rw [if_pos (.inl rfl)]
      exact ⟨rfl,rfl⟩
  · by_cases hmem : r ∈ ((s.tbl.queueCreate q p).1.elem q).aggrQueues
    · obtain ⟨hfree,-,haggr,-⟩ := hcreated.aggr r hmem
      refine .inr ⟨fun hc => h.not_active_of_free hfree hc.2,⟨fun hno => ?_,fun _ htype => ?_,?_⟩⟩
      · cases haggr.allocated.symm.trans hno
      · change ofEo ((s.tbl.queueCreate q p).1.elem r).type = true at htype
        rw [haggr.type] at htype
        cases htype
      · dsimp only
        rw [if_pos (.inr hmem)]
        exact ⟨rfl,rfl⟩
    · have hsame := hcreated.other r hrq hmem
      exact .inl ⟨congrArg _ hsame,congrArg _ hsame,congrArg _ hsame,if_neg (not_or.2 ⟨hrq,hmem⟩)⟩

omit [DecidableEq γ] [DecidableEq α] [DecidableEq ε] in
theorem Linked.pktinEventQueue2em {type : QueueType} {g : γ} (h : s.Linked) (contextSetOk : Bool)
    (hq : (s.tbl.elem q).allocated = false) :
    (s.pktinEventQueue2em q type g contextSetOk).Linked := by
  refine h.frame rfl fun r => ?_
  by_cases hrq : r = q
  · subst hrq
    refine .inr ⟨fun hc => h.not_active_of_free hq hc.2,⟨fun hfree => ?_,fun halloc _ => ?_,?_⟩⟩
    · revert hfree
      cases contextSetOk <;> simp [State.pktinEventQueue2em, QueueTable.State.pktinEventQueue2em,
        QueueTable.State.queueSetupCommon, QueueTable.State.queueFree]
    · revert halloc
      cases contextSetOk <;> simp [State.pktinEventQueue2em, QueueTable.State.pktinEventQueue2em,
        QueueTable.State.queueSetupCommon, QueueTable.State.queueFree]
    · simp [State.pktinEventQueue2em]
  · have hsame : (s.pktinEventQueue2em q type g contextSetOk).tbl.elem r = s.tbl.elem r := by
      cases contextSetOk <;> simp [State.pktinEventQueue2em, QueueTable.State.pktinEventQueue2em,
        QueueTable.State.queueSetupCommon, QueueTable.State.queueFree, hrq]
    exact .inl ⟨congrArg _ hsame,congrArg _ hsame,congrArg _ hsame,Function.update_of_ne hrq _ _⟩

omit [DecidableEq ι] [DecidableEq γ] [DecidableEq α] [DecidableEq ε] in
/-- A queue that passes the checks of its delete is in no list. -/
theorem DeleteChecked.not_active (h : s.tbl.DeleteChecked q) :
    ¬(ofEo (s.tbl.elem q).type = true ∧ Active (s.tbl.elem q).state) := by
  rintro ⟨htype,hactive⟩
  have hinit : (s.tbl.elem q).state = .init := by
    refine check_invalid.1 (h.2.2 ?_ ?_) <;> intro hc <;> rw [hc] at htype <;> cases htype
  rw [hinit] at hactive
  rcases hactive with hc | hc <;> cases hc

omit [DecidableEq ε] in
theorem Linked.queueDelete (h : s.Linked) (q : ι) (destroyOk : ι → Bool) :
    (s.queueDelete q destroyOk).1.Linked := by
  refine h.frame rfl fun r => ?_
  rcases s.tbl.queueDelete_deleted q (destroyOk q) with ⟨-,argsEvent,helem⟩ | ⟨-,hcheck,hdel⟩
  · left
    have hr : (s.queueDelete q destroyOk).1.tbl.elem r =
        Function.update s.tbl.elem q { s.tbl.elem q with argsEvent } r := congrFun helem r
    by_cases hrq : r = q
    · subst hrq
      rw [Function.update_self] at hr
      constructor <;> first | rw [hr] | rfl
    · rw [Function.update_of_ne hrq] at hr
      constructor <;> first | rw [hr] | rfl
  · by_cases hrq : r = q
    · subst hrq
      have hnone := h.eoElem_none (DeleteChecked.not_active hcheck)
      refine .inr ⟨DeleteChecked.not_active hcheck,⟨fun _ => hdel.state,fun ha => ?_,?_⟩⟩
      · cases hdel.allocated.symm.trans ha
      · exact ⟨h.unbound r hnone,hnone⟩
    · rcases hdel.aggrOrOther r hrq with hsame | ⟨hfreed,haggr⟩
      · exact .inl ⟨congrArg _ hsame,congrArg _ hsame,congrArg _ hsame,rfl⟩
      · have hactive : ¬(ofEo (s.tbl.elem r).type = true ∧ Active (s.tbl.elem r).state) := by
          rw [haggr]
          exact fun hc => nomatch hc.1
        have hnone := h.eoElem_none hactive
        refine .inr ⟨hactive,⟨fun _ => congrArg QueueElem.state hfreed,fun ha => ?_,?_⟩⟩
        · cases (congrArg QueueElem.allocated hfreed).symm.trans ha
        · exact ⟨h.unbound r hnone,hnone⟩

omit [DecidableEq γ] [DecidableEq α] [DecidableEq ε] in
/-- A queue of an EO changes between enabled and disabled; its aggregator queues follow. -/
theorem Linked.setQueueState {state : QueueState} (h : s.Linked) (hf : s.Family) (hq : s.IsParent q)
    (hactive : Active (s.tbl.elem q).state) (hstate : Active state) :
    (s.setQueueState q state).Linked := by
  have helem : ∀ r, (s.setQueueState q state).tbl.elem r =
      if r = q ∨ r ∈ (s.tbl.elem q).aggrQueues then { s.tbl.elem r with state } else s.tbl.elem r :=
    fun _ => rfl
  have halloc : ∀ r, ((s.setQueueState q state).tbl.elem r).allocated = (s.tbl.elem r).allocated := by
    intro r
    rw [helem]
    split <;> rfl
  have htype : ∀ r, ((s.setQueueState q state).tbl.elem r).type = (s.tbl.elem r).type := by
    intro r
    rw [helem]
    split <;> rfl
  -- the queues that an EO can have
  have hswitch : ∀ r, ofEo (s.tbl.elem r).type = true →
      ((s.setQueueState q state).tbl.elem r).state = (s.tbl.elem r).state ∨
      Active ((s.setQueueState q state).tbl.elem r).state ∧ Active (s.tbl.elem r).state := by
    intro r hr
    rw [helem]
    split
    · rename_i hmem
      rcases hmem with rfl | hmem
      · exact .inr ⟨hstate,hactive⟩
      · rw [(hf.child q r hq hmem).elem.type] at hr
        cases hr
    · exact .inl rfl
  have hiff : ∀ r, ofEo (s.tbl.elem r).type = true →
      (Active ((s.setQueueState q state).tbl.elem r).state ↔ Active (s.tbl.elem r).state) := by
    intro r hr
    rcases hswitch r hr with heq | ⟨ht,hs⟩
    · rw [heq]
    · exact iff_of_true ht hs
  constructor
  · intro r hfree
    rw [halloc] at hfree
    rw [helem]
    split
    · rename_i hmem
      rcases hmem with rfl | hmem
      · cases hfree.symm.trans hq.1
      · cases hfree.symm.trans (hf.child q r hq hmem).elem.allocated
    · exact h.free r hfree
  · intro r hr hr'
    rw [halloc] at hr
    rw [htype] at hr'
    rcases hswitch r hr' with heq | ⟨ht,-⟩
    · rw [heq]
      exact h.state r hr hr'
    · exact .inr ht
  · exact h.mem
  · intro r
    refine (h.bound r).trans ?_
    rw [htype]
    exact and_congr_right fun hr => (hiff r hr).symm
  · exact h.unbound
  · exact h.nodup
  · exact h.binding
  · exact h.eo

omit [DecidableEq γ] [DecidableEq α] in
theorem Linked.eoAddQueue (h : s.Linked) (he : (s.eoElem e).allocated = true)
    (hq : (s.tbl.elem q).allocated = true) (htype : ofEo (s.tbl.elem q).type = true)
    (hstate : (s.tbl.elem q).state = .init) : (s.eoAddQueue e q).1.Linked := by
  have hnone : (s.binding q).eoElem = none := by
    refine h.eoElem_none fun hc => ?_
    rw [hstate] at hc
    rcases hc.2 with hc | hc <;> cases hc
  have hno : ∀ d, q ∉ (s.eoElem d).queueList := by
    intro d hmem
    cases ((h.mem d q).1 hmem).symm.trans hnone
  rw [eoAddQueue_ok hstate]
  constructor
  · intro r hfree
    by_cases hrq : r = q
    · subst hrq
      simp [hq] at hfree
    · simp only [QueueTable.State.elem_setElem, Function.update_of_ne hrq] at hfree ⊢
      exact h.free r hfree
  · intro r hr hr'
    by_cases hrq : r = q
    · subst hrq
      simp [Active]
    · simp only [QueueTable.State.elem_setElem, Function.update_of_ne hrq] at hr hr' ⊢
      exact h.state r hr hr'
  · intro d r
    by_cases hrq : r = q
    · subst hrq
      by_cases hd : d = e
      · subst hd
        simp
      · simp [hd, hno d, Ne.symm hd]
    · have hlist : r ∈ (Function.update s.eoElem e { s.eoElem e with
          queueList := (s.eoElem e).queueList ++ [q]
          numQueues := (s.eoElem e).numQueues + 1 } d).queueList ↔ r ∈ (s.eoElem d).queueList := by
        by_cases hd : d = e
        · subst hd
          simp [hrq]
        · simp [hd]
      simp only [Function.update_of_ne hrq]
      exact hlist.trans (h.mem d r)
  · intro r
    by_cases hrq : r = q
    · subst hrq
      simp [htype, Active]
    · simp only [QueueTable.State.elem_setElem, Function.update_of_ne hrq]
      exact h.bound r
  · intro r hr
    by_cases hrq : r = q
    · subst hrq
      simp at hr
    · simp only [Function.update_of_ne hrq] at hr ⊢
      exact h.unbound r hr
  · intro d
    by_cases hd : d = e
    · subst hd
      simp only [Function.update_self]
      exact List.nodup_append.2 ⟨h.nodup d,List.nodup_singleton q,fun a ha b hb => by
        rw [List.mem_singleton.1 hb]
        rintro rfl
        exact hno d ha⟩
    · simp only [Function.update_of_ne hd]
      exact h.nodup d
  · intro d r hr
    by_cases hrq : r = q
    · subst hrq
      by_cases hd : d = e
      · subst hd
        simp only [Function.update_self]
        exact ⟨rfl,rfl,rfl,rfl,rfl,rfl⟩
      · simp only [Function.update_of_ne hd] at hr
        exact absurd hr (hno d)
    · simp only [Function.update_of_ne hrq]
      by_cases hd : d = e
      · subst hd
        simp only [Function.update_self, List.mem_append, List.mem_singleton, hrq, or_false] at hr ⊢
        exact (h.binding d r hr).congr ⟨rfl,rfl,rfl,rfl,rfl,rfl⟩
      · simp only [Function.update_of_ne hd] at hr ⊢
        exact h.binding d r hr
  · intro d hne
    by_cases hd : d = e
    · subst hd
      simpa using he
    · simp only [Function.update_of_ne hd] at hne ⊢
      exact h.eo d hne

omit [DecidableEq γ] [DecidableEq α] in
theorem Linked.eoRemQueue (h : s.Linked) (hstate : (s.tbl.elem q).state = .bind) :
    (s.eoRemQueue e q).1.Linked := by
  rw [eoRemQueue_ok hstate]
  have halloc : (s.tbl.elem q).allocated = true := by
    refine Bool.eq_true_of_not_eq_false fun hfree => ?_
    cases hstate.symm.trans (h.free q hfree)
  constructor
  · intro r hfree
    by_cases hrq : r = q
    · subst hrq
      simp [halloc] at hfree
    · simp only [QueueTable.State.elem_setElem, Function.update_of_ne hrq] at hfree ⊢
      exact h.free r hfree
  · intro r hr hr'
    by_cases hrq : r = q
    · subst hrq
      simp
    · simp only [QueueTable.State.elem_setElem, Function.update_of_ne hrq] at hr hr' ⊢
      exact h.state r hr hr'
  · intro d r
    by_cases hrq : r = q
    · subst hrq
      simp [(h.nodup d).mem_erase_iff]
    · simp only [Function.update_of_ne hrq, List.mem_erase_of_ne hrq]
      exact h.mem d r
  · intro r
    by_cases hrq : r = q
    · subst hrq
      simp [Active]
    · simp only [QueueTable.State.elem_setElem, Function.update_of_ne hrq]
      exact h.bound r
  · intro r hr
    by_cases hrq : r = q
    · subst hrq
      simp
    · simp only [Function.update_of_ne hrq] at hr ⊢
      exact h.unbound r hr
  · exact fun d => (h.nodup d).erase q
  · intro d r hr
    have hrq : r ≠ q := ((h.nodup d).mem_erase_iff.1 hr).1
    simp only [Function.update_of_ne hrq]
    exact (h.binding d r (List.mem_of_mem_erase hr)).congr ⟨rfl,rfl,rfl,rfl,rfl,rfl⟩
  · intro d hne
    refine h.eo d fun hnil => hne ?_
    simp [hnil]

omit [DecidableEq ι] [DecidableEq γ] [DecidableEq α] in
theorem Linked.setEo {x : EoElem ι ρ} (h : s.Linked) (hlist : x.queueList = (s.eoElem e).queueList)
    (hsame : x.queueList ≠ [] → (s.eoElem e).SameFields x) : (s.setEo e x).Linked := by
  have hd : ∀ d, ((s.setEo e x).eoElem d).queueList = (s.eoElem d).queueList ∧
      (((s.setEo e x).eoElem d).queueList ≠ [] → (s.eoElem d).SameFields ((s.setEo e x).eoElem d)) := by
    intro d
    simp only [State.setEo]
    by_cases hde : d = e
    · rw [hde, Function.update_self]
      exact ⟨hlist,hsame⟩
    · rw [Function.update_of_ne hde]
      exact ⟨rfl,fun _ => .refl _⟩
  constructor
  · exact h.free
  · exact h.state
  · intro d r
    rw [(hd d).1]
    exact h.mem d r
  · exact h.bound
  · exact h.unbound
  · intro d
    rw [(hd d).1]
    exact h.nodup d
  · intro d r hr
    refine Binding.To.congr ?_ ((hd d).2 (List.ne_nil_of_mem hr))
    rw [(hd d).1] at hr
    exact h.binding d r hr
  · intro d hne
    rw [((hd d).2 hne).allocated]
    exact h.eo d ((hd d).1 ▸ hne)

theorem Linked.change {c : Limits} (h : s.Linked) (hf : s.Family) (hst : Change c s t) :
    t.Linked := by
  have hsame : ∀ tbl : QueueTable.State ι γ α, tbl.elem = s.tbl.elem →
      Linked { s with tbl } := by
    intro tbl helem
    refine h.frame rfl fun r => .inl ?_
    have hr := congrFun helem r
    exact ⟨congrArg _ hr,congrArg _ hr,congrArg _ hr,rfl⟩
  cases hst with
  | createQueue hfresh hcheck => exact h.queueCreate hfresh hcheck
  | pktinQueue contextSetOk hq => exact h.pktinEventQueue2em contextSetOk hq
  | deleteQueue q destroyOk => exact h.queueDelete q destroyOk
  | createGroup hstep => exact hsame _ (createGroup_tbl hstep).1
  | deleteGroup hstep => exact hsame _ (deleteGroup_tbl hstep).1
  | setState halloc htype hactive hstate =>
    refine h.setQueueState hf ⟨halloc,fun haggr => ?_⟩ hactive hstate
    rw [haggr] at htype
    cases htype
  | addQueue he hq htype hstate => exact h.eoAddQueue he hq htype hstate
  | removeQueue hstate => exact h.eoRemQueue hstate
  | setEo hlist _ hsame => exact h.setEo hlist hsame
  | pending => exact h.frame rfl fun r => .inl ⟨rfl,rfl,rfl,rfl⟩

omit [DecidableEq ι] [DecidableEq γ] [DecidableEq α] [DecidableEq ε] in
theorem Initial.linked (hi : Initial s) : s.Linked := by
  have hno : ∀ q, ¬Active (s.tbl.elem q).state := by
    intro q hc
    rw [hi.state q] at hc
    rcases hc with hc | hc <;> cases hc
  constructor
  · exact fun q _ => hi.state q
  · intro q hq
    cases (hi.tbl.elem q).symm.trans hq
  · intro e q
    rw [hi.eos, hi.binding]
    exact iff_of_false List.not_mem_nil nofun
  · intro q
    rw [hi.binding]
    exact iff_of_false (fun ⟨_,hc⟩ => nomatch hc) fun hc => hno q hc.2
  · intro q _
    rw [hi.binding]
  · intro e
    rw [hi.eos]
    exact List.nodup_nil
  · intro e q hq
    rw [hi.eos] at hq
    cases hq
  · intro e hne
    rw [hi.eos] at hne
    exact absurd rfl hne

end State
end EmOdp.EoQueues
