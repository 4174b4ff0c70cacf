import EmOdp.Threads.InitRuns
import EmOdp.Threads.TermReqs

/-! The requests of terminating threads are balanced with their counters, as long as all of them are
sent. -/
namespace EmOdp.Threads
open Lib
namespace TermState
variable {s u : TermState} {cfg : Config} {t thr g n o : Nat}

theorem mem_reqs : g ∈ s.reqs t ↔ ∃ thr, .termThreadReq thr g ∈ s.pending t := by
  rw [reqs, List.mem_filterMap]
  constructor
  · rintro ⟨ev,hmem,hg⟩
    cases ev with
    | termThreadReq thr group =>
      obtain rfl : group = g := Option.some.inj hg
      exact ⟨thr,hmem⟩
    | internalDone => cases hg
  · rintro ⟨thr,hmem⟩
    exact ⟨_,hmem,rfl⟩

/-- Each event group counts the requests that are pending for it, and its owner waits for it. -/
structure Inv (s : TermState) (cfg : Config) : Prop where
  base : s.base.Inv cfg
  out : ∀ t, s.waiting t ≠ .no → (s.base.locm t).isCoreLocalInited = false ∧ t < cfg.thrMax
  core : ∀ t, s.waiting t ≠ .extthr
  ongoing : ∀ t, s.ongoing t = (s.reqs t).length
  nodup : ∀ t, (s.reqs t).Nodup
  req : ∀ t thr g, .termThreadReq thr g ∈ s.pending t → ∃ n, s.groups g = some ⟨n,thr⟩
  count : ∀ g n o, s.groups g = some ⟨n,o⟩ →
    0 < n ∧ n = ((Finset.range cfg.thrMax).filter (g ∈ s.reqs ·)).card
  owner : ∀ g n o, s.groups g = some ⟨n,o⟩ → g < s.nextGroup ∧ s.waiting o ≠ .no ∧
    s.isTermThreadDone o = false ∧ .internalDone ∉ s.pending o
  one : ∀ g g' n n' o, s.groups g = some ⟨n,o⟩ → s.groups g' = some ⟨n',o⟩ → g = g'
  alive : ∀ t, s.reqs t ≠ [] → t ∈ s.base.map.thrmaskEmcores ∨ s.waiting t ≠ .no
  waits : ∀ t, s.waiting t ≠ .no → s.isTermThreadDone t = true ∨ .internalDone ∈ s.pending t ∨
    ∃ g n, s.groups g = some ⟨n,t⟩
  once : ∀ t, .internalDone ∈ s.pending t → s.waiting t ≠ .no ∧ s.isTermThreadDone t = false ∧
    (s.pending t).count .internalDone = 1
  idle : ∀ t, s.isTermThreadDone t = true → s.waiting t ≠ .no

/-- A thread has at most one request of each thread. -/
theorem Inv.reqs_length (h : s.Inv cfg) (t : Nat) : (s.reqs t).length ≤ 65536 := by
  refine Nat.le_trans ?_ cfg.thrMax_le
  rw [← List.toFinset_card_of_nodup (h.nodup t), ← Finset.card_range cfg.thrMax]
  have howner {g : Nat} (hg : g ∈ (s.reqs t).toFinset) : ∃ n o, s.groups g = some ⟨n,o⟩ := by
    obtain ⟨thr,hmem⟩ := mem_reqs.1 (List.mem_toFinset.1 hg)
    obtain ⟨n,hn⟩ := h.req t thr g hmem
    exact ⟨n,thr,hn⟩
  refine Finset.card_le_card_of_injOn (fun g => ((s.groups g).map EventGroup.owner).getD 0)
    (fun g hg => ?_) fun g hg g' hg' heq => ?_
  · obtain ⟨n,o,hn⟩ := howner hg
    simp only [hn, Option.map_some, Option.getD_some]
    exact Finset.mem_coe.2 (Finset.mem_range.2 (h.out o (h.owner g n o hn).2.1).2)
  · obtain ⟨n,o,hn⟩ := howner hg
    obtain ⟨n',o',hn'⟩ := howner hg'
    simp only [hn, hn', Option.map_some, Option.getD_some] at heq
    obtain rfl := heq
    exact h.one g g' n n' o hn hn'

theorem Inv.polls (h : s.Inv cfg) (ht : s.reqs t ≠ []) : s.Polls t :=
  (h.alive t ht).imp_left fun hm => (h.base.emcore_inited hm).1

theorem Inv.balanced (h : s.Inv cfg) : s.Balanced := by
  refine ⟨h.ongoing,fun t ht hreq hdone => ?_,fun t ht => ?_,fun t ht => h.polls ht⟩
  · rcases h.waits t ht with hd | hev | ⟨g,n,hg⟩
    · exact hd
    · exact absurd hev hdone
    · obtain ⟨hpos,hn⟩ := h.count g n t hg
      obtain ⟨v,hv⟩ := Finset.card_pos.1 (hn ▸ hpos)
      obtain ⟨thr,hmem⟩ := mem_reqs.1 (Finset.mem_filter.1 hv).2
      obtain ⟨n',hg'⟩ := h.req v thr g hmem
      obtain rfl : thr = t := congrArg EventGroup.owner (Option.some.inj (hg'.symm.trans hg))
      exact absurd hmem (hreq v g)
  · rcases h.waits t ht with hd | hev | ⟨g,n,hg⟩
    · by_cases hr : s.reqs t = []
      · refine .inl (.inl ⟨?_,.inl ⟨hd,?_⟩⟩)
        · cases hw : s.waiting t with
          | no => exact absurd hw ht
          | core => rfl
          | extthr => exact absurd hw (h.core t)
        · rw [h.ongoing, hr]
          rfl
      · refine .inr (.inl fun hnil => hr ?_)
        rw [reqs, hnil]
        rfl
    · exact .inr (.inl (List.ne_nil_of_mem hev))
    · obtain ⟨hpos,hn⟩ := h.count g n t hg
      obtain ⟨v,hv⟩ := Finset.card_pos.1 (hn ▸ hpos)
      have hgv := (Finset.mem_filter.1 hv).2
      obtain ⟨thr,hmem⟩ := mem_reqs.1 hgv
      obtain ⟨n',hg'⟩ := h.req v thr g hmem
      obtain rfl : thr = t := congrArg EventGroup.owner (Option.some.inj (hg'.symm.trans hg))
      exact .inr (.inr ⟨v,g,h.polls (List.ne_nil_of_mem hgv),hmem⟩)

theorem Initial.inv (hs : s.Initial) : s.Inv cfg := by
  have hpending (t : Nat) : s.pending t = [] := by rw [pending, hs.queue, hs.burst]; rfl
  have hreqs (t : Nat) : s.reqs t = [] := by rw [reqs, hpending]; rfl
  have hwait {t : Nat} (ht : s.waiting t ≠ .no) : False := ht (hs.waiting t)
  have hgroup {g n o : Nat} (hg : s.groups g = some ⟨n,o⟩) : False :=
    Option.some_ne_none _ (hg.symm.trans (hs.groups g))
  refine ⟨State.Initial.inv hs.base,fun t ht => (hwait ht).elim,fun t ht => ?_,fun t => ?_,fun t => ?_,
    fun t thr g hmem => ?_,fun g n o hg => (hgroup hg).elim,fun g n o hg => (hgroup hg).elim,
    fun g g' n n' o hg => (hgroup hg).elim,fun t ht => absurd (hreqs t) ht,fun t ht => (hwait ht).elim,
    fun t hmem => ?_,fun t ht => ?_⟩
  · cases (hs.waiting t).symm.trans ht
  · rw [hs.ongoing, hreqs]
    rfl
  · rw [hreqs]
    exact List.nodup_nil
  · rw [hpending] at hmem
    cases hmem
  · rw [hpending] at hmem
    cases hmem
  · exact absurd ((hs.isTermThreadDone t).symm.trans ht) Bool.false_ne_true

theorem Inv.lt (h : s.Inv cfg) (ht : s.reqs t ≠ []) : t < cfg.thrMax := by
  rcases h.alive t ht with hm | hw
  · exact h.base.threads t (h.base.emcore_inited hm).1
  · exact (h.out t hw).2

/-- A thread polls its control queue. -/
theorem Inv.poll (h : s.Inv cfg) {queue burst : Nat → List CtrlEvent}
    (hp : ∀ t, burst t ++ queue t = s.pending t) : ({ s with queue := queue, burst := burst }).Inv cfg := by
  have hpending (t : Nat) : ({ s with queue := queue, burst := burst } : TermState).pending t =
      s.pending t := hp t
  have hreqs (t : Nat) : ({ s with queue := queue, burst := burst } : TermState).reqs t = s.reqs t := by
    rw [reqs, hpending, ← reqs]
  refine ⟨h.base,h.out,h.core,fun t => ?_,fun t => ?_,fun t thr g hmem => ?_,fun g n o hg => ?_,
    fun g n o hg => ?_,h.one,fun t ht => ?_,fun t ht => ?_,fun t hmem => ?_,h.idle⟩
  · rw [hreqs]
    exact h.ongoing t
  · rw [hreqs]
    exact h.nodup t
  · rw [hpending] at hmem
    exact h.req t thr g hmem
  · simp only [hreqs]
    exact h.count g n o hg
  · rw [hpending]
    exact h.owner g n o hg
  · rw [hreqs] at ht
    exact h.alive t ht
  · rw [hpending]
    exact h.waits t ht
  · rw [hpending] at hmem ⊢
    exact h.once t hmem

/-- The base changes, and with it no thread that waits or that has a request. -/
theorem Inv.withBase (h : s.Inv cfg) {base : State} (hbase : base.Inv cfg)
    (hout : ∀ t, s.waiting t ≠ .no → (base.locm t).isCoreLocalInited = false)
    (hmask : s.base.map.thrmaskEmcores ⊆ base.map.thrmaskEmcores) : ({ s with base := base }).Inv cfg :=
  ⟨hbase,fun t ht => ⟨hout t ht,(h.out t ht).2⟩,h.core,h.ongoing,h.nodup,h.req,h.count,h.owner,h.one,
    fun t ht => (h.alive t ht).imp_left fun hm => hmask hm,h.waits,h.once,h.idle⟩

theorem Inv.init (h : s.Inv cfg) (hw : s.waiting t = .no) {odpType : OdpThreadType} {conf : ConfLocal}
    {a : Answers} (hclean : s.base.Clean cfg (.init t odpType conf a)) : ({ s with
      base := (s.base.emInitLocal cfg t odpType conf a).1
      isTermThreadDone := if (s.base.locm t).isCoreLocalInited then s.isTermThreadDone
        else Function.update s.isTermThreadDone t false } : TermState).Inv cfg := by
  have hdone : (if (s.base.locm t).isCoreLocalInited then s.isTermThreadDone
      else Function.update s.isTermThreadDone t false) = s.isTermThreadDone := by
    split
    · rfl
    · refine Function.update_eq_iff.2 ⟨?_,fun _ _ => rfl⟩
      exact (Bool.of_not_eq_true fun hd => h.idle t hd hw).symm
  rw [hdone]
  have hinv := h.base.emInitLocal hclean
  refine h.withBase hinv (fun v hv => ?_) ?_
  · have hvt : v ≠ t := by
      rintro rfl
      exact hv hw
    have hother : (s.base.emInitLocal cfg t odpType conf a).1.locm v = s.base.locm v := by
      by_cases hearly : s.base.FailsEarly cfg t odpType conf a
      · obtain ⟨-,heq | ⟨-,locm,-,heq⟩⟩ := State.emInitLocal_early h.base.currentCoreCount_le hearly
        · rw [heq]
        · rw [heq]
          exact Function.update_of_ne hvt ..
      · obtain ⟨-,-,⟨-,heq⟩ | ⟨-,c,-,heq⟩⟩ := State.emInitLocal_entered hearly
        · rw [heq]
          exact Function.update_of_ne hvt ..
        · rw [heq]
          exact Function.update_of_ne hvt ..
    rw [hother]
    exact (h.out v hv).1
  · by_cases hearly : s.base.FailsEarly cfg t odpType conf a
    · obtain ⟨-,heq | ⟨-,locm,-,heq⟩⟩ := State.emInitLocal_early h.base.currentCoreCount_le hearly
      · rw [heq]
      · rw [heq]
        exact Finset.Subset.refl _
    · obtain ⟨-,-,⟨-,heq⟩ | ⟨-,c,-,heq⟩⟩ := State.emInitLocal_entered hearly
      · rw [heq]
        exact Finset.Subset.refl _
      · rw [heq, State.setLocm, CoreMap.addCore_eq]
        exact Finset.subset_insert ..

/-- A thread that has no request left ends its loop. -/
theorem Inv.leave (h : s.Inv cfg) (ht : s.Leaves t) : ({ s with
    waiting := Function.update s.waiting t .no
    isTermThreadDone := Function.update s.isTermThreadDone t false } : TermState).Inv cfg := by
  obtain ⟨hw,hd,hzero⟩ : s.waiting t = .core ∧ s.isTermThreadDone t = true ∧ s.ongoing t = 0 := by
    rcases ht with ⟨hw,hd | hlarge⟩ | ⟨hw,-⟩
    · exact ⟨hw,hd⟩
    · rw [h.ongoing] at hlarge
      exact absurd (h.reqs_length t) (by omega)
    · exact absurd hw (h.core t)
  have hreqs : s.reqs t = [] := List.eq_nil_of_length_eq_zero ((h.ongoing t).symm.trans hzero)
  have hself : Function.update s.waiting t .no t = Waiting.no := Function.update_self ..
  have hother {v : Nat} (hv : v ≠ t) : Function.update s.waiting t .no v = s.waiting v :=
    Function.update_of_ne hv ..
  have hdone {v : Nat} (hv : v ≠ t) : Function.update s.isTermThreadDone t false v =
      s.isTermThreadDone v := Function.update_of_ne hv ..
  have hne {v : Nat} (hv : Function.update s.waiting t .no v ≠ .no) : v ≠ t := by
    rintro rfl
    exact hv hself
  have howner {g n o : Nat} (hg : s.groups g = some ⟨n,o⟩) : o ≠ t := by
    rintro rfl
    exact Bool.false_ne_true ((h.owner g n o hg).2.2.1.symm.trans hd)
  refine ⟨h.base,fun v hv => ?_,fun v => ?_,h.ongoing,h.nodup,h.req,h.count,fun g n o hg => ?_,h.one,
    fun v hv => ?_,fun v hv => ?_,fun v hmem => ?_,fun v hv => ?_⟩
  · exact h.out v (hother (hne hv) ▸ hv)
  · dsimp only
    by_cases hvt : v = t
    · rw [hvt, hself]
      exact Waiting.noConfusion
    · rw [hother hvt]
      exact h.core v
  · dsimp only
    rw [hother (howner hg), hdone (howner hg)]
    exact h.owner g n o hg
  · have hvt : v ≠ t := by
      rintro rfl
      exact hv hreqs
    dsimp only
    rw [hother hvt]
    exact h.alive v hv
  · have hvt := hne hv
    dsimp only at hv ⊢
    rw [hother hvt] at hv
    rw [hdone hvt]
    exact h.waits v hv
  · have hvt : v ≠ t := by
      rintro rfl
      exact Bool.false_ne_true ((h.once v hmem).2.1.symm.trans hd)
    dsimp only
    rw [hother hvt, hdone hvt]
    exact h.once v hmem
  · dsimp only at hv ⊢
    by_cases hvt : v = t
    · rw [hvt, Function.update_self] at hv
      cases hv
    · rw [hdone hvt] at hv
      rw [hother hvt]
      exact h.idle v hv

/-- A thread takes an event out of those that are pending for it. -/
structure Taken (s u : TermState) (t : Nat) (ev : CtrlEvent) : Prop where
  self : (s.pending t).Perm (ev :: u.pending t)
  other : ∀ v, v ≠ t → u.pending v = s.pending v

theorem taken_of_burst {i : Nat} {ev : CtrlEvent} (hi : (s.burst t)[i]? = some ev)
    (hq : u.queue = s.queue) (hb : u.burst = Function.update s.burst t ((s.burst t).eraseIdx i)) :
    Taken s u t ev := by
  refine ⟨?_,fun v hv => ?_⟩
  · obtain ⟨hlt,rfl⟩ := List.getElem?_eq_some_iff.1 hi
    rw [pending, pending, hq, hb, Function.update_self]
    exact (List.getElem_cons_eraseIdx_perm hlt).symm.append_right _
  · rw [pending, pending, hq, hb, Function.update_of_ne hv]

theorem Taken.mem {ev e : CtrlEvent} (h : Taken s u t ev) (he : e ≠ ev) (v : Nat) :
    e ∈ u.pending v ↔ e ∈ s.pending v := by
  by_cases hv : v = t
  · obtain rfl := hv
    rw [h.self.mem_iff, List.mem_cons, or_iff_right he]
  · rw [h.other v hv]

theorem Taken.count {ev e : CtrlEvent} (h : Taken s u t ev) (he : e ≠ ev) (v : Nat) :
    (u.pending v).count e = (s.pending v).count e := by
  by_cases hv : v = t
  · obtain rfl := hv
    rw [h.self.count_eq, List.count_cons_of_ne he.symm]
  · rw [h.other v hv]

theorem Taken.reqs {ev : CtrlEvent} (h : Taken s u t ev) :
    (s.reqs t).Perm ((ev :: u.pending t).filterMap CtrlEvent.group) := h.self.filterMap _

theorem Taken.reqs_other {ev : CtrlEvent} (h : Taken s u t ev) {v : Nat} (hv : v ≠ t) :
    u.reqs v = s.reqs v := by
  rw [TermState.reqs, h.other v hv, ← TermState.reqs]

/-- The done event of a termination is handled. -/
theorem Inv.handleDone (h : s.Inv cfg) {i : Nat} (hi : (s.burst t)[i]? = some .internalDone) :
    ({ s with
      burst := Function.update s.burst t ((s.burst t).eraseIdx i)
      isTermThreadDone := Function.update s.isTermThreadDone t true } : TermState).Inv cfg := by
  generalize hu : ({ s with
      burst := Function.update s.burst t ((s.burst t).eraseIdx i)
      isTermThreadDone := Function.update s.isTermThreadDone t true } : TermState) = u
  have htaken : Taken s u t .internalDone := taken_of_burst hi (by rw [← hu]) (by rw [← hu])
  have hmem : .internalDone ∈ s.pending t := htaken.self.mem_iff.2 List.mem_cons_self
  obtain ⟨hw,hd,hcount⟩ := h.once t hmem
  have hgone : .internalDone ∉ u.pending t := by
    rw [htaken.self.count_eq, List.count_cons_self, Nat.succ.injEq] at hcount
    exact List.count_eq_zero.1 hcount
  have hreqs (v : Nat) : (s.reqs v).Perm (u.reqs v) := by
    by_cases hv : v = t
    · exact hv ▸ htaken.reqs
    · rw [htaken.reqs_other hv]
  have hgroups : u.groups = s.groups := by rw [← hu]
  have hwaiting : u.waiting = s.waiting := by rw [← hu]
  have hbase : u.base = s.base := by rw [← hu]
  have hself : u.isTermThreadDone t = true := by
    rw [← hu]
    exact Function.update_self ..
  have hother {v : Nat} (hv : v ≠ t) : u.isTermThreadDone v = s.isTermThreadDone v := by
    rw [← hu]
    exact Function.update_of_ne hv ..
  have howner {g n o : Nat} (hg : s.groups g = some ⟨n,o⟩) : o ≠ t := by
    rintro rfl
    exact (h.owner g n o hg).2.2.2 hmem
  refine ⟨?_,?_,?_,fun v => ?_,fun v => ?_,fun v thr g hv => ?_,fun g n o hg => ?_,fun g n o hg => ?_,?_,
    fun v hv => ?_,fun v hv => ?_,fun v hv => ?_,fun v hv => ?_⟩
  · rw [hbase]
    exact h.base
  · rw [hbase, hwaiting]
    exact h.out
  · rw [hwaiting]
    exact h.core
  · rw [← (hreqs v).length_eq, ← h.ongoing, ← hu]
  · exact (hreqs v).nodup_iff.1 (h.nodup v)
  · rw [hgroups]
    exact h.req v thr g ((htaken.mem CtrlEvent.noConfusion v).1 hv)
  · rw [hgroups] at hg
    simp only [← (hreqs _).mem_iff]
    exact h.count g n o hg
  · rw [hgroups] at hg
    obtain ⟨hlt,how,hod,hop⟩ := h.owner g n o hg
    have hot := howner hg
    rw [hwaiting, hother hot, htaken.other o hot, ← hu]
    exact ⟨hlt,how,hod,hop⟩
  · rw [hgroups]
    exact h.one
  · rw [hbase, hwaiting]
    exact h.alive v fun hnil => hv (List.perm_nil.1 (hnil ▸ hreqs v).symm)
  · rw [hwaiting] at hv
    by_cases hvt : v = t
    · exact .inl (hvt ▸ hself)
    · rw [hother hvt, htaken.other v hvt, hgroups]
      exact h.waits v hv
  · have hvt : v ≠ t := by
      rintro rfl
      exact hgone hv
    rw [hwaiting, hother hvt]
    rw [htaken.other v hvt] at hv ⊢
    exact h.once v hv
  · rw [hwaiting]
    by_cases hvt : v = t
    · exact hvt ▸ hw
    · rw [hother hvt] at hv
      exact h.idle v hv

/-- A request has been handled: its group goes on without it, or sends the done event. -/
theorem Inv.counted (h : s.Inv cfg) {s₁ : TermState} (htaken : Taken s s₁ t (.termThreadReq thr g))
    (hg : s.groups g = some ⟨n,thr⟩) (hbase : u.base = s.base) (hwaiting : u.waiting = s.waiting)
    (hdone : u.isTermThreadDone = s.isTermThreadDone) (hnext : u.nextGroup = s.nextGroup)
    (hongoing : u.ongoing = Function.update s.ongoing t (decU32 (s.ongoing t)))
    (hgroups : ∀ x, x ≠ g → u.groups x = s.groups x)
    (hlast : n = 1 ∧ u.groups g = none ∧
        (∀ v, u.pending v = if v = thr then s₁.pending v ++ [.internalDone] else s₁.pending v) ∨
      1 < n ∧ u.groups g = some ⟨n - 1,thr⟩ ∧ ∀ v, u.pending v = s₁.pending v) : u.Inv cfg := by
  obtain ⟨hpos,hcount⟩ := h.count g n thr hg
  obtain ⟨hlt,hthrw,hthrd,hthrp⟩ := h.owner g n thr hg
  have hreqsS : ∀ v, u.reqs v = s₁.reqs v := by
    intro v
    rcases hlast with ⟨-,-,hp⟩ | ⟨-,-,hp⟩
    · rw [reqs, hp]
      split
      · rw [List.filterMap_append]
        exact List.append_nil _
      · rfl
    · rw [reqs, hp, ← reqs]
  have hself : (s.reqs t).Perm (g :: u.reqs t) := by
    rw [hreqsS]
    exact htaken.reqs
  have hother {v : Nat} (hv : v ≠ t) : u.reqs v = s.reqs v := (hreqsS v).trans (htaken.reqs_other hv)
  have hnodup := hself.nodup_iff.1 (h.nodup t)
  have hmem (v x : Nat) : x ∈ u.reqs v ↔ x ∈ s.reqs v ∧ ¬(v = t ∧ x = g) := by
    by_cases hv : v = t
    · obtain rfl := hv
      rw [hself.mem_iff, List.mem_cons]
      by_cases hx : x = g
      · obtain rfl := hx
        exact iff_of_false (List.nodup_cons.1 hnodup).1 fun hc => hc.2 ⟨rfl,rfl⟩
      · rw [or_iff_right hx, and_iff_left fun hc => hx hc.2]
    · rw [hother hv, and_iff_left fun hc => hv hc.1]
  have hgt : g ∈ s.reqs t := hself.mem_iff.2 List.mem_cons_self
  have hpend {v thr' x : Nat} (hx : .termThreadReq thr' x ∈ u.pending v) :
      .termThreadReq thr' x ∈ s.pending v := by
    have hx' : .termThreadReq thr' x ∈ s₁.pending v := by
      rcases hlast with ⟨-,-,hp⟩ | ⟨-,-,hp⟩
      · rw [hp] at hx
        split at hx
        · rcases List.mem_append.1 hx with hx | hx
          · exact hx
          · cases List.mem_singleton.1 hx
        · exact hx
      · rwa [hp] at hx
    by_cases hv : v = t
    · obtain rfl := hv
      exact htaken.self.mem_iff.2 (List.mem_cons_of_mem _ hx')
    · rwa [htaken.other v hv] at hx'
  have hdoneEv {v : Nat} (hv : v ≠ thr) : (u.pending v).count .internalDone =
      (s.pending v).count .internalDone := by
    refine Eq.trans ?_ (htaken.count CtrlEvent.noConfusion v)
    rcases hlast with ⟨-,-,hp⟩ | ⟨-,-,hp⟩
    · rw [hp, if_neg hv]
    · rw [hp]
  have hdoneMem {v : Nat} (hv : v ≠ thr) : .internalDone ∈ u.pending v ↔ .internalDone ∈ s.pending v := by
    rw [← List.count_pos_iff, hdoneEv hv, List.count_pos_iff]
  -- the threads with a request of the group, but for `t`
  have herase : (Finset.range cfg.thrMax).filter (g ∈ u.reqs ·) =
      ((Finset.range cfg.thrMax).filter (g ∈ s.reqs ·)).erase t := by
    ext v
    rw [Finset.mem_erase, Finset.mem_filter, Finset.mem_filter, hmem]
    constructor
    · rintro ⟨hv,hgv,hne⟩
      exact ⟨fun hvt => hne ⟨hvt,rfl⟩,hv,hgv⟩
    · rintro ⟨hne,hv,hgv⟩
      exact ⟨hv,hgv,fun hc => hne hc.1⟩
  have hcard : ((Finset.range cfg.thrMax).filter (g ∈ u.reqs ·)).card = n - 1 := by
    rw [herase, Finset.card_erase_of_mem, hcount]
    exact Finset.mem_filter.2 ⟨Finset.mem_range.2 (h.lt (List.ne_nil_of_mem hgt)),hgt⟩
  have howner {x m o : Nat} (hx : x ≠ g) (hgx : s.groups x = some ⟨m,o⟩) : o ≠ thr := by
    rintro rfl
    exact hx (h.one x g m n o hgx hg)
  have hgroupsOf {x m o : Nat} (hgx : u.groups x = some ⟨m,o⟩) :
      x ≠ g ∧ s.groups x = some ⟨m,o⟩ ∨ x = g ∧ 1 < n ∧ m = n - 1 ∧ o = thr := by
    by_cases hx : x = g
    · obtain rfl := hx
      rcases hlast with ⟨-,hnone,-⟩ | ⟨hn,hsome,-⟩
      · cases hnone.symm.trans hgx
      · cases hsome.symm.trans hgx
        exact .inr ⟨rfl,hn,rfl,rfl⟩
    · rw [hgroups x hx] at hgx
      exact .inl ⟨hx,hgx⟩
  refine ⟨?_,?_,?_,fun v => ?_,fun v => ?_,fun v thr' x hv => ?_,fun x m o hgx => ?_,fun x m o hgx => ?_,
    fun x x' m m' o hgx hgx' => ?_,fun v hv => ?_,fun v hv => ?_,fun v hv => ?_,fun v hv => ?_⟩
  · rw [hbase]
    exact h.base
  · rw [hbase, hwaiting]
    exact h.out
  · rw [hwaiting]
    exact h.core
  · rw [hongoing]
    by_cases hv : v = t
    · obtain rfl := hv
      rw [Function.update_self, h.ongoing, hself.length_eq, List.length_cons, decU32_eq (Nat.succ_pos _),
        Nat.succ_sub_one]
    · rw [Function.update_of_ne hv, hother hv]
      exact h.ongoing v
  · by_cases hv : v = t
    · exact hv ▸ (List.nodup_cons.1 hnodup).2
    · rw [hother hv]
      exact h.nodup v
  · obtain ⟨m,hm⟩ := h.req v thr' x (hpend hv)
    by_cases hx : x = g
    · obtain rfl := hx
      obtain rfl : thr = thr' := congrArg EventGroup.owner (Option.some.inj (hg.symm.trans hm))
      rcases hlast with ⟨hn,-,-⟩ | ⟨-,hsome,-⟩
      · have hxv := (hmem v x).1 (mem_reqs.2 ⟨thr,hv⟩)
        have hvu : v ∈ (Finset.range cfg.thrMax).filter (x ∈ u.reqs ·) :=
          Finset.mem_filter.2 ⟨Finset.mem_range.2 (h.lt (List.ne_nil_of_mem hxv.1)),(hmem v x).2 hxv⟩
        have hnone := Finset.card_pos.2 ⟨v,hvu⟩
        rw [hcard, hn] at hnone
        exact absurd hnone (Nat.lt_irrefl 0)
      · exact ⟨n - 1,hsome⟩
    · rw [hgroups x hx]
      exact ⟨m,hm⟩
  · rcases hgroupsOf hgx with ⟨hx,hgx⟩ | ⟨rfl,hn,rfl,rfl⟩
    · have hsame : (Finset.range cfg.thrMax).filter (x ∈ u.reqs ·) =
          (Finset.range cfg.thrMax).filter (x ∈ s.reqs ·) := by
        refine Finset.filter_congr fun v _ => ?_
        rw [hmem, and_iff_left fun hc => hx hc.2]
      rw [hsame]
      exact h.count x m o hgx
    · exact ⟨by omega,hcard.symm⟩
  · rw [hnext, hwaiting, hdone]
    rcases hgroupsOf hgx with ⟨hx,hgx⟩ | ⟨rfl,hn,rfl,rfl⟩
    · rw [hdoneMem (howner hx hgx)]
      exact h.owner x m o hgx
    · refine ⟨hlt,hthrw,hthrd,fun hev => hthrp ?_⟩
      rcases hlast with ⟨hn',-,-⟩ | ⟨-,-,hp⟩
      · omega
      · rw [hp] at hev
        exact (htaken.mem CtrlEvent.noConfusion o).1 hev
  · rcases hgroupsOf hgx with ⟨hx,hgx⟩ | ⟨rfl,-,-,rfl⟩
    · rcases hgroupsOf hgx' with ⟨hx',hgx'⟩ | ⟨rfl,-,-,rfl⟩
      · exact h.one x x' m m' o hgx hgx'
      · exact absurd rfl (howner hx hgx)
    · rcases hgroupsOf hgx' with ⟨hx',hgx'⟩ | ⟨rfl,-,-,-⟩
      · exact absurd rfl (howner hx' hgx')
      · rfl
  · rw [hbase, hwaiting]
    refine h.alive v fun hnil => hv ?_
    rw [List.eq_nil_iff_forall_not_mem]
    intro x hx
    have hxs := ((hmem v x).1 hx).1
    rw [hnil] at hxs
    cases hxs
  · rw [hwaiting] at hv
    rw [hdone]
    by_cases hvt : v = thr
    · obtain rfl := hvt
      rcases hlast with ⟨-,-,hp⟩ | ⟨-,hsome,-⟩
      · refine .inr (.inl ?_)
        rw [hp, if_pos rfl]
        exact List.mem_append_right _ (List.mem_singleton_self _)
      · exact .inr (.inr ⟨g,n - 1,hsome⟩)
    · rw [hdoneMem hvt]
      refine (h.waits v hv).imp_right (Or.imp_right ?_)
      rintro ⟨x,m,hgx⟩
      have hx : x ≠ g := by
        rintro rfl
        exact hvt (congrArg EventGroup.owner (Option.some.inj (hgx.symm.trans hg)))
      exact ⟨x,m,(hgroups x hx).trans hgx⟩
  · rw [hwaiting, hdone]
    by_cases hvt : v = thr
    · obtain rfl := hvt
      have hnone : (s₁.pending v).count .internalDone = 0 := by
        rw [htaken.count CtrlEvent.noConfusion v]
        exact List.count_eq_zero.2 hthrp
      rcases hlast with ⟨-,-,hp⟩ | ⟨-,-,hp⟩
      · rw [hp, if_pos rfl, List.count_append, hnone]
        exact ⟨hthrw,hthrd,rfl⟩
      · rw [hp, ← List.count_pos_iff, hnone] at hv
        exact absurd hv (Nat.lt_irrefl 0)
    · rw [hdoneEv hvt]
      exact h.once v ((hdoneMem hvt).1 hv)
  · rw [hdone] at hv
    rw [hwaiting]
    exact h.idle v hv

/-- A request is handled, and the done event of the last one is sent. -/
theorem Inv.handleReq (h : s.Inv cfg) {i : Nat} (hi : (s.burst t)[i]? = some (.termThreadReq thr g)) :
    (({ s with
      burst := Function.update s.burst t ((s.burst t).eraseIdx i)
      ongoing := Function.update s.ongoing t (decU32 (s.ongoing t)) } : TermState).countDown g true).Inv
        cfg := by
  generalize hs₁ : ({ s with
      burst := Function.update s.burst t ((s.burst t).eraseIdx i)
      ongoing := Function.update s.ongoing t (decU32 (s.ongoing t)) } : TermState) = s₁
  have htaken : Taken s s₁ t (.termThreadReq thr g) := taken_of_burst hi (by rw [← hs₁]) (by rw [← hs₁])
  obtain ⟨n,hg⟩ := h.req t thr g (htaken.self.mem_iff.2 List.mem_cons_self)
  have hpos := (h.count g n thr hg).1
  have hg₁ : s₁.groups g = some ⟨n,thr⟩ := by
    rw [← hs₁]
    exact hg
  rw [countDown, hg₁]
  dsimp only
  by_cases hn : n = 1
  · rw [if_pos hn, if_pos rfl]
    refine h.counted htaken hg ?_ ?_ ?_ ?_ ?_ (fun x hx => ?_) (.inl ⟨hn,?_,fun v => ?_⟩)
    · rw [← hs₁]
    · rw [← hs₁]
    · rw [← hs₁]
    · rw [← hs₁]
    · rw [← hs₁]
    · dsimp only
      rw [Function.update_of_ne hx, ← hs₁]
    · exact Function.update_self ..
    · rw [pending, pending]
      dsimp only
      split
      · rename_i hv
        rw [hv, Function.update_self, List.append_assoc]
      · rename_i hv
        rw [Function.update_of_ne hv]
  · rw [if_neg hn]
    refine h.counted htaken hg ?_ ?_ ?_ ?_ ?_ (fun x hx => ?_) (.inr ⟨by omega,?_,fun _ => rfl⟩)
    · rw [← hs₁]
    · rw [← hs₁]
    · rw [← hs₁]
    · rw [← hs₁]
    · rw [← hs₁]
    · dsimp only
      rw [Function.update_of_ne hx, ← hs₁]
    · exact Function.update_self ..

/-- The threads of the mask, in the order in which the requests are sent -/
theorem mem_mask {mask : Finset Nat} (hmask : ∀ t ∈ mask, t < cfg.thrMax) :
    t ∈ (List.range cfg.thrMax).filter (· ∈ mask) ↔ t ∈ mask := by
  rw [List.mem_filter, List.mem_range, decide_eq_true_iff]
  exact and_iff_right_of_imp (hmask t)

theorem length_mask {mask : Finset Nat} (hmask : ∀ t ∈ mask, t < cfg.thrMax) :
    ((List.range cfg.thrMax).filter (· ∈ mask)).length = mask.card := by
  rw [← List.toFinset_card_of_nodup (List.nodup_range.filter _)]
  congr 1
  ext t
  rw [List.mem_toFinset, mem_mask hmask]

/-- A thread without EM cores left to ask begins to wait. -/
theorem Inv.beginLast (h : s.Inv cfg) (hw : s.waiting t = .no) (hthr : t < cfg.thrMax)
    {base : State} (hbase : base.Inv cfg)
    (hin : ∀ v, v = t ∨ s.waiting v ≠ .no → (base.locm v).isCoreLocalInited = false)
    (hmask : s.base.map.thrmaskEmcores ⊆ insert t base.map.thrmaskEmcores) : ({ s with
      base := base
      isTermThreadDone := Function.update s.isTermThreadDone t true
      waiting := Function.update s.waiting t .core } : TermState).Inv cfg := by
  have hself : Function.update s.waiting t .core t = Waiting.core := Function.update_self ..
  have hother {v : Nat} (hv : v ≠ t) : Function.update s.waiting t .core v = s.waiting v :=
    Function.update_of_ne hv ..
  have hdone {v : Nat} (hv : v ≠ t) : Function.update s.isTermThreadDone t true v =
      s.isTermThreadDone v := Function.update_of_ne hv ..
  have hne {v : Nat} (hv : s.waiting v ≠ .no) : v ≠ t := by
    rintro rfl
    exact hv hw
  have hwait (v : Nat) : Function.update s.waiting t .core v ≠ .no ↔ v = t ∨ s.waiting v ≠ .no := by
    by_cases hvt : v = t
    · rw [hvt, hself]
      exact iff_of_true Waiting.noConfusion (.inl rfl)
    · rw [hother hvt, or_iff_right hvt]
  refine ⟨hbase,fun v hv => ?_,fun v => ?_,h.ongoing,h.nodup,h.req,h.count,fun g n o hg => ?_,h.one,
    fun v hv => ?_,fun v hv => ?_,fun v hv => ?_,fun v hv => ?_⟩
  · have hv := (hwait v).1 hv
    refine ⟨hin v hv,?_⟩
    rcases hv with rfl | hv
    · exact hthr
    · exact (h.out v hv).2
  · dsimp only
    by_cases hvt : v = t
    · rw [hvt, hself]
      exact Waiting.noConfusion
    · rw [hother hvt]
      exact h.core v
  · dsimp only
    obtain ⟨hlt,how,hod,hop⟩ := h.owner g n o hg
    rw [hother (hne how), hdone (hne how)]
    exact ⟨hlt,how,hod,hop⟩
  · dsimp only
    rw [hwait]
    rcases h.alive v hv with hm | hvw
    · rcases Finset.mem_insert.1 (hmask hm) with rfl | hm
      · exact .inr (.inl rfl)
      · exact .inl hm
    · exact .inr (.inr hvw)
  · dsimp only at hv ⊢
    rw [hwait] at hv
    by_cases hvt : v = t
    · exact .inl (hvt ▸ Function.update_self ..)
    · rw [hdone hvt]
      exact h.waits v (hv.resolve_left hvt)
  · have hv := h.once v hv
    dsimp only
    rw [hother (hne hv.1), hdone (hne hv.1)]
    exact hv
  · dsimp only at hv ⊢
    rw [hwait]
    by_cases hvt : v = t
    · exact .inl hvt
    · rw [hdone hvt] at hv
      exact .inr (h.idle v hv)

/-- A thread has sent its requests to the EM cores left, and begins to wait. -/
theorem Inv.beginWait (h : s.Inv cfg) (hw : s.waiting t = .no) (hthr : t < cfg.thrMax)
    {base : State} (hbase : base.Inv cfg)
    (hin : ∀ v, v = t ∨ s.waiting v ≠ .no → (base.locm v).isCoreLocalInited = false)
    (hmask : s.base.map.thrmaskEmcores ⊆ insert t base.map.thrmaskEmcores)
    (hsome : 0 < base.map.thrmaskEmcores.card) {mask : List Nat}
    (hmem : ∀ v, v ∈ mask ↔ v ∈ base.map.thrmaskEmcores)
    (hlen : mask.length = base.map.thrmaskEmcores.card) : ({ s with
      base := base
      ongoing := fun v => if v ∈ mask then incU32 (s.ongoing v) else s.ongoing v
      queue := fun v => if v ∈ mask then s.queue v ++ [.termThreadReq t s.nextGroup] else s.queue v
      groups := Function.update s.groups s.nextGroup (some ⟨mask.length,t⟩)
      nextGroup := s.nextGroup + 1
      waiting := Function.update s.waiting t .core } : TermState).Inv cfg := by
  generalize hu : ({ s with
      base := base
      ongoing := fun v => if v ∈ mask then incU32 (s.ongoing v) else s.ongoing v
      queue := fun v => if v ∈ mask then s.queue v ++ [.termThreadReq t s.nextGroup] else s.queue v
      groups := Function.update s.groups s.nextGroup (some ⟨mask.length,t⟩)
      nextGroup := s.nextGroup + 1
      waiting := Function.update s.waiting t .core } : TermState) = u
  have hpending (v : Nat) : u.pending v =
      if v ∈ mask then s.pending v ++ [.termThreadReq t s.nextGroup] else s.pending v := by
    rw [← hu, pending, pending]
    dsimp only
    split
    · rw [List.append_assoc]
    · rfl
  have hreqs (v : Nat) : u.reqs v = if v ∈ mask then s.reqs v ++ [s.nextGroup] else s.reqs v := by
    rw [reqs, hpending]
    split
    · rw [List.filterMap_append]
      rfl
    · rfl
  have hfresh (v : Nat) : s.nextGroup ∉ s.reqs v := by
    intro hv
    obtain ⟨thr,hm⟩ := mem_reqs.1 hv
    obtain ⟨n,hn⟩ := h.req v thr _ hm
    exact Nat.lt_irrefl _ (h.owner _ n thr hn).1
  have hmemOld {v x : Nat} (hx : x ≠ s.nextGroup) : x ∈ u.reqs v ↔ x ∈ s.reqs v := by
    rw [hreqs]
    split
    · rw [List.mem_append, List.mem_singleton, or_iff_left hx]
    · exact Iff.rfl
  have hmemNew {v : Nat} : s.nextGroup ∈ u.reqs v ↔ v ∈ base.map.thrmaskEmcores := by
    rw [hreqs, ← hmem]
    split
    · rename_i hv
      exact iff_of_true (List.mem_append_right _ (List.mem_singleton_self _)) hv
    · rename_i hv
      exact iff_of_false (hfresh v) hv
  have hdoneEv (v : Nat) : (u.pending v).count .internalDone = (s.pending v).count .internalDone := by
    rw [hpending]
    split
    · rw [List.count_append]
      rfl
    · rfl
  have hdoneMem (v : Nat) : .internalDone ∈ u.pending v ↔ .internalDone ∈ s.pending v := by
    rw [← List.count_pos_iff, hdoneEv, List.count_pos_iff]
  have hself : u.waiting t = .core := by
    rw [← hu]
    exact Function.update_self ..
  have hother {v : Nat} (hv : v ≠ t) : u.waiting v = s.waiting v := by
    rw [← hu]
    exact Function.update_of_ne hv ..
  have hdone : u.isTermThreadDone = s.isTermThreadDone := by rw [← hu]
  have hne {v : Nat} (hv : s.waiting v ≠ .no) : v ≠ t := by
    rintro rfl
    exact hv hw
  have hwait (v : Nat) : u.waiting v ≠ .no ↔ v = t ∨ s.waiting v ≠ .no := by
    by_cases hvt : v = t
    · rw [hvt, hself]
      exact iff_of_true Waiting.noConfusion (.inl rfl)
    · rw [hother hvt, or_iff_right hvt]
  have hbase' : u.base = base := by rw [← hu]
  have hnext : u.nextGroup = s.nextGroup + 1 := by rw [← hu]
  have hnew : u.groups s.nextGroup = some ⟨mask.length,t⟩ := by
    rw [← hu]
    exact Function.update_self ..
  have hold {x : Nat} (hx : x ≠ s.nextGroup) : u.groups x = s.groups x := by
    rw [← hu]
    exact Function.update_of_ne hx ..
  have hlt {v : Nat} (hv : v ∈ base.map.thrmaskEmcores) : v < cfg.thrMax :=
    hbase.threads v (hbase.emcore_inited hv).1
  have hgroupsOf {x m o : Nat} (hgx : u.groups x = some ⟨m,o⟩) :
      x ≠ s.nextGroup ∧ s.groups x = some ⟨m,o⟩ ∨ x = s.nextGroup ∧ m = mask.length ∧ o = t := by
    by_cases hx : x = s.nextGroup
    · obtain rfl := hx
      cases hnew.symm.trans hgx
      exact .inr ⟨rfl,rfl,rfl⟩
    · rw [hold hx] at hgx
      exact .inl ⟨hx,hgx⟩
  refine ⟨hbase' ▸ hbase,fun v hv => ?_,fun v => ?_,fun v => ?_,fun v => ?_,fun v thr x hv => ?_,
    fun x m o hgx => ?_,fun x m o hgx => ?_,fun x x' m m' o hgx hgx' => ?_,fun v hv => ?_,fun v hv => ?_,
    fun v hv => ?_,fun v hv => ?_⟩
  · have hv := (hwait v).1 hv
    rw [hbase']
    refine ⟨hin v hv,?_⟩
    rcases hv with rfl | hv
    · exact hthr
    · exact (h.out v hv).2
  · by_cases hvt : v = t
    · rw [hvt, hself]
      exact Waiting.noConfusion
    · rw [hother hvt]
      exact h.core v
  · rw [hreqs, ← hu]
    dsimp only
    split
    · rw [h.ongoing, incU32_eq (h.reqs_length v), List.length_append]
      rfl
    · exact h.ongoing v
  · rw [hreqs]
    split
    · exact List.nodup_append.2 ⟨h.nodup v,List.nodup_singleton _,by
        rintro x hx y hy rfl
        obtain rfl := List.mem_singleton.1 hy
        exact hfresh v hx⟩
    · exact h.nodup v
  · have hor : .termThreadReq thr x ∈ s.pending v ∨ x = s.nextGroup ∧ thr = t := by
      rw [hpending] at hv
      split at hv
      · refine (List.mem_append.1 hv).imp_right fun hx => ?_
        cases List.mem_singleton.1 hx
        exact ⟨rfl,rfl⟩
      · exact .inl hv
    rcases hor with hv | ⟨rfl,rfl⟩
    · obtain ⟨m,hm⟩ := h.req v thr x hv
      have hx : x ≠ s.nextGroup := by
        rintro rfl
        exact Nat.lt_irrefl _ (h.owner _ m thr hm).1
      exact ⟨m,(hold hx).trans hm⟩
    · exact ⟨mask.length,hnew⟩
  · rcases hgroupsOf hgx with ⟨hx,hgx⟩ | ⟨rfl,rfl,rfl⟩
    · simp only [hmemOld hx]
      exact h.count x m o hgx
    · refine ⟨hlen ▸ hsome,?_⟩
      rw [hlen]
      congr 1
      ext v
      rw [Finset.mem_filter, Finset.mem_range, hmemNew]
      exact (and_iff_right_of_imp hlt).symm
  · rw [hnext, hdone, hdoneMem]
    rcases hgroupsOf hgx with ⟨hx,hgx⟩ | ⟨rfl,rfl,rfl⟩
    · obtain ⟨hlt,how,hod,hop⟩ := h.owner x m o hgx
      rw [hother (hne how)]
      exact ⟨Nat.lt_succ_of_lt hlt,how,hod,hop⟩
    · refine ⟨Nat.lt_succ_self _,?_,Bool.of_not_eq_true fun hd => h.idle o hd hw,fun hev => ?_⟩
      · rw [hself]
        exact Waiting.noConfusion
      · exact (h.once o hev).1 hw
  · rcases hgroupsOf hgx with ⟨hx,hgx⟩ | ⟨rfl,-,rfl⟩
    · rcases hgroupsOf hgx' with ⟨hx',hgx'⟩ | ⟨rfl,-,rfl⟩
      · exact h.one x x' m m' o hgx hgx'
      · exact absurd hw (h.owner x m o hgx).2.1
    · rcases hgroupsOf hgx' with ⟨hx',hgx'⟩ | ⟨rfl,-,-⟩
      · exact absurd hw (h.owner x' m' o hgx').2.1
      · rfl
  · rw [hbase', hwait]
    by_cases hvm : v ∈ base.map.thrmaskEmcores
    · exact .inl hvm
    · rw [hreqs, if_neg (mt (hmem v).1 hvm)] at hv
      rcases h.alive v hv with hm | hvw
      · exact .inr (.inl ((Finset.mem_insert.1 (hmask hm)).resolve_right hvm))
      · exact .inr (.inr hvw)
  · rw [hdone, hdoneMem]
    rcases (hwait v).1 hv with rfl | hv
    · exact .inr (.inr ⟨_,_,hnew⟩)
    · refine (h.waits v hv).imp_right (Or.imp_right ?_)
      rintro ⟨x,m,hgx⟩
      have hx : x ≠ s.nextGroup := by
        rintro rfl
        exact Nat.lt_irrefl _ (h.owner _ m v hgx).1
      exact ⟨x,m,(hold hx).trans hgx⟩
  · have hv := h.once v ((hdoneMem v).1 hv)
    rw [hother (hne hv.1), hdone, hdoneEv]
    exact hv
  · rw [hdone] at hv
    exact (hwait v).2 (.inr (h.idle v hv))

/-- A request of an EM core to terminate, of which every event is sent -/
theorem Inv.termCore (h : s.Inv cfg) (hw : s.waiting t = .no)
    (hin : (s.base.locm t).isCoreLocalInited = true) (htype : (s.base.locm t).coreType ≠ some .external)
    {sends : Sends} (hsends : 1 < s.base.map.currentCoreCount → sends = .all) :
    (s.termCore cfg t sends).Inv cfg := by
  have hbase := @State.Inv.emTermLocal s.base cfg t h.base true
  obtain ⟨hmem,hmask,hself,hother⟩ := h.base.term_core hin htype
  have hcard : s.base.map.currentCoreCount = (s.base.emTermLocal t true).1.map.thrmaskEmcores.card + 1 := by
    rw [hmask, Finset.card_erase_of_mem hmem, h.base.map.currentCoreCount, ← h.base.map.card_emcores]
    exact (Nat.succ_pred_eq_of_pos (Finset.card_pos.2 ⟨t,hmem⟩)).symm
  have hout (v : Nat) (hv : v = t ∨ s.waiting v ≠ .no) :
      ((s.base.emTermLocal t true).1.locm v).isCoreLocalInited = false := by
    by_cases hvt : v = t
    · exact hvt ▸ hself
    · rw [hother v hvt]
      exact (h.out v (hv.resolve_left hvt)).1
  have hsub : s.base.map.thrmaskEmcores ⊆
      insert t (s.base.emTermLocal t true).1.map.thrmaskEmcores := by
    rw [hmask, Finset.insert_erase hmem]
  have hthr := h.base.threads t hin
  have hcurrent : (s.base.map.currentCoreCount : Int) - 1 =
      (s.base.emTermLocal t true).1.map.thrmaskEmcores.card := by omega
  have hmask (v : Nat) (hv : v ∈ (s.base.emTermLocal t true).1.map.thrmaskEmcores) : v < cfg.thrMax :=
    hbase.threads v (hbase.emcore_inited hv).1
  rw [TermState.termCore, hcurrent]
  by_cases hlast : (s.base.emTermLocal t true).1.map.thrmaskEmcores.card = 0
  · rw [hlast]
    exact h.beginLast hw hthr hbase hout hsub
  · have hpos := Nat.pos_of_ne_zero hlast
    have hmany : (0 : Int) < (s.base.emTermLocal t true).1.map.thrmaskEmcores.card := by omega
    have hone : (1 : Int) ≤ (s.base.emTermLocal t true).1.map.thrmaskEmcores.card := by omega
    rw [hsends (by omega), requestTerm, if_pos hmany, if_pos hone, if_neg (not_lt_of_ge hone),
      TermState.beginWait, if_neg (not_lt_of_gt hmany)]
    exact h.beginWait hw hthr hbase hout hsub hpos (fun v => mem_mask hmask) (length_mask hmask)

theorem Inv.step (h : s.Inv cfg) {l : TermLabel} (hst : s.step cfg l = some u) (hclean : s.Clean cfg l) :
    u.Inv cfg := by
  cases l with
  | init t odpType conf a =>
    rw [TermState.step] at hst
    split at hst
    · rename_i hw
      obtain rfl := Option.some.inj hst
      exact h.init hw hclean
    · cases hst
  | term t sends =>
    obtain ⟨htype,hsends⟩ := hclean
    rw [TermState.step] at hst
    split at hst
    · rename_i hguard
      have hcore := h.termCore hguard.1 hguard.2 htype hsends
      split at hst
      · rename_i hext
        exact absurd hext htype
      · exact Option.some.inj hst ▸ hcore
      · exact Option.some.inj hst ▸ hcore
      · cases hst
    · cases hst
  | poll t num =>
    rw [TermState.step] at hst
    split at hst
    · obtain rfl := Option.some.inj hst
      refine h.poll fun v => ?_
      by_cases hv : v = t
      · obtain rfl := hv
        rw [Function.update_self, Function.update_self, List.append_assoc, List.take_append_drop]
        rfl
      · rw [Function.update_of_ne hv, Function.update_of_ne hv]
        rfl
    · cases hst
  | handle t i sent =>
    obtain rfl : sent = true := hclean
    obtain ⟨ev,hev,rfl⟩ := Option.map_eq_some_iff.1 hst
    cases ev with
    | termThreadReq thr group => exact h.handleReq hev
    | internalDone => exact h.handleDone hev
  | leave t =>
    rw [TermState.step] at hst
    split at hst
    · rename_i hleaves
      obtain rfl := Option.some.inj hst
      exact h.leave hleaves.1
    · cases hst

end TermState

/-- In every run of initialisations and terminations, interleaved with the handling of the requests,
the counters and flags are those of the pending requests as long as no external thread terminates and
no request is left unsent. -/
theorem term_reqs_balanced {cfg : Config} {s : TermState}
    (h : (termSystem cfg).ReachableVia (fun s l _ => s.Clean cfg l) s) : s.Balanced :=
  (System.ReachableVia.invariant (I := fun s => TermState.Inv s cfg) (fun _ => TermState.Initial.inv)
    (fun _ _ _ hinv hst hclean => hinv.step hst hclean) h).balanced

instance (s : TermState) (cfg : Config) : ∀ l, Decidable (s.Clean cfg l)
  | .init thr odpType conf a => inferInstanceAs (Decidable (s.base.Clean cfg (.init thr odpType conf a)))
  | .term _ _ => inferInstanceAs (Decidable (_ ∧ (_ → _)))
  | .handle _ _ sent => inferInstanceAs (Decidable (sent = true))
  | .poll _ _ | .leave _ => .isTrue trivial

private theorem eight_le : 8 ≤ 65536 := by decide

private def twoCores : Config := ⟨2,8,Nat.two_pos,by decide,by decide,eight_le⟩

private def noThreads : TermState :=
  ⟨⟨{},fun _ => {}⟩,fun _ => 0,fun _ => [],fun _ => [],fun _ => .no,fun _ => false,fun _ => none,0⟩

private theorem noThreads_initial : noThreads.Initial :=
  ⟨rfl,fun _ => rfl,fun _ => rfl,fun _ => rfl,fun _ => rfl,fun _ => rfl,fun _ => rfl⟩

/-- Both EM cores terminate. The first one has sent its request to the second one, and has left its
loop since. -/
private def bothTerm : Option TermState :=
  System.exec (TermState.step · twoCores) (fun s l _ => decide (s.Clean twoCores l)) noThreads
    [.init 3 .worker ⟨.worker,-1⟩ {}, .init 5 .control ⟨.control,-1⟩ {}, .term 3 .all, .term 5 .all,
      .poll 5 16, .handle 5 0 true, .poll 3 16, .handle 3 0 true, .leave 3]

private theorem bothTerm_isSome : bothTerm.isSome = true := by decide

theorem term_reqs_balanced_both : (bothTerm.get bothTerm_isSome).Balanced :=
  term_reqs_balanced (System.ReachableVia.exec (fun _ _ _ => of_decide_eq_true)
    (.start noThreads_initial) (Option.some_get bothTerm_isSome).symm)

private def extthrTerm : Option TermState :=
  System.exec (TermState.step · twoCores) (fun _ _ _ => true) noThreads
    [.init 4 .control ⟨.external,-1⟩ {}, .term 4 .all]

private theorem extthrTerm_isSome : extthrTerm.isSome = true := by decide

/-- An external thread counts a request for itself that is never sent. -/
theorem extthr_counts_own_request :
    ¬∀ (cfg : Config) (s : TermState), (termSystem cfg).Reachable s → s.Balanced := by
  intro hall
  have hbalanced := hall twoCores (extthrTerm.get extthrTerm_isSome)
    (System.ReachableVia.exec (fun _ _ _ _ => trivial) (.start noThreads_initial)
      (Option.some_get extthrTerm_isSome).symm)
  exact absurd (hbalanced.ongoing 4) (by decide)

end EmOdp.Threads
