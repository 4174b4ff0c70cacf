import EmOdp.Lib.History
import EmOdp.LocalQueues.Machine

/-! What the local queues took in leaves them once, in order and from the highest priority on,
and the hints never hide an event. -/
namespace EmOdp.LocalQueues
open Lib

variable {prioNum : Nat}

def accepted (log : List (Obs prioNum)) : List (Entry prioNum) :=
  log.flatMap fun
    | .stashed es => es
    | _ => []

def taken (log : List (Obs prioNum)) : List (Entry prioNum) :=
  log.flatMap fun
    | .fetched _ es => es
    | _ => []

def handled (log : List (Obs prioNum)) : List (Entry prioNum) :=
  log.flatMap fun
    | .dispatched _ es => es
    | .freed _ es => es
    | .returned es => es
    | .flushed es => es
    | _ => []

def atPrio (prio : Fin prioNum) (es : List (Entry prioNum)) : List (Entry prioNum) :=
  es.filter fun entry => entry.prio = prio

/-- What is done comes from the highest priority, to the queue of the event, and depends on
the queue when the run of its events was begun. -/
def Rightly (w : World prioNum) (pre : List (Obs prioNum)) : Obs prioNum → Prop
  | .fetched prio es => es ≠ [] ∧ (∀ entry ∈ es, entry.prio = prio) ∧
      ∀ higher, prio < higher → atPrio higher (accepted pre) = atPrio higher (taken pre)
  | .dispatched qidx es => (∀ entry ∈ es, entry.qidx = qidx) ∧
      ∃ begun, begun <+: pre ∧ taken begun = taken pre ∧ (readyElem w begun qidx).isSome
  | .freed qidx es => (∀ entry ∈ es, entry.qidx = qidx) ∧ readyElem w pre qidx = none
  | _ => True

/-- The events of `hand` are fetched and still to be handled. -/
structure Sound (w : World prioNum) (s : Locm prioNum) (hand : List (Entry prioNum)) : Prop where
  empty : s.empty → ∀ prio, s.stash prio = []
  emptyPrio : ∀ prio, s.emptyPrio prio → s.stash prio = []
  inOrder : ∀ prio, atPrio prio (accepted s.log) = atPrio prio (taken s.log) ++ s.stash prio
  once : taken s.log = handled s.log ++ hand
  rightly : Throughout (Rightly w) s.log

/-- `local_event_cnt` has grown by the number of events taken. -/
def Grown (s t : Locm prioNum) : Prop :=
  ∃ es, taken t.log = taken s.log ++ es ∧
    t.localEventCnt = s.localEventCnt + BitVec.ofNat 64 es.length

/-- Nothing was fetched since. -/
structure Kept (s t : Locm prioNum) : Prop where
  later : s.log <+: t.log
  takenEq : taken t.log = taken s.log
  cnt : t.localEventCnt = s.localEventCnt

section Logs
variable {log : List (Obs prioNum)} {prio : Fin prioNum} {es : List (Entry prioNum)}

@[simp] theorem accepted_snoc (obs : Obs prioNum) :
    accepted (log ++ [obs]) = accepted log ++ (match obs with | .stashed es => es | _ => []) := by
  rw [accepted, List.flatMap_append, List.flatMap_singleton]
  rfl

@[simp] theorem taken_snoc (obs : Obs prioNum) :
    taken (log ++ [obs]) = taken log ++ (match obs with | .fetched _ es => es | _ => []) := by
  rw [taken, List.flatMap_append, List.flatMap_singleton]
  rfl

@[simp] theorem handled_snoc (obs : Obs prioNum) :
    handled (log ++ [obs]) = handled log ++ (match obs with
      | .dispatched _ es => es
      | .freed _ es => es
      | .returned es => es
      | .flushed es => es
      | _ => []) := by
  rw [handled, List.flatMap_append, List.flatMap_singleton]
  rfl

theorem atPrio_append (es es' : List (Entry prioNum)) :
    atPrio prio (es ++ es') = atPrio prio es ++ atPrio prio es' := List.filter_append ..

theorem atPrio_self (h : ∀ entry ∈ es, entry.prio = prio) : atPrio prio es = es :=
  List.filter_eq_self.2 fun entry he => decide_eq_true (h entry he)

theorem atPrio_ne {other : Fin prioNum} (h : ∀ entry ∈ es, entry.prio = prio) (hne : other ≠ prio) :
    atPrio other es = [] :=
  List.filter_eq_nil_iff.2 fun entry he => by simpa [h entry he] using hne.symm

end Logs

theorem Kept.refl (s : Locm prioNum) : Kept s s := ⟨List.prefix_refl _,rfl,rfl⟩

theorem Kept.trans {s t u : Locm prioNum} (h : Kept s t) (h' : Kept t u) : Kept s u :=
  ⟨h.later.trans h'.later,h'.takenEq.trans h.takenEq,h'.cnt.trans h.cnt⟩

theorem Grown.refl (s : Locm prioNum) : Grown s s := ⟨[],by simp,by simp⟩

theorem Grown.trans {s t u : Locm prioNum} (h : Grown s t) (h' : Grown t u) : Grown s u := by
  obtain ⟨es,htaken,hcnt⟩ := h
  obtain ⟨es',htaken',hcnt'⟩ := h'
  refine ⟨es ++ es',?_,?_⟩
  · rw [htaken', htaken, List.append_assoc]
  · rw [hcnt', hcnt, List.length_append, BitVec.ofNat_add, BitVec.add_assoc]

theorem Kept.grown {s t : Locm prioNum} (h : Kept s t) : Grown s t :=
  ⟨[],by rw [h.takenEq, List.append_nil],by rw [h.cnt]; simp⟩

variable {w : World prioNum} {s : Locm prioNum} {hand : List (Entry prioNum)}

theorem Sound.init : Sound w queueInitLocal [] :=
  ⟨fun _ _ => rfl,fun _ _ => rfl,fun _ => rfl,rfl,.nil⟩

theorem Sound.prio (h : Sound w s hand) {prio : Fin prioNum} :
    ∀ entry ∈ s.stash prio, entry.prio = prio := by
  intro entry he
  have hmem : entry ∈ atPrio prio (accepted s.log) := by
    rw [h.inOrder]
    exact List.mem_append_right _ he
  exact of_decide_eq_true (List.mem_filter.1 hmem).2

/-- The events of the hand are handled from its front on. -/
theorem Sound.handle {es : List (Entry prioNum)} {obs : Obs prioNum} (h : Sound w s (es ++ hand))
    (hobs : Rightly w s.log obs) (haccepted : ∀ log, accepted (log ++ [obs]) = accepted log)
    (htaken : ∀ log, taken (log ++ [obs]) = taken log)
    (hhandled : ∀ log, handled (log ++ [obs]) = handled log ++ es) : Sound w (s.note obs) hand where
  empty := h.empty
  emptyPrio := h.emptyPrio
  inOrder prio := by
    rw [Locm.note, haccepted, htaken]
    exact h.inOrder prio
  once := by
    rw [Locm.note, htaken, hhandled, List.append_assoc]
    exact h.once
  rightly := h.rightly.snoc hobs

section Sends

/-- What the stash takes is put last, and then no hint hides it. -/
theorem Sound.put {t : Locm prioNum} {prio : Fin prioNum} {es : List (Entry prioNum)}
    (h : Sound w s hand) (hes : ∀ entry ∈ es, entry.prio = prio)
    (hstash : t.stash = Function.update s.stash prio (s.stash prio ++ es))
    (hlog : t.log = s.log ++ [.stashed es])
    (hempty : t.empty → s.empty ∧ es = [])
    (hemptyPrio : ∀ p, t.emptyPrio p → s.emptyPrio p ∧ (p = prio → es = [])) :
    Sound w t hand where
  empty ht p := by
    obtain ⟨hs,rfl⟩ := hempty ht
    rw [hstash, List.append_nil, Function.update_eq_self]
    exact h.empty hs p
  emptyPrio p ht := by
    obtain ⟨hs,hp⟩ := hemptyPrio p ht
    rw [hstash]
    rcases eq_or_ne p prio with rfl | hne
    · rw [hp rfl, List.append_nil, Function.update_eq_self]
      exact h.emptyPrio p hs
    · rw [Function.update_of_ne hne]
      exact h.emptyPrio p hs
  inOrder p := by
    rw [hlog, hstash]
    simp only [accepted_snoc, taken_snoc, List.append_nil, atPrio_append, h.inOrder p,
      List.append_assoc]
    rcases eq_or_ne p prio with rfl | hne
    · rw [Function.update_self, atPrio_self hes]
    · rw [Function.update_of_ne hne, atPrio_ne hes hne, List.append_nil]
  once := by
    rw [hlog]
    simpa using h.once
  rightly := by
    rw [hlog]
    exact h.rightly.snoc trivial

theorem Kept.snoc {t u : Locm prioNum} {obs : Obs prioNum} (h : Kept s t)
    (hlog : u.log = t.log ++ [obs]) (hcnt : u.localEventCnt = t.localEventCnt)
    (htaken : taken (t.log ++ [obs]) = taken t.log) : Kept s u where
  later := by
    rw [hlog]
    exact h.later.trans (List.prefix_append _ _)
  takenEq := by rw [hlog, htaken, h.takenEq]
  cnt := hcnt.trans h.cnt

theorem stashPut_kept {t : Locm prioNum} (h : Kept s t) (prio : Fin prioNum)
    (entryTbl : List (Entry prioNum)) : Kept s (stashPut w prio entryTbl t).2 :=
  h.snoc rfl rfl (by simp)

theorem Kept.notEmpty {t : Locm prioNum} (h : Kept s t) (prio : Fin prioNum) :
    Kept s (t.notEmpty prio) := ⟨h.later,h.takenEq,h.cnt⟩

theorem Sound.reject (h : Sound w s hand) : Sound w (s.note (.stashed [])) hand := by
  have hnone : Sound w s ([] ++ hand) := h
  exact hnone.handle trivial (by simp) (by simp) (by simp)

section Put
variable {prio : Fin prioNum} {entryTbl : List (Entry prioNum)}

theorem Sound.stashed (h : Sound w s hand) (hes : ∀ entry ∈ entryTbl, entry.prio = prio) :
    Sound w ((stashPut w prio entryTbl s).2.notEmpty prio) hand := by
  refine h.put (fun entry he => hes entry (List.mem_of_mem_take he)) rfl rfl (fun ht => ?_)
    fun p ht => ?_
  · cases ht
  · rw [Locm.notEmpty] at ht
    rcases eq_or_ne p prio with rfl | hne
    · simp at ht
    · simp only [Function.update_of_ne hne] at ht
      exact ⟨ht,fun heq => absurd heq hne⟩

theorem Sound.failed (h : Sound w s hand) (hret : (stashPut w prio entryTbl s).1 ≤ 0) :
    Sound w (stashPut w prio entryTbl s).2 hand := by
  have hnone : entryTbl.take (stashPut w prio entryTbl s).1.toNat = [] := by
    rw [Int.toNat_of_nonpos hret, List.take_zero]
  exact h.put (fun entry he => absurd (hnone ▸ he) List.not_mem_nil) rfl rfl (fun ht => ⟨ht,hnone⟩)
    fun p ht => ⟨ht,fun _ => hnone⟩

end Put

theorem Send.run_sound (req : Send) (h : Sound w s hand) : Sound w (req.run w s) hand := by
  cases req with
  | one event queue =>
    simp only [Send.run, sendLocal]
    split
    · exact h.reject
    · split
      · exact h.stashed (by simp)
      · next hret =>
        have hle : (stashPut w (w.queueElem s.log queue).priority
          [⟨queue,event,(w.queueElem s.log queue).priority⟩] s).1 ≤ 1 := Int.min_le_right _ _
        exact h.failed (by omega)
  | multi events queue =>
    simp only [Send.run, sendLocalMulti]
    split
    · exact h.reject
    · split
      · exact h.stashed (by simp)
      · next hret => exact h.failed (by omega)

theorem Send.run_kept {t : Locm prioNum} (req : Send) (h : Kept s t) : Kept s (req.run w t) := by
  have hreject : Kept s (t.note (.stashed [])) := h.snoc rfl rfl (by simp)
  have hput (prio : Fin prioNum) (tbl : List (Entry prioNum)) := stashPut_kept (w := w) h prio tbl
  cases req with
  | one event queue =>
    simp only [Send.run, sendLocal]
    split
    · exact hreject
    · split
      · exact (hput _ _).notEmpty _
      · exact hput _ _
  | multi events queue =>
    simp only [Send.run, sendLocalMulti]
    split
    · exact hreject
    · split
      · exact (hput _ _).notEmpty _
      · exact hput _ _

end Sends

section Fetch

/-- What `next_local_queue_events` returns is all it took out. -/
structure Fetched (w : World prioNum) (s t : Locm prioNum) (es : List (Entry prioNum)) : Prop where
  sound : Sound w t es
  drained : es = [] → ∀ prio, t.stash prio = []
  takenEq : taken t.log = taken s.log ++ es
  cnt : t.localEventCnt = s.localEventCnt

variable {prio : Fin prioNum} {numEvents : Nat}

theorem stashGet_nil (h : s.stash prio = []) : stashGet w prio numEvents s = ([],s) := by
  rw [stashGet, h, List.take_nil, List.drop_nil, ← h, Function.update_eq_self]

theorem stashGet_ne_nil (hnum : 0 < numEvents) (h : s.stash prio ≠ []) :
    (stashGet w prio numEvents s).1 ≠ [] := by
  have hpos : 0 < min numEvents (w.ready s.log + 1) := by omega
  simp only [stashGet, ne_eq, List.take_eq_nil_iff, not_or]
  exact ⟨hpos.ne',h⟩

theorem stashGet_append : (stashGet w prio numEvents s).1 ++
    (stashGet w prio numEvents s).2.stash prio = s.stash prio := by
  simp [stashGet]

/-- The batch is taken from the front of the stash, with nothing pending above it. -/
theorem Sound.fetch (h : Sound w s []) (hnum : 0 < numEvents) (hne : s.stash prio ≠ [])
    (habove : ∀ higher, prio < higher → s.stash higher = []) :
    let got := stashGet w prio numEvents s
    Fetched w s (got.2.note (.fetched prio got.1)) got.1 := by
  intro got
  have hprio : ∀ entry ∈ got.1, entry.prio = prio :=
    fun entry he => h.prio entry (List.mem_of_mem_take he)
  have hother (p : Fin prioNum) (hp : p ≠ prio) : got.2.stash p = s.stash p :=
    Function.update_of_ne hp _ _
  have hnone (p : Fin prioNum) (hp : s.stash p = []) : got.2.stash p = [] := by
    have hpne : p ≠ prio := by
      rintro rfl
      exact hne hp
    rw [hother p hpne, hp]
  refine ⟨⟨fun he p => hnone p (h.empty he p),fun p he => hnone p (h.emptyPrio p he),fun p => ?_,?_,?_⟩,
    fun hnil => absurd hnil (stashGet_ne_nil hnum hne),?_,rfl⟩
  · show atPrio p (accepted (s.log ++ [.fetched prio got.1])) =
      atPrio p (taken (s.log ++ [.fetched prio got.1])) ++ got.2.stash p
    simp only [accepted_snoc, taken_snoc, List.append_nil, atPrio_append, h.inOrder p,
      List.append_assoc]
    rcases eq_or_ne p prio with rfl | hp
    · rw [atPrio_self hprio, stashGet_append]
    · rw [hother p hp, atPrio_ne hprio hp, List.nil_append]
  · show taken (s.log ++ [.fetched prio got.1]) = handled (s.log ++ [.fetched prio got.1]) ++ got.1
    simp only [taken_snoc, handled_snoc, List.append_nil]
    rw [h.once, List.append_nil]
  · refine h.rightly.snoc ⟨stashGet_ne_nil hnum hne,hprio,fun higher hlt => ?_⟩
    have hord := h.inOrder higher
    rwa [habove higher hlt, List.append_nil] at hord
  · exact taken_snoc _

theorem nextPrio_fetched (hnum : 0 < numEvents) {prios : List (Fin prioNum)}
    (hdown : prios.Pairwise (· > ·)) (hs : Sound w s [])
    (hrest : ∀ prio, prio ∉ prios → s.stash prio = []) :
    Fetched w s (nextPrio w numEvents prios s).2 (nextPrio w numEvents prios s).1 := by
  induction prios generalizing s with
  | nil =>
    have hnone (prio : Fin prioNum) : s.stash prio = [] := hrest prio List.not_mem_nil
    exact ⟨⟨fun _ => hnone,hs.emptyPrio,hs.inOrder,hs.once,hs.rightly⟩,fun _ => hnone,
      (List.append_nil _).symm,rfl⟩
  | cons prio lower ih =>
    obtain ⟨hlower,hdown⟩ := List.pairwise_cons.1 hdown
    have hskip (hnil : s.stash prio = []) : ∀ p, p ∉ lower → s.stash p = [] := by
      intro p hp
      rcases eq_or_ne p prio with rfl | hne
      · exact hnil
      · exact hrest p (by simp [hne, hp])
    rw [nextPrio]
    by_cases he : s.emptyPrio prio
    · rw [if_pos he]
      exact ih hdown hs (hskip (hs.emptyPrio prio he))
    · rw [if_neg he]
      by_cases hnil : s.stash prio = []
      · simp only [stashGet_nil hnil, ne_eq, not_true_eq_false, if_false]
        have hmark : Sound w { s with emptyPrio := Function.update s.emptyPrio prio true } [] := by
          refine ⟨hs.empty,fun p hp => ?_,hs.inOrder,hs.once,hs.rightly⟩
          rcases eq_or_ne p prio with rfl | hne
          · exact hnil
          · simp only [Function.update_of_ne hne] at hp
            exact hs.emptyPrio p hp
        obtain ⟨hsound,hdrained,htaken,hcnt⟩ := ih hdown hmark (hskip hnil)
        exact ⟨hsound,hdrained,htaken,hcnt⟩
      · have hne := stashGet_ne_nil (w := w) hnum hnil
        simp only [if_pos hne]
        refine hs.fetch hnum hnil fun higher hlt => hrest higher fun hmem => ?_
        rcases List.mem_cons.1 hmem with rfl | hmem
        · exact lt_irrefl _ hlt
        · exact lt_asymm hlt (hlower higher hmem)

theorem nextLocalQueueEvents_fetched (hnum : 0 < numEvents) (hs : Sound w s []) :
    Fetched w s (nextLocalQueueEvents w numEvents s).2 (nextLocalQueueEvents w numEvents s).1 := by
  rw [nextLocalQueueEvents]
  by_cases he : s.empty
  · rw [if_pos he]
    exact ⟨hs,fun _ => hs.empty he,(List.append_nil _).symm,rfl⟩
  · rw [if_neg he]
    refine nextPrio_fetched hnum ?_ hs fun prio hp => absurd hp (by simp)
    exact List.pairwise_reverse.2 (List.pairwise_lt_finRange prioNum)

end Fetch
end EmOdp.LocalQueues
