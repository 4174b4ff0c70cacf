import EmOdp.EventFree.Accesses

/-! `em_free`, and `em_free_multi` with its compaction of three arrays -/
namespace EmOdp.EventFree
open EventState Lib.Pointwise

/-- Is a check for active timeouts of timer rings needed? -/
def Config.checkTmos (cfg : Config) : Bool := 2 ≤ cfg.checkLevel && cfg.ringsUsed

section Single
variable (cfg : Config)

/-- `em_free`, with what is given to `odp_event_free` -/
def emFree (event : EvHdl) (m : Memory) : Option (Memory × List OdpEvt) :=
  if 0 < cfg.checkLevel ∧ event = emEventUndef then some (m,[])
  else
    let odpEvent := event.evptr
    let e := m.event odpEvent
    if cfg.checkTmos ∧ e.type = .timeout then
      if e.tmoActive then some (m,[])
      else (if cfg.esvEnabled then m.access odpEvent fun e => e.evstateFree cfg .other event
        else some m).map fun m => (m,[odpEvent])
    else if cfg.esvEnabled then
      if e.hdr.odpType then some (m,[odpEvent])
      else do
        let m ← m.access odpEvent fun e => e.evstateFree cfg .other event
        let m ← (if e.isVectorType then m.eventVectorPrepareFreeFull cfg .other odpEvent else some m)
        return (m,[odpEvent])
    else some (m,[odpEvent])

/-- `em_free` on each event in order -/
def emFreeEach : List EvHdl → Memory → Option (Memory × List OdpEvt)
  | [], m => some (m,[])
  | event :: events, m => do
    let r ← emFree cfg event m
    let rest ← emFreeEach events r.1
    return (rest.1,r.2 ++ rest.2)

end Single

/-- The arrays of `em_free_multi` -/
structure FreeTbls where
  odpEvtbl : List OdpEvt
  evHdrTbl : List OdpEvt
  evTbl : List EvHdl

/-- An active timeout at an index -/
def FreeTbls.activeTmo (t : FreeTbls) (m : Memory) (i : Nat) : Bool :=
  (t.odpEvtbl[i]?.any fun odpEvent => (m.event odpEvent).type = .timeout) &&
    t.evHdrTbl[i]?.any fun evHdr => (m.event evHdr).tmoActive

/-- The loop that copies the events at the indexes to `dst` and on, for one of the arrays -/
def copyDown {α : Type*} : Nat → List Nat → List α → List α
  | _, [], tbl => tbl
  | dst, src :: srcs, tbl =>
    copyDown (dst+1) srcs (match tbl[src]? with | some x => tbl.set dst x | none => tbl)

/-- `rem_active_ring_timer_tmos` -/
def remActiveRingTimerTmos (m : Memory) (num : Nat) (t : FreeTbls) : Nat × FreeTbls :=
  match (List.range num).find? (t.activeTmo m) with
  | none => (num,t)
  | some firstTmoIdx =>
    if firstTmoIdx + 1 = num then (num - 1,t)
    else
      let cpyIdx := (List.range' (firstTmoIdx+1) (num - (firstTmoIdx+1))).filter fun i => !t.activeTmo m i
      if cpyIdx.length = 0 then (firstTmoIdx,t)
      else (firstTmoIdx + cpyIdx.length,⟨copyDown firstTmoIdx cpyIdx t.odpEvtbl,
        copyDown firstTmoIdx cpyIdx t.evHdrTbl,copyDown firstTmoIdx cpyIdx t.evTbl⟩)

section Multi
variable (cfg : Config)

/-- The pass of `em_free_multi` over the vectors -/
def prepareFreeVectors (op : ApiOp) : List EvHdl → Memory → Option Memory
  | [], m => some m
  | event :: events, m => do
    let m ← (if (m.event event.evptr).isVectorType then m.eventVectorPrepareFreeFull cfg op event.evptr
      else some m)
    prepareFreeVectors op events m

/-- The arrays of `em_free_multi` without active timeouts, where these are looked for -/
def freeTbls (events : List EvHdl) (m : Memory) : Nat × FreeTbls :=
  let odpEvents := events.map EvHdl.evptr
  let t : FreeTbls := ⟨odpEvents,odpEvents,events⟩
  if cfg.checkTmos then remActiveRingTimerTmos m events.length t else (events.length,t)

/-- `em_free_multi`, with what is given to `odp_event_free_multi` -/
def emFreeMulti (events : List EvHdl) (m : Memory) : Option (Memory × List OdpEvt) :=
  if events = [] then some (m,[])
  else if 3 ≤ cfg.checkLevel ∧ emEventUndef ∈ events then some (m,[])
  else
    let (numFree,t) := freeTbls cfg events m
    if cfg.esvEnabled then do
      let event ← evstateFreeMulti cfg .other (t.evTbl.take numFree) (t.evHdrTbl.take numFree) m.event
      let m ← prepareFreeVectors cfg .other (t.evTbl.take numFree) { m with event }
      return (m,t.odpEvtbl.take numFree)
    else some (m,t.odpEvtbl.take numFree)

end Multi

section Compact
variable {α β : Type*}

/-- What is copied down lies behind what has been written. -/
private theorem copyDown_take {srcs : List Nat} {dst : Nat} {tbl : List α}
    (hsorted : srcs.Pairwise (· < ·)) (hdst : ∀ src ∈ srcs, dst < src) (hlt : ∀ src ∈ srcs, src < tbl.length) :
    (copyDown dst srcs tbl).take (dst + srcs.length) = tbl.take dst ++ srcs.filterMap (tbl[·]?) := by
  induction srcs generalizing dst tbl with
  | nil => simp only [copyDown, List.length_nil, Nat.add_zero, List.filterMap_nil, List.append_nil]
  | cons src srcs ih =>
    obtain ⟨hhead,htail⟩ := List.pairwise_cons.1 hsorted
    have hsrc : src < tbl.length := hlt src List.mem_cons_self
    have hds : dst < src := hdst src List.mem_cons_self
    have hsame : srcs.filterMap ((tbl.set dst tbl[src])[·]?) = srcs.filterMap (tbl[·]?) :=
      List.filterMap_congr fun i hi => List.getElem?_set_ne (Nat.ne_of_lt (hdst i (List.mem_cons_of_mem _ hi)))
    rw [copyDown, List.getElem?_eq_getElem hsrc]
    dsimp only
    rw [List.length_cons, show dst + (srcs.length + 1) = dst + 1 + srcs.length by omega]
    rw [ih htail (fun i hi => Nat.lt_of_le_of_lt hds (hhead i hi))
      (fun i hi => by rw [List.length_set]; exact hlt i (List.mem_cons_of_mem _ hi)), hsame]
    have hwritten : (tbl.set dst tbl[src]).take (dst+1) = tbl.take dst ++ [tbl[src]] := by
      rw [List.take_set, List.take_succ_eq_append_getElem (by omega),
        List.set_append_right _ _ (by rw [List.length_take]; omega), List.length_take,
        Nat.min_eq_left (by omega), Nat.sub_self]
      rfl
    rw [hwritten, List.append_assoc, List.filterMap_cons, List.getElem?_eq_getElem hsrc]
    rfl

/-- The elements behind an index that are not active -/
private theorem filterMap_range' {xs : List α} {P : α → Bool} {act : Nat → Bool} (n k : Nat)
    (hn : k + n = xs.length) (hact : ∀ i (h : i < xs.length), act i = P xs[i]) :
    ((List.range' k n).filter fun i => !act i).filterMap (xs[·]?) = (xs.drop k).filter fun x => !P x := by
  induction n generalizing k with
  | zero =>
    rw [List.drop_eq_nil_of_le (by omega)]
    rfl
  | succ n ih =>
    have hk : k < xs.length := by omega
    have hrest := ih (k+1) (by omega)
    rw [List.range'_succ, List.drop_eq_getElem_cons hk, List.filter_cons, List.filter_cons, hact k hk]
    split
    · rw [List.filterMap_cons, List.getElem?_eq_getElem hk, hrest]
    · exact hrest

/-- The first active element and those thereafter are left out. -/
private theorem filter_split {xs : List α} {P : α → Bool} {first : Nat} (hfirst : first < xs.length)
    (hP : P xs[first] = true) (hbefore : ∀ i (h : i < xs.length), i < first → P xs[i] = false) :
    xs.filter (fun x => !P x) = xs.take first ++ (xs.drop (first+1)).filter fun x => !P x := by
  have hsplit : xs = xs.take first ++ xs[first] :: xs.drop (first+1) := by
    rw [← List.drop_eq_getElem_cons hfirst, List.take_append_drop]
  have htake : (xs.take first).filter (fun x => !P x) = xs.take first := by
    refine List.filter_eq_self.2 fun x hx => ?_
    obtain ⟨i,hi,rfl⟩ := List.mem_take_iff_getElem.1 hx
    rw [hbefore i (by omega) (by omega)]
    rfl
  conv_lhs => rw [hsplit]
  rw [List.filter_append, htake, List.filter_cons, hP]
  rfl

variable {m : Memory} {events : List EvHdl}

/-- The check of `em_free` for an event -/
def activeTmo (m : Memory) (event : EvHdl) : Bool :=
  decide ((m.event event.evptr).type = .timeout) && (m.event event.evptr).tmoActive

/-- The three arrays are compacted alike: the active timeouts are left out of them. -/
theorem remActiveRingTimerTmos_take {numFree : Nat} {t : FreeTbls}
    (h : remActiveRingTimerTmos m events.length ⟨events.map EvHdl.evptr,events.map EvHdl.evptr,events⟩ =
      (numFree,t)) :
    t.evTbl.take numFree = events.filter (fun event => !activeTmo m event) ∧
      t.odpEvtbl.take numFree = (events.filter fun event => !activeTmo m event).map EvHdl.evptr ∧
      t.evHdrTbl.take numFree = (events.filter fun event => !activeTmo m event).map EvHdl.evptr := by
  generalize ht₀ : (⟨events.map EvHdl.evptr,events.map EvHdl.evptr,events⟩ : FreeTbls) = t₀ at h
  have hact (i : Nat) (hi : i < events.length) : t₀.activeTmo m i = activeTmo m events[i] := by
    rw [← ht₀, FreeTbls.activeTmo]
    simp only [List.getElem?_map, List.getElem?_eq_getElem hi, Option.map_some, Option.any_some]
    rfl
  rw [remActiveRingTimerTmos] at h
  cases hfind : (List.range events.length).find? (t₀.activeTmo m) with
  | none =>
    rw [hfind] at h
    cases h
    have hall : events.filter (fun event => !activeTmo m event) = events := by
      refine List.filter_eq_self.2 fun event hevent => ?_
      obtain ⟨i,hi,rfl⟩ := List.mem_iff_getElem.1 hevent
      have hnone := List.find?_eq_none.1 hfind i (List.mem_range.2 hi)
      rw [hact i hi, Bool.not_eq_true] at hnone
      rw [hnone]
      rfl
    rw [hall, ← ht₀]
    dsimp only
    rw [List.take_length, List.take_of_length_le (List.length_map ..).le]
    exact ⟨rfl,rfl,rfl⟩
  | some first =>
    rw [hfind] at h
    dsimp only at h
    have hmem := List.mem_of_find?_eq_some hfind
    have hfirst : first < events.length := List.mem_range.1 hmem
    have hP : activeTmo m events[first] = true := by
      rw [← hact first hfirst]
      exact List.find?_some hfind
    have hbefore (i : Nat) (hi : i < events.length) (hlt : i < first) : activeTmo m events[i] = false := by
      rw [← hact i hi]
      have hnot := (List.find?_range_eq_some.1 hfind).2.2 i hlt
      rw [Bool.not_eq_true'] at hnot
      exact hnot
    set cpyIdx := (List.range' (first+1) (events.length - (first+1))).filter fun i => !t₀.activeTmo m i
      with hcpy
    -- the shortcuts do what the loop does without an index
    have hsame : (numFree,t) = (first + cpyIdx.length,⟨copyDown first cpyIdx t₀.odpEvtbl,
        copyDown first cpyIdx t₀.evHdrTbl,copyDown first cpyIdx t₀.evTbl⟩) := by
      rw [← h]
      split
      · rename_i hlast
        have hnil : cpyIdx = [] := by
          rw [hcpy, show events.length - (first+1) = 0 by omega]
          rfl
        rw [hnil]
        exact Prod.ext (by dsimp only [List.length_nil]; omega) rfl
      · split
        · rename_i hzero
          rw [List.eq_nil_of_length_eq_zero hzero]
          rfl
        · rfl
    have hcopy {β : Type} (f : EvHdl → β) : (copyDown first cpyIdx (events.map f)).take
        (first + cpyIdx.length) = (events.filter fun event => !activeTmo m event).map f := by
      have hrange {i : Nat} (hi : i ∈ cpyIdx) : first + 1 ≤ i ∧ i < events.length := by
        have hi := List.mem_range'_1.1 (List.mem_of_mem_filter hi)
        omega
      rw [copyDown_take ((List.pairwise_lt_range').filter _) (fun i hi => (hrange hi).1)
        (fun i hi => by rw [List.length_map]; exact (hrange hi).2),
        filter_split (P := activeTmo m) hfirst hP hbefore, List.map_append, List.map_take,
        ← filterMap_range' (events.length - (first+1)) (first+1) (by omega) hact, List.map_filterMap]
      refine congrArg _ (List.filterMap_congr fun i _ => ?_)
      rw [List.getElem?_map]
    cases hsame
    rw [← ht₀]
    refine ⟨?_,hcopy EvHdl.evptr,hcopy EvHdl.evptr⟩
    have hid := hcopy id
    rw [List.map_id, List.map_id] at hid
    exact hid

end Compact

end EmOdp.EventFree
