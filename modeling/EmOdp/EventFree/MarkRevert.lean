import Mathlib.Algebra.Order.BigOperators.Group.List
import EmOdp.EventFree.MarkFree
import EmOdp.EventState.Generation

/-! Unmarking takes back what marking did: the states, the handles in the headers and those in the tables of
vectors are as they were. -/
namespace EmOdp.EventFree
open EventState EvstateCnt Lib.Pointwise

variable {cfg : Config} {m m' : Memory} {events : List EvHdl} {event : EvHdl} {e e' : OdpEvent} {p : OdpEvt}

section State
variable {op : ApiOp} {b c : BitVec 16} {t j n : Nat} {s r : Int}

/-- The counters of an event that the user holds `n` times -/
structure OdpEvent.Held (n t : Nat) (s r : Int) (e : OdpEvent) : Prop where
  stateCnt : e.hdr.stateCnt = encode (gen t) s r
  sends : 0 ≤ s
  refs : s + n ≤ r
  refs_lt : r < 0x8000
  evgen : e.hdr.refsUsed = false → n ≤ 1 ∧ e.hdr.event.evgen = BitVec.ofInt 16 (gen t)

/-- `b` references or `c` sends are taken with each mark. -/
def OneCnt (b c : BitVec 16) : Prop := (b = 1 ∧ c = 0) ∨ (b = 0 ∧ c = 1)

/-- The event `e`, marked `j` times -/
structure Marked (cfg : Config) (op : ApiOp) (b c : BitVec 16) (t : Nat) (s r : Int) (e : OdpEvent) (j : Nat)
    (x : OdpEvent) : Prop where
  eq : x = { e with
    hdr := { e.hdr with stateCnt := encode (gen (t+j)) (s + c.toNat * j) (r - b.toNat * j) }
    apiOp := x.apiOp }
  apiOp : j = 1 → cfg.storeState = true → e.hdr.refsUsed = false → x.apiOp = op

/-- Without a mark the event is as it was. -/
theorem OdpEvent.Held.unmarked (h : e.Held n t s r) :
    { e.hdr with stateCnt := encode (gen (t+0)) (s + c.toNat * (0 : Nat)) (r - b.toNat * (0 : Nat)) } = e.hdr := by
  rw [Nat.cast_zero, mul_zero, mul_zero, add_zero, add_zero, sub_zero, ← h.stateCnt]

/-- Neither a mark nor an unmark is reported. -/
theorem OdpEvent.Held.accepts (h : e.Held n t s r) (hone : OneCnt b c) {i : Nat} (hi : i < n) (hj : j ≤ n)
    (hcur : e.hdr.refsUsed = false → event.evgen = e.hdr.event.evgen) :
    ¬(encode (gen (t+i)) (s + c.toNat * j) (r - b.toNat * j)).usr2emError e.hdr.refsUsed event := by
  obtain ⟨-,hs,hsr,hr,hgen⟩ := h
  refine not_usr2emError_encode ?_ ?_ ?_ fun href => ?_
  · rcases hone with ⟨rfl,rfl⟩ | ⟨rfl,rfl⟩ <;> simp <;> omega
  · rcases hone with ⟨rfl,rfl⟩ | ⟨rfl,rfl⟩ <;> simp <;> omega
  · rcases hone with ⟨rfl,rfl⟩ | ⟨rfl,rfl⟩ <;> simp <;> omega
  · obtain ⟨hn,hevgen⟩ := hgen href
    obtain rfl : i = 0 := by omega
    rw [hcur href]
    exact hevgen

theorem Marked.mark {x : OdpEvent} {v : Variant} (h : e.Held n t s r) (hone : OneCnt b c) (hj : j < n)
    (hcur : e.hdr.refsUsed = false → event.evgen = e.hdr.event.evgen) (hx : Marked cfg op b c t s r e j x) :
    ∃ y, x.esvUsr2em cfg op v event (ofParts 1 0 b c) false = some y ∧ Marked cfg op b c t s r e (j+1) y := by
  obtain ⟨heq,-⟩ := hx
  have hcnt : x.hdr.stateCnt = encode (gen (t+j)) (s + c.toNat * j) (r - b.toNat * j) := by rw [heq]
  have href : x.hdr.refsUsed = e.hdr.refsUsed := by rw [heq]
  have hs : s + c.toNat * j + c.toNat = s + c.toNat * (j+1 : Nat) := by push_cast; ring
  have hr : r - b.toNat * j - b.toNat = r - b.toNat * (j+1 : Nat) := by push_cast; ring
  have hmark := @esvUsr2em_counts v event x.hdr (t+j) _ _ b c hcnt
  rw [hs, hr, href, if_neg (h.accepts hone hj hj hcur)] at hmark
  rw [OdpEvent.esvUsr2em, hmark]
  refine ⟨_,rfl,?_,fun _ hstore href' => ?_⟩
  · rw [heq]
    rfl
  · rw [hstore, href']
    rfl

theorem Marked.check {x : OdpEvent} (h : e.Held n t s r) (hj : j < n) (hx : Marked cfg op b c t s r e (j+1) x) :
    x.checkValidUnmark cfg op = some x := by
  obtain ⟨heq,hop⟩ := hx
  have href : x.hdr.refsUsed = e.hdr.refsUsed := by rw [heq]
  rw [OdpEvent.checkValidUnmark, if_neg]
  rintro ⟨hstore,href',hne⟩
  rw [href] at href'
  have hn := (h.evgen href').1
  exact hne (hop (by omega) hstore href')

theorem Marked.unmark {x : OdpEvent} {v : Variant} (h : e.Held n t s r) (hone : OneCnt b c) (hj : j < n)
    (hcur : e.hdr.refsUsed = false → event.evgen = e.hdr.event.evgen) (hx : Marked cfg op b c t s r e (j+1) x) :
    ∃ y, x.esvUsr2em cfg .other v event (ofParts 1 0 b c) true = some y ∧ Marked cfg op b c t s r e j y := by
  obtain ⟨heq,-⟩ := hx
  have hcnt : x.hdr.stateCnt =
      encode (gen (t+j+1)) (s + c.toNat * (j+1 : Nat)) (r - b.toNat * (j+1 : Nat)) := by rw [heq]; rfl
  have href : x.hdr.refsUsed = e.hdr.refsUsed := by rw [heq]
  have hs : s + c.toNat * (j+1 : Nat) - c.toNat = s + c.toNat * j := by push_cast; ring
  have hr : r - b.toNat * (j+1 : Nat) + b.toNat = r - b.toNat * j := by push_cast; ring
  have hunmark := @esvUsr2em_revert_counts v event x.hdr (t+j) _ _ b c hcnt
  rw [hs, hr, href, if_neg (h.accepts hone hj (Nat.le_of_lt hj) hcur)] at hunmark
  rw [OdpEvent.esvUsr2em, hunmark]
  refine ⟨_,rfl,?_,fun hj' hstore href' => ?_⟩
  · rw [heq]
  · have hn := (h.evgen href').1
    omega

/-- The event `e` while `j` of its `n` uses are marked; marks leave an event of the type `EM_EVENT_TYPE_ODP`. -/
def At (cfg : Config) (op : ApiOp) (b c : BitVec 16) (t : Nat) (s r : Int) (e : OdpEvent) (n j : Nat) (x : OdpEvent) :
    Prop :=
  if e.hdr.odpType = true ∨ n = 0 then x = e else Marked cfg op b c t s r e j x

variable {x : OdpEvent}

theorem At.counted (h : At cfg op b c t s r e n j x) : Counted e x := by
  rw [At] at h
  split at h
  · rw [h]
    exact .refl e
  · rename_i hno
    exact ⟨by rw [h.eq],fun hodp => absurd (.inl hodp) hno⟩

theorem At.odpType (h : At cfg op b c t s r e n j x) : x.hdr.odpType = e.hdr.odpType := by
  rw [h.counted.eq]

theorem At.zero (h : At cfg op b c t s r e n 0 x) (hheld : e.hdr.odpType = false → 0 < n → e.Held n t s r) :
    ∃ apiOp, x = { e with apiOp } := by
  rw [At] at h
  split at h
  · exact ⟨e.apiOp,h⟩
  · rename_i hno
    rw [not_or, Bool.not_eq_true] at hno
    refine ⟨x.apiOp,h.eq.trans ?_⟩
    rw [(hheld hno.1 (Nat.pos_of_ne_zero hno.2)).unmarked]

theorem At.start (hheld : e.hdr.odpType = false → 0 < n → e.Held n t s r) : At cfg op b c t s r e n 0 e := by
  rw [At]
  split
  · rfl
  · rename_i hno
    rw [not_or, Bool.not_eq_true] at hno
    refine ⟨?_,fun hj => absurd hj Nat.zero_ne_one⟩
    rw [(hheld hno.1 (Nat.pos_of_ne_zero hno.2)).unmarked]

section Steps
variable {v : Variant} (hheld : e.hdr.odpType = false → 0 < n → e.Held n t s r) (hj : j < n)
include hheld hj

omit hheld in
/-- A mark, or one that is taken back, leaves an event of the type `EM_EVENT_TYPE_ODP`. -/
private theorem At.act (act : OdpEvent → Option OdpEvent) {i k : Nat}
    (hact : e.hdr.odpType = false → Marked cfg op b c t s r e i x →
      ∃ y, act x = some y ∧ Marked cfg op b c t s r e k y)
    (hx : At cfg op b c t s r e n i x) :
    ∃ y, (if x.hdr.odpType then some x else act x) = some y ∧ At cfg op b c t s r e n k y := by
  rw [hx.odpType]
  cases hodp : e.hdr.odpType with
  | true =>
    rw [At, if_pos (.inl hodp)] at hx
    exact ⟨x,rfl,by rw [At, if_pos (.inl hodp)]; exact hx⟩
  | false =>
    have hno : ¬(e.hdr.odpType = true ∨ n = 0) := by
      rw [hodp]
      rintro (⟨⟨⟩⟩ | hn)
      omega
    rw [At, if_neg hno] at hx
    obtain ⟨y,hy,hmarked⟩ := hact hodp hx
    exact ⟨y,hy,by rw [At, if_neg hno]; exact hmarked⟩

theorem At.mark (hone : OneCnt b c)
    (hcur : e.hdr.odpType = false → e.hdr.refsUsed = false → event.evgen = e.hdr.event.evgen)
    (hx : At cfg op b c t s r e n j x) :
    ∃ y, (if x.hdr.odpType then some x else x.esvUsr2em cfg op v event (ofParts 1 0 b c) false) = some y ∧
      At cfg op b c t s r e n (j+1) y :=
  hx.act hj (·.esvUsr2em cfg op v event (ofParts 1 0 b c) false) fun hodp hx => hx.mark (hheld hodp (by omega)) hone hj (hcur hodp)

theorem At.unmark (hone : OneCnt b c)
    (hcur : e.hdr.odpType = false → e.hdr.refsUsed = false → event.evgen = e.hdr.event.evgen)
    (hx : At cfg op b c t s r e n (j+1) x) :
    ∃ y, (if x.hdr.odpType then some x else x.esvUsr2em cfg .other v event (ofParts 1 0 b c) true) = some y ∧
      At cfg op b c t s r e n j y :=
  hx.act hj (·.esvUsr2em cfg .other v event (ofParts 1 0 b c) true) fun hodp hx => hx.unmark (hheld hodp (by omega)) hone hj (hcur hodp)

theorem At.check (hodp : e.hdr.odpType = true → cfg.storeState = true → e.hdr.refsUsed = true)
    (hx : At cfg op b c t s r e n (j+1) x) : x.checkValidUnmark cfg op = some x := by
  rw [At] at hx
  split at hx
  · rename_i hor
    have hodp' : e.hdr.odpType = true := by
      rcases hor with hor | hor
      · exact hor
      · omega
    rw [OdpEvent.checkValidUnmark, if_neg]
    rintro ⟨hstore,href,-⟩
    rw [hx, hodp hodp' hstore] at href
    cases href
  · rename_i hno
    rw [not_or, Bool.not_eq_true] at hno
    exact hx.check (hheld hno.1 (Nat.pos_of_ne_zero hno.2)) hj

end Steps

end State

section Owned
variable (cfg m events) (p)

/-- The events in the tables of the vectors of an array -/
def inner : List OdpEvt :=
  events.flatMap fun event => if (m.event event.evptr).isVectorType then m.odpTbl event.evptr else []

/-- An event once the tables of the vectors have been read -/
def seen : OdpEvent :=
  if p ∈ inner m events then (initAct cfg p (m.event p)).getD (m.event p) else m.event p

/-- How often an event is in the table of another -/
def innerCount (event : EvHdl) : Nat :=
  if (m.event event.evptr).isVectorType then (m.odpTbl event.evptr).count p else 0

def useCount (event : EvHdl) : Nat := (if event.evptr = p then 1 else 0) + innerCount m p event

/-- How often an event is marked with the events of an array -/
def uses : Nat := (events.map (useCount m p)).sum

/-- The user owns the events of an array and those in the tables of its vectors. -/
structure UserOwned : Prop where
  valid : ∀ p, (m.event p).Valid p
  undef : emEventUndef ∉ events
  inner_ne : 0 ∉ inner m events
  /-- not an indication of a timer, which the calls reject -/
  timerInd : ∀ event ∈ events, (m.event event.evptr).timerInd = false
  inited : ∀ event ∈ events, (m.event event.evptr).Inited event.evptr
  accepted : ∀ p ∈ inner m events, (initAct cfg p (m.event p)).isSome
  vectors : ∀ event ∈ events, (m.event event.evptr).isVectorType = true → (m.event event.evptr).hdr.refsUsed = false
  held : ∀ p, p ∈ events.map EvHdl.evptr ∨ p ∈ inner m events → (seen cfg m events p).hdr.odpType = false →
    ∃ t s r, (seen cfg m events p).Held (uses m events p) t s r
  current : ∀ event ∈ events, (m.event event.evptr).hdr.odpType = false →
    (m.event event.evptr).hdr.refsUsed = false → event.evgen = (m.event event.evptr).hdr.event.evgen
  /-- an event whose state is not kept has not been marked -/
  unmarked : ∀ p ∈ inner m events, (seen cfg m events p).hdr.odpType = true → (seen cfg m events p).apiOp = .other

end Owned

theorem inner_count : 0 < innerCount m p event ↔
    p ∈ if (m.event event.evptr).isVectorType then m.odpTbl event.evptr else [] := by
  rw [innerCount]
  split
  · exact List.count_pos_iff
  · exact ⟨fun h => absurd h (Nat.lt_irrefl 0),fun h => absurd h List.not_mem_nil⟩

theorem mem_inner : p ∈ inner m events ↔ ∃ event ∈ events, 0 < innerCount m p event := by
  simp only [inner, List.mem_flatMap, inner_count]

theorem mem_inner_of_vector (hevent : event ∈ events) (hvector : (m.event event.evptr).isVectorType = true)
    (hp : p ∈ m.odpTbl event.evptr) : p ∈ inner m events :=
  List.mem_flatMap.2 ⟨event,hevent,by rw [if_pos hvector]; exact hp⟩

theorem used_of_uses (h : 0 < uses m events p) : p ∈ events.map EvHdl.evptr ∨ p ∈ inner m events := by
  rw [uses] at h
  obtain ⟨k,hk,hpos⟩ := List.sum_pos_iff_exists_pos_nat.1 h
  obtain ⟨event,hevent,rfl⟩ := List.mem_map.1 hk
  rw [useCount] at hpos
  by_cases hp : event.evptr = p
  · exact .inl (List.mem_map.2 ⟨event,hevent,hp⟩)
  · rw [if_neg hp] at hpos
    exact .inr (mem_inner.2 ⟨event,hevent,by omega⟩)

/-- The order of the events does not matter. -/
theorem uses_perm {events' : List EvHdl} (hperm : events'.Perm events) (p : OdpEvt) :
    uses m events' p = uses m events p := (hperm.map _).sum_nat

section Seen
variable (hown : UserOwned cfg m events) (hesv : cfg.esvEnabled = true)
include hown

theorem UserOwned.seen_of_init (hp : p ∈ inner m events) :
    initAct cfg p (m.event p) = some (seen cfg m events p) := by
  obtain ⟨e,he⟩ := Option.isSome_iff_exists.1 (hown.accepted p hp)
  rw [seen, if_pos hp, he]
  rfl

/-- What the user holds of an event, if anything of it is marked -/
theorem UserOwned.counters (p : OdpEvt) : ∃ t s r, (seen cfg m events p).hdr.odpType = false →
    0 < uses m events p → (seen cfg m events p).Held (uses m events p) t s r := by
  by_cases h : (seen cfg m events p).hdr.odpType = false ∧ 0 < uses m events p
  · obtain ⟨t,s,r,hheld⟩ := hown.held p (used_of_uses h.2) h.1
    exact ⟨t,s,r,fun _ _ => hheld⟩
  · exact ⟨0,0,0,fun hodp hpos => absurd ⟨hodp,hpos⟩ h⟩

include hesv

theorem UserOwned.seen_inited (hp : p ∈ inner m events) :
    (seen cfg m events p).Inited p ∧ (seen cfg m events p).Valid p := by
  obtain ⟨-,hinit,hvalid,-⟩ := initAct_inited hesv (hown.valid p) (hown.seen_of_init hp)
  exact ⟨hinit,hvalid⟩

theorem UserOwned.seen_valid (p : OdpEvt) : (seen cfg m events p).Valid p := by
  by_cases hp : p ∈ inner m events
  · exact (hown.seen_inited hesv hp).2
  · rw [seen, if_neg hp]
    exact hown.valid p

/-- The events of the array itself have been seen before. -/
theorem UserOwned.seen_outer (hevent : event ∈ events) :
    seen cfg m events event.evptr = m.event event.evptr := by
  rw [seen]
  split
  · rw [initAct_again hesv (hown.inited event hevent)]
    rfl
  · rfl

/-- A vector is in the array once. -/
theorem UserOwned.once {events' : List EvHdl} (hperm : events'.Perm events) :
    events'.Pairwise fun a b => (m.event a.evptr).isVectorType = true → a.evptr ≠ b.evptr := by
  refine List.pairwise_iff_forall_sublist.2 fun {a b} hsub hvector heq => ?_
  have hmem : a ∈ events := hperm.subset (hsub.subset List.mem_cons_self)
  have hseen := hown.seen_outer hesv hmem
  have hodp : (seen cfg m events a.evptr).hdr.odpType = false :=
    hseen ▸ (hown.valid a.evptr).typed (.inr hvector)
  obtain ⟨t,s,r,hheld⟩ := hown.held a.evptr (.inl (List.mem_map_of_mem hmem)) hodp
  have hone := (hheld.evgen (hseen ▸ hown.vectors a hmem hvector)).1
  have htwo : uses m [a,b] a.evptr ≤ uses m events' a.evptr :=
    (hsub.map (useCount m a.evptr)).sum_le_sum fun _ _ => Nat.zero_le _
  rw [uses_perm hperm] at htwo
  simp only [uses, List.map_cons, List.map_nil, List.sum_cons, List.sum_nil, useCount, if_pos, ← heq] at htwo
  rw [uses] at hone
  omega

end Seen

theorem handle_of_odpType (hvalid : e.Valid p) (hodp : e.hdr.odpType = false) : e.handle p = e.hdr.event := by
  rw [OdpEvent.handle, if_neg]
  intro hother
  rw [(hvalid.nonem hother).1] at hodp
  cases hodp

theorem accesses_free {op : ApiOp} : accesses p (freeAccesses cfg op m event) =
    (if event.evptr = p then [outerAct cfg op event] else []) ++
      (List.replicate (innerCount m p event) (initAct cfg p) ++
        List.replicate (innerCount m p event) (freeAct cfg op p)) := by
  have hvector : accesses p (vectorAccesses cfg op m event) =
      List.replicate (innerCount m p event) (initAct cfg p) ++
        List.replicate (innerCount m p event) (freeAct cfg op p) := by
    rw [vectorAccesses, innerCount]
    split
    · rw [tableAccesses, accesses_append, accesses_map, accesses_map]
    · rfl
  rw [freeAccesses, accesses_cons, hvector]
  split <;> rfl

theorem accesses_unmark : accesses p (unmarkAccesses cfg m event) =
    (if event.evptr = p then [unmarkAct cfg event] else []) ++
      (List.replicate (innerCount m p event) (initAct cfg p) ++
        (List.replicate (innerCount m p event) (checkAct cfg p) ++
          List.replicate (innerCount m p event) (revertAct cfg p))) := by
  have hvector : accesses p (if (m.event event.evptr).isVectorType then
      revertAccesses cfg (m.odpTbl event.evptr) else []) =
      List.replicate (innerCount m p event) (initAct cfg p) ++
        (List.replicate (innerCount m p event) (checkAct cfg p) ++
          List.replicate (innerCount m p event) (revertAct cfg p)) := by
    rw [innerCount]
    split
    · rw [revertAccesses, accesses_append, accesses_append, accesses_map, accesses_map, accesses_map]
    · rfl
  rw [unmarkAccesses, accesses_cons, hvector]
  split <;> rfl

/-- The first thing done to an event in a table is its initialization. -/
theorem init_first {op : ApiOp} (houter : ∀ event ∈ events, event.evptr ≠ p) (hp : p ∈ inner m events) :
    ∃ acts, accesses p (events.flatMap (freeAccesses cfg op m)) = initAct cfg p :: acts := by
  induction events with
  | nil => cases hp
  | cons event events ih =>
    rw [List.flatMap_cons, accesses_append, accesses_free, if_neg (houter event List.mem_cons_self)]
    by_cases hc : innerCount m p event = 0
    · rw [hc]
      rw [inner, List.flatMap_cons, List.mem_append, ← inner_count, hc] at hp
      exact ih (fun event hevent => houter event (List.mem_cons_of_mem _ hevent))
        (hp.resolve_left (Nat.lt_irrefl 0))
    · obtain ⟨i,hi⟩ := Nat.exists_eq_succ_of_ne_zero hc
      rw [hi]
      exact ⟨_,rfl⟩

/-- The event at `p` while `j` of its uses are marked as free -/
abbrev AtFree (cfg : Config) (m : Memory) (events : List EvHdl) (p : OdpEvt) (t : Nat) (s r : Int) (j : Nat) :
    OdpEvent → Prop := At cfg .markFree 1 0 t s r (seen cfg m events p) (uses m events p) j

section Blocks
variable {t j : Nat} {s r : Int} (hown : UserOwned cfg m events) (hesv : cfg.esvEnabled = true)
  (hheld : (seen cfg m events p).hdr.odpType = false → 0 < uses m events p →
    (seen cfg m events p).Held (uses m events p) t s r)
include hown hesv

theorem AtFree.inited {x : OdpEvent} (hp : p ∈ inner m events) (hx : AtFree cfg m events p t s r j x) :
    initAct cfg p x = some x :=
  initAct_again hesv (At.counted hx |>.inited (hown.seen_inited hesv hp).1).1

theorem AtFree.handle {x : OdpEvent} (hx : AtFree cfg m events p t s r j x)
    (hodp : (seen cfg m events p).hdr.odpType = false) :
    (x.handle p).evgen = (seen cfg m events p).hdr.event.evgen := by
  obtain ⟨-,-,hhandle⟩ := (At.counted hx).kept (hown.seen_valid hesv p)
  rw [hhandle, handle_of_odpType (hown.seen_valid hesv p) hodp]

/-- The user's handle of an event in the array -/
theorem UserOwned.handle (hevent : event ∈ events) (hodp : (seen cfg m events event.evptr).hdr.odpType = false)
    (href : (seen cfg m events event.evptr).hdr.refsUsed = false) :
    event.evgen = (seen cfg m events event.evptr).hdr.event.evgen := by
  rw [hown.seen_outer hesv hevent] at hodp href ⊢
  exact hown.current event hevent hodp href

include hheld

/-- What the mark of an event does to each event -/
theorem takes_free (hevent : event ∈ events) (hj : j + useCount m p event ≤ uses m events p) :
    Takes (AtFree cfg m events p t s r j) (accesses p (freeAccesses cfg .markFree m event))
      (AtFree cfg m events p t s r (j + useCount m p event)) := by
  rw [useCount] at hj ⊢
  rw [accesses_free, ← Nat.add_assoc]
  refine Takes.append (Q := AtFree cfg m events p t s r (j + if event.evptr = p then 1 else 0)) ?_ ?_
  · split
    · rename_i hp
      subst hp
      rw [if_pos rfl] at hj
      exact .single fun x hx =>
        At.mark hheld (v := .multi) (by omega) (.inl ⟨rfl,rfl⟩) (hown.handle hesv hevent) hx
    · exact .nil
  · generalize (if event.evptr = p then 1 else 0) = o at hj ⊢
    by_cases hc : innerCount m p event = 0
    · rw [hc]
      exact .nil
    · have hp : p ∈ inner m events := mem_inner.2 ⟨event,hevent,Nat.pos_of_ne_zero hc⟩
      refine (Takes.replicate_id (fun x hx => AtFree.inited hown hesv hp hx) _).append
        (Takes.replicate_up fun i hi => .single fun x hx => ?_)
      exact At.mark hheld (v := .multi) (by omega) (.inl ⟨rfl,rfl⟩) (fun hodp _ => AtFree.handle hown hesv hx hodp) hx

/-- What the unmark of an event does to each event, if no check of an event in a table fails -/
theorem takes_unmark (hevent : event ∈ events) (hj : j + useCount m p event ≤ uses m events p)
    (hcheck : p ∈ inner m events → (seen cfg m events p).hdr.odpType = true → cfg.storeState = true →
      (seen cfg m events p).hdr.refsUsed = true) :
    Takes (AtFree cfg m events p t s r (j + useCount m p event)) (accesses p (unmarkAccesses cfg m event))
      (AtFree cfg m events p t s r j) := by
  rw [useCount] at hj ⊢
  rw [accesses_unmark, Nat.add_comm (if event.evptr = p then 1 else 0), ← Nat.add_assoc]
  refine Takes.append (Q := AtFree cfg m events p t s r (j + innerCount m p event)) ?_ ?_
  · split
    · rename_i hp
      subst hp
      rw [if_pos rfl] at hj
      refine .single fun x hx => ?_
      have hrevert := At.unmark hheld (v := .single) (by omega) (.inl ⟨rfl,rfl⟩) (hown.handle hesv hevent) hx
      rw [unmarkAct]
      by_cases hodp : x.hdr.odpType = true
      · rw [if_pos hodp] at hrevert ⊢
        exact hrevert
      · rw [if_neg hodp] at hrevert ⊢
        rw [OdpEvent.evstateUnmarkFree, At.check hheld (by omega) (fun hodp' => ?_) hx]
        · exact hrevert
        · rw [← At.odpType hx] at hodp'
          exact absurd hodp' hodp
    · exact .nil
  · by_cases hc : innerCount m p event = 0
    · rw [hc]
      exact .nil
    · have hp : p ∈ inner m events := mem_inner.2 ⟨event,hevent,Nat.pos_of_ne_zero hc⟩
      have hchecks (x : OdpEvent) (hx : AtFree cfg m events p t s r (j + innerCount m p event) x) :
          checkAct cfg p x = some x := by
        obtain ⟨i,hi⟩ := Nat.exists_eq_succ_of_ne_zero hc
        rw [hi] at hx hj
        exact At.check (j := j+i) hheld (by omega) (hcheck hp) hx
      refine (Takes.replicate_id (fun x hx => AtFree.inited hown hesv hp hx) _).append
        ((Takes.replicate_id hchecks _).append (Takes.replicate_down fun i hi => .single fun x hx => ?_))
      exact At.unmark hheld (v := .multi) (by omega) (.inl ⟨rfl,rfl⟩) (fun hodp _ => AtFree.handle hown hesv hx hodp) hx

omit hheld in
/-- An event in a table whose state is not kept is never checked as marked. -/
theorem refsUsed_of_unmark {events' : List EvHdl} {x y : OdpEvent} (hperm : events'.Perm events)
    (hp : p ∈ inner m events) (hodp : (seen cfg m events p).hdr.odpType = true) (hstore : cfg.storeState = true)
    (hx : x = seen cfg m events p) (h : fold (accesses p (events'.flatMap (unmarkAccesses cfg m))) x = some y) :
    x.hdr.refsUsed = true := by
  rw [← hx] at hodp
  obtain ⟨event,hevent,hcount⟩ := mem_inner.1 hp
  have hinit : initAct cfg p x = some x := by
    rw [hx]
    exact initAct_again hesv (hown.seen_inited hesv hp).1
  rw [accesses_flatMap] at h
  have hacts : ∀ act ∈ events'.flatMap (fun event => accesses p (unmarkAccesses cfg m event)),
      ∀ y, act x = some y → y = x := by
    intro act hact y hy
    obtain ⟨event,-,hact⟩ := List.mem_flatMap.1 hact
    rw [accesses_unmark] at hact
    rcases List.mem_append.1 hact with hact | hact
    · split at hact
      · rw [List.mem_singleton.1 hact, unmarkAct, if_pos hodp] at hy
        exact (Option.some.inj hy).symm
      · cases hact
    rcases List.mem_append.1 hact with hact | hact
    · rw [List.eq_of_mem_replicate hact, hinit] at hy
      exact (Option.some.inj hy).symm
    rcases List.mem_append.1 hact with hact | hact
    · rw [List.eq_of_mem_replicate hact] at hy
      exact checkValidUnmark_some hy
    · rw [List.eq_of_mem_replicate hact, revertAct, OdpEvent.evstateFreeRevertMulti, if_pos hodp] at hy
      exact (Option.some.inj hy).symm
  have hcheck := fold_fixed hacts h (checkAct cfg p) (by
    refine List.mem_flatMap.2 ⟨event,hperm.symm.subset hevent,?_⟩
    rw [accesses_unmark]
    refine List.mem_append_right _ (List.mem_append_right _ (List.mem_append_left _ ?_))
    exact List.mem_replicate.2 ⟨hcount.ne',rfl⟩)
  rw [checkAct, OdpEvent.checkValidUnmark] at hcheck
  split at hcheck
  · cases hcheck
  · rename_i hno
    by_contra href
    refine hno ⟨hstore,Bool.not_eq_true _ ▸ href,?_⟩
    rw [hx, hown.unmarked p hp (hx ▸ hodp)]
    decide

end Blocks

/-- The tables of other events stay. -/
theorem freedTables_other {ev : OdpEvt → OdpEvent} {table : OdpEvt → List EvHdl} {v : OdpEvt}
    (h : ¬((ev v).isVectorType = true ∧ v ∈ events.map EvHdl.evptr)) : freedTables ev events table v = table v := by
  induction events generalizing table with
  | nil => rfl
  | cons event events ih =>
    rw [List.map_cons, List.mem_cons] at h
    rw [freedTables, List.foldl_cons, ← freedTables, ih fun hc => h ⟨hc.1,.inr hc.2⟩, freedTable]
    split
    · refine Function.update_of_ne (fun hv => ?_) ..
      subst hv
      exact h ⟨‹_›,.inl rfl⟩
    · rfl

theorem odpTbl_freedTables {ev ev' : OdpEvt → OdpEvent} {table : OdpEvt → List EvHdl} (v : OdpEvt) :
    (⟨ev',freedTables ev events table⟩ : Memory).odpTbl v = (⟨ev',table⟩ : Memory).odpTbl v := by
  induction events generalizing table with
  | nil => rfl
  | cons event events ih =>
    rw [freedTables, List.foldl_cons, ← freedTables, ih]
    exact odpTbl_freedTable (m := ⟨ev,table⟩) v

section Runs
variable {marks unmarks : List Call} {ev : OdpEvt → OdpEvent} (hown : UserOwned cfg m events)
  (hesv : cfg.esvEnabled = true)
include hown hesv

/-- The marks find each event as if the tables had been read before. -/
theorem UserOwned.fold_seen (p : OdpEvt) : fold (accesses p (events.flatMap (freeAccesses cfg .markFree m))) (m.event p) =
    fold (accesses p (events.flatMap (freeAccesses cfg .markFree m))) (seen cfg m events p) := by
  by_cases hp : p ∈ inner m events
  · by_cases houter : ∃ event ∈ events, event.evptr = p
    · obtain ⟨event,hevent,rfl⟩ := houter
      rw [hown.seen_outer hesv hevent]
    · have hne : ∀ event ∈ events, event.evptr ≠ p := fun event hevent heq => houter ⟨event,hevent,heq⟩
      obtain ⟨acts,hacts⟩ : ∃ acts, accesses p (events.flatMap (freeAccesses cfg .markFree m)) =
          initAct cfg p :: acts := init_first hne hp
      rw [hacts, fold_cons, fold_cons, hown.seen_of_init hp, initAct_again hesv (hown.seen_inited hesv hp).1]
  · rw [seen, if_neg hp]

/-- All marks are accepted. -/
theorem UserOwned.mark_run : ∃ ev, run (events.flatMap (freeAccesses cfg .markFree m)) m.event = some ev ∧
    ∀ p, ∃ t s r, ((seen cfg m events p).hdr.odpType = false → 0 < uses m events p →
      (seen cfg m events p).Held (uses m events p) t s r) ∧
      AtFree cfg m events p t s r (uses m events p) (ev p) := by
  have hfold (p : OdpEvt) : ∃ y, fold (accesses p (events.flatMap (freeAccesses cfg .markFree m))) (m.event p) =
      some y ∧ ∃ t s r, ((seen cfg m events p).hdr.odpType = false → 0 < uses m events p →
        (seen cfg m events p).Held (uses m events p) t s r) ∧
        AtFree cfg m events p t s r (uses m events p) y := by
    obtain ⟨t,s,r,hheld⟩ := hown.counters p
    have htakes := Takes.flatMap_up (I := AtFree cfg m events p t s r) (j := 0) (n := uses m events p)
      (fun event hevent j hj => takes_free hown hesv hheld hevent hj) (Nat.zero_add _).le
    obtain ⟨y,hy,hat⟩ := htakes _ (At.start hheld)
    rw [Nat.zero_add] at hat
    rw [hown.fold_seen hesv, accesses_flatMap]
    exact ⟨y,hy,t,s,r,hheld,hat⟩
  choose ev hev using hfold
  exact ⟨ev,run_eq_some_iff.2 fun p => (hev p).1,fun p => (hev p).2⟩

/-- The marks and then the unmarks: the latter run on the events the marks have left. -/
theorem UserOwned.calls_eq (hmarks : marks.flatMap Call.events = events)
    (hunmarks : (unmarks.flatMap Call.events).Perm events) : ∃ ev,
      (∀ p, ∃ t s r, ((seen cfg m events p).hdr.odpType = false → 0 < uses m events p →
        (seen cfg m events p).Held (uses m events p) t s r) ∧
        AtFree cfg m events p t s r (uses m events p) (ev p)) ∧
      (markCalls cfg marks m).bind (unmarkCalls cfg unmarks) =
        (run ((unmarks.flatMap Call.events).flatMap (unmarkAccesses cfg m)) ev).map fun ev' =>
          ⟨ev',restoredTable m (fun p => (seen cfg m events p).hdr.event) events⟩ := by
  obtain ⟨ev,hrun,hat⟩ := hown.mark_run hesv
  refine ⟨ev,hat,?_⟩
  rw [markCalls_eq hesv (hmarks ▸ hown.undef), hmarks, markFree_eq hesv hown.valid hown.timerInd, hrun,
    Option.map_some, Option.bind_some]
  generalize hm' : (⟨ev,freedTables m.event events m.table⟩ : Memory) = m'
  have hev : m'.event = ev := by rw [← hm']
  have hodpTbl (v : OdpEvt) : m'.odpTbl v = m.odpTbl v := by
    rw [← hm']
    exact odpTbl_freedTables v
  have haccess : ∀ acc ∈ events.flatMap (freeAccesses cfg .markFree m), FreeAccess cfg .markFree acc := by
    intro acc hacc
    obtain ⟨event,-,hacc⟩ := List.mem_flatMap.1 hacc
    exact .of_mem hacc
  have hfrom : From m m' := hm' ▸ From.run hesv hown.valid haccess odpTbl_freedTables hrun
  have hmem (event : EvHdl) : event ∈ unmarks.flatMap Call.events ↔ event ∈ events := hunmarks.mem_iff
  have haccs : unmarkAccesses cfg m' = unmarkAccesses cfg m := by
    funext event
    rw [unmarkAccesses, unmarkAccesses, hfrom.isVectorType, hodpTbl]
  have hunmark : (unmarks.flatMap Call.events).foldlM (fun m event => unmarkFreeOne cfg event m) m' =
      (run ((unmarks.flatMap Call.events).flatMap (unmarkAccesses cfg m')) m'.event).map fun ev =>
        ⟨ev,restoredTable m' (fun p => (seen cfg m events p).hdr.event) (unmarks.flatMap Call.events)⟩ :=
    unmarkFree_eq hesv hfrom.valid ?_ ?_ ?_
  · rw [unmarkCalls_eq hesv fun hc => hown.undef ((hmem _).1 hc), hunmark, haccs, hev]
    refine congrArg (fun table => Option.map (fun ev => Memory.mk ev table) _) (funext fun v => ?_)
    have hptr := (hunmarks.map EvHdl.evptr).mem_iff (a := v)
    rw [restoredTable, restoredTable, hfrom.isVectorType, hodpTbl]
    by_cases hv : (m.event v).isVectorType = true ∧ v ∈ events.map EvHdl.evptr
    · rw [if_pos hv, if_pos ⟨hv.1,hptr.2 hv.2⟩]
    · rw [if_neg hv, if_neg fun hc => hv ⟨hc.1,hptr.1 hc.2⟩, ← hm']
      exact freedTables_other hv
  · exact fun event hevent => (hfrom.kept _).timerInd (hown.timerInd event ((hmem _).1 hevent))
  · intro event hevent hvector p hp
    rw [hfrom.isVectorType] at hvector
    rw [hodpTbl] at hp
    have hinner := mem_inner_of_vector ((hmem _).1 hevent) hvector hp
    obtain ⟨t,s,r,-,hat⟩ := hat p
    rw [hev]
    exact (At.counted hat).inited (hown.seen_inited hesv hinner).1
  · refine (hown.once hesv hunmarks).imp fun {a b} hab hvector => hab ?_
    rw [← hfrom.isVectorType]
    exact hvector

end Runs
end EmOdp.EventFree
