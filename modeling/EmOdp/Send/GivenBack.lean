import EmOdp.Send.One

/-! The vectors that a failed enqueue gives back, handle by handle. -/
namespace EmOdp.Send
open EventState Lib.Batch
variable {γ : Type} {cfg : Config} {q : QueueElem} {res : Results}

namespace Slot
variable {s u : Slot}

/-- The inner event has a header that EM has initialized. -/
def EmInit (s : Slot) : Prop := match s.odpType with
  | .packet | .vector => s.userFlag = true
  | .buffer | .timeout => True
  | .other => False

/-- The entry is the handle that EM has given out, and the initialization of an event from outside
of EM is accepted. -/
structure Sound (cfg : Config) (s : Slot) : Prop where
  current : s.EmInit → s.entry = s.hdr.event
  init : ∃ u, s.em2odp.initOdp cfg = .ok u

/-- The entry is converted: a generation is dropped from it, or it is initialized when it is
converted back. -/
def Converts (s : Slot) : Prop := match s.odpType with
  | .packet | .vector => s.userFlag = false ∨ s.entry.evgen ≠ 0
  | .buffer | .timeout => s.entry.evgen ≠ 0
  | .other => False

/-- The handle of an initialized event comes back with its generation. -/
theorem initOdp_emInit (hesv : cfg.esvEnabled = true) (h : s.EmInit) (hcur : s.entry = s.hdr.event) :
    s.em2odp.initOdp cfg = .ok s := by
  have hkind : s.em2odp.odpType = s.odpType := rfl
  cases hodp : s.odpType with
  | packet | vector =>
    rw [EmInit, hodp] at h
    have hflag : s.em2odp.userFlag = true := h
    simp only [initOdp, hkind, hodp, hflag, hesv, if_true]
    exact congrArg Except.ok (Slot.ext hcur.symm hodp.symm rfl hflag.symm rfl)
  | buffer =>
    simp only [initOdp, hkind, hodp, hesv, if_true]
    exact congrArg Except.ok (Slot.ext hcur.symm hodp.symm rfl rfl rfl)
  | timeout =>
    have hptr : s.entry.evptr = s.hdr.event.evptr := congrArg EvHdl.evptr hcur
    have hevent : { s.em2odp.entry with evgen := s.em2odp.hdr.event.evgen } = s.hdr.event :=
      EvHdl.ext hptr rfl
    simp only [initOdp, hkind, hodp, hesv, if_true]
    have hhdr := congrArg (fun event => { s.hdr with event }) hevent
    exact congrArg Except.ok (Slot.ext (hevent.trans hcur.symm) hodp.symm hhdr rfl rfl)
  | other =>
    rw [EmInit, hodp] at h
    exact h.elim

/-- What comes back differs from what was enqueued if and only if the entry was converted. -/
theorem Sound.converts_iff (hesv : cfg.esvEnabled = true) (h : s.Sound cfg)
    (hu : s.em2odp.initOdp cfg = .ok u) : s.em2odp ≠ u ↔ s.Converts := by
  have hgen (hinit : s.EmInit) : s.em2odp ≠ u ↔ s.entry.evgen ≠ 0 := by
    rw [initOdp_emInit hesv hinit (h.current hinit)] at hu
    cases hu
    refine not_congr ⟨fun heq => ?_,fun hzero => ?_⟩
    · exact (congrArg (fun s => EvHdl.evgen (Slot.entry s)) heq).symm
    · exact Slot.ext (EvHdl.ext rfl hzero.symm) rfl rfl rfl rfl
  have hkind : s.em2odp.odpType = s.odpType := rfl
  cases hodp : s.odpType with
  | packet | vector =>
    simp only [Converts, hodp]
    cases hflag : s.userFlag with
    | true =>
      have hinit : s.EmInit := by
        rw [EmInit, hodp]
        exact hflag
      rw [hgen hinit]
      exact ⟨.inr,fun hor => hor.resolve_left (by decide)⟩
    | false =>
      have hflag' : s.em2odp.userFlag = false := hflag
      simp only [initOdp, hkind, hodp, hflag', Bool.false_eq_true, if_false] at hu
      have htrue := (evhdrInit_ok hesv hu).2.1
      refine iff_of_true (fun heq => ?_) (.inl rfl)
      rw [← heq, hflag'] at htrue
      cases htrue
  | buffer | timeout =>
    simp only [Converts, hodp]
    refine hgen ?_
    rw [EmInit, hodp]
    trivial
  | other =>
    simp only [Converts, hodp]
    simp only [initOdp, hkind, hodp] at hu
    cases hu
    exact iff_of_false (fun hne => hne rfl) id

end Slot

namespace Event
variable {x y : Event γ}

def Sound (cfg : Config) (x : Event γ) : Prop := ∀ table ∈ x.table, ∀ s ∈ table, Slot.Sound cfg s

def Converts (x : Event γ) : Prop := ∃ table ∈ x.table, ∃ s ∈ table, Slot.Converts s

/-- `y` is `x`, but for the inner events of its vector that EM had not initialized. -/
structure GivenBack (x y : Event γ) : Prop where
  event : y = { x with table := y.table }
  table : Option.Rel (List.Forall₂ fun s u => Slot.EmInit s → u = s) x.table y.table

theorem GivenBack.refl (x : Event γ) : GivenBack x x := by
  refine ⟨rfl,?_⟩
  cases htable : x.table with
  | none => exact .none
  | some table => exact .some (List.forall₂_same.2 fun _ _ _ => rfl)

theorem Sound.revert (hesv : cfg.esvEnabled = true) (h : x.Sound cfg) :
    ∃ y, x.tbl2odp.tbl2odpRevert cfg = .ok y ∧ GivenBack x y ∧ (x.tbl2odp ≠ y ↔ x.Converts) := by
  cases htable : x.table with
  | none =>
    have hsame : x.tbl2odp = x := by
      rw [tbl2odp, htable]
      exact Event.ext rfl rfl rfl rfl rfl rfl rfl htable.symm
    refine ⟨x,?_,.refl x,?_⟩
    · rw [hsame, tbl2odpRevert, htable]
    · refine iff_of_false (fun hne => hne hsame) ?_
      rintro ⟨table,hmem,-⟩
      rw [htable] at hmem
      cases hmem
  | some table =>
    have hsound : ∀ s ∈ table, Slot.Sound cfg s := h table htable
    have hinits : ∀ s ∈ table, ∃ u, s.em2odp.initOdp cfg = .ok u ∧
        Slot.Sound cfg s ∧ s.em2odp.initOdp cfg = .ok u := by
      intro s hs
      obtain ⟨u,hu⟩ := (hsound s hs).init
      exact ⟨u,hu,hsound s hs,hu⟩
    obtain ⟨table',hmap,hall⟩ := mapM_forall₂ hinits
    refine ⟨{ x with table := some table' },?_,⟨rfl,?_⟩,?_⟩
    · have hodp : x.tbl2odp.table = some (table.map Slot.em2odp) := by rw [tbl2odp, htable]; rfl
      rw [tbl2odpRevert, hodp]
      simp only [List.mapM_map]
      rw [show (Slot.initOdp cfg ∘ Slot.em2odp) = fun s => s.em2odp.initOdp cfg from rfl, hmap]
      rfl
    · rw [htable]
      refine .some (hall.imp fun s u hsu hinit => ?_)
      rw [Slot.initOdp_emInit hesv hinit (hsu.1.current hinit)] at hsu
      exact (Except.ok.inj hsu.2).symm
    · have hne : x.tbl2odp ≠ { x with table := some table' } ↔ table.map Slot.em2odp ≠ table' := by
        refine not_congr ⟨fun heq => ?_,fun heq => ?_⟩
        · have ht := congrArg Event.table heq
          rw [tbl2odp, htable] at ht
          exact Option.some.inj ht
        · rw [tbl2odp, htable, ← heq]
          rfl
      rw [hne, Converts, htable]
      simp only [Option.mem_some_iff, exists_eq_left']
      clear hne hmap hinits hsound htable h
      induction hall with
      | nil => exact iff_of_false (fun hne => hne rfl) (by rintro ⟨s,hs,_⟩; cases hs)
      | @cons s u table table' hsu _ ih =>
        have hhead := hsu.1.converts_iff hesv hsu.2
        rw [List.map_cons, ne_eq, List.cons.injEq, not_and_or, List.exists_mem_cons_iff]
        exact or_congr hhead ih

end Event

section Multi
variable {xs : List (Event γ)}

/-- What is reported as sent is as ODP has taken it, and the rest is given back. -/
abbrev GivesBack (xs : List (Event γ)) (s : Sent γ) : Prop :=
  Split (fun _ _ => True) Event.GivenBack xs s.numSent s.handed s.tbl

private theorem anySent (xs ys : List (Event γ)) (h : xs.length = ys.length) :
    List.Forall₂ (fun _ _ : Event γ => True) xs ys :=
  List.forall₂_iff_get.2 ⟨h,fun _ _ _ => trivial⟩

private theorem untouched (xs : List (Event γ)) : List.Forall₂ Event.GivenBack xs xs :=
  List.forall₂_same.2 fun x _ => .refl x

private theorem notAccepted : GivesBack xs ⟨0,[],xs⟩ := Split.none (untouched xs)

private theorem clamp_neg (ret : Int) : (if ret < 0 then 0 else ret) = max ret 0 := by
  split <;> omega

private theorem clamp_full {ret : Int} (h : ret = xs.length) : (xs.length : Int) = max ret 0 := by
  omega

theorem enqVectorsMulti_givesBack (hesv : cfg.esvEnabled = true) (hres : Documented res xs.length)
    (hxs : ∀ x ∈ xs, x.Sound cfg) : ∃ s, enqVectorsMulti cfg res xs = .ok s ∧ GivesBack xs s := by
  have hany := anySent xs (xs.map Event.tbl2odp) (List.length_map ..).symm
  have hodp : List.Forall₂ (fun x y : Event γ => x ∈ xs ∧ y = x.tbl2odp) xs (xs.map Event.tbl2odp) :=
    List.forall₂_map_right_iff.2 (List.forall₂_same.2 fun x hx => ⟨hx,rfl⟩)
  simp only [enqVectorsMulti]
  split
  · exact ⟨_,rfl,(Split.clamped hres.enqMulti (clamp_full ‹_›) hany hodp).full rfl⟩
  · obtain ⟨tbl,htbl,hsplit⟩ := (Split.clamped hres.enqMulti (clamp_neg res.enqMulti) hany
      hodp).rollback fun x y hxy => by
        obtain ⟨z,hz,hback,-⟩ := (hxs x hxy.1).revert hesv
        exact ⟨z,hxy.2 ▸ hz,hback⟩
    refine ⟨⟨if res.enqMulti < 0 then 0 else res.enqMulti,_,tbl⟩,?_,hsplit⟩
    rw [htbl]
    rfl

theorem sendSchedMulti_givesBack (hres : Documented res xs.length) (hxs : ∀ x ∈ xs, x.Sound cfg) :
    ∃ s, sendSchedMulti cfg q res xs = .ok s ∧ GivesBack xs s := by
  simp only [sendSchedMulti]
  split
  · exact ⟨_,rfl,notAccepted⟩
  split
  · exact ⟨_,rfl,notAccepted⟩
  split
  · exact enqVectorsMulti_givesBack ‹_› hres hxs
  split
  · exact ⟨_,rfl,.clamped hres.enqMulti (clamp_full ‹_›) (anySent xs xs rfl) (untouched xs)⟩
  · exact ⟨_,rfl,.clamped hres.enqMulti (clamp_neg _) (anySent xs xs rfl) (untouched xs)⟩

theorem queueUnschedEnqueueMulti_givesBack (hres : Documented res xs.length)
    (hxs : ∀ x ∈ xs, x.Sound cfg) :
    ∃ s, queueUnschedEnqueueMulti cfg q res xs = .ok s ∧ GivesBack xs s := by
  simp only [queueUnschedEnqueueMulti]
  split
  · exact ⟨_,rfl,notAccepted⟩
  split
  · exact ⟨_,rfl,notAccepted⟩
  split
  · rename_i hvectors
    rw [Bool.and_eq_true] at hvectors
    exact enqVectorsMulti_givesBack hvectors.1 hres hxs
  · exact ⟨_,rfl,.clamped hres.enqMulti (clamp_neg _) (anySent xs xs rfl) (untouched xs)⟩

end Multi

section One
variable {x : Event γ}

/-- What is reported as sent is as ODP has taken it, and what is not is given back. -/
structure GivesBackOne (x : Event γ) (s : SentOne γ) : Prop where
  untouched : ∀ y ∈ s.handed, s.event = y
  back : s.stat ≠ .ok → s.handed = [] ∧ x.GivenBack s.event

/-- The function leaves the event as its sibling for an array of one event does. -/
def SameTables (x : Event γ) (one : Except EvstateError (SentOne γ))
    (multi : Except EvstateError (Sent γ)) : Prop :=
  ∃ s, one = .ok s ∧ GivesBackOne x s ∧ ∀ m, multi = .ok m → m.tbl = [s.event]

private theorem notAcceptedOne {stat : Status} : GivesBackOne x ⟨stat,[],x⟩ :=
  ⟨fun _ hy => absurd hy List.not_mem_nil,fun _ => ⟨rfl,.refl x⟩⟩

private theorem taken {y : Event γ} : GivesBackOne x ⟨.ok,[y],y⟩ :=
  ⟨fun _ hz => (List.mem_singleton.1 hz).symm,fun hne => absurd rfl hne⟩

/-- What `enqVectorsMulti` leaves of one event -/
private theorem enqVectorsMulti_one (hres : DocumentedOne res) {y : Event γ}
    (hy : x.tbl2odp.tbl2odpRevert cfg = .ok y) {m : Sent γ} (hm : enqVectorsMulti cfg res [x] = .ok m) :
    m.tbl = [if res.enq = 0 then x.tbl2odp else y] := by
  have henq := hres.enq
  have hle := hres.enqMulti
  simp only [enqVectorsMulti, List.length_singleton, List.map_singleton, Nat.cast_one] at hm
  split at hm
  · rename_i hone
    cases hm
    rw [if_pos (henq.2 hone)]
  · rename_i hone
    have hzero : (if res.enqMulti < 0 then 0 else res.enqMulti).toNat = 0 := by
      split <;> omega
    rw [hzero, mapFrom, List.drop_zero, List.mapM_cons, hy] at hm
    cases hm
    rw [if_neg fun hz => hone (henq.1 hz)]
    rfl

theorem enqVector_sameTables {checked : Bool} (hesv : cfg.esvEnabled = true) (hres : DocumentedOne res)
    (hx : x.Sound cfg) : SameTables x (enqVector cfg res x checked) (enqVectorsMulti cfg res [x]) ↔
      ¬(checked = false ∧ res.enq ≠ 0 ∧ x.Converts) := by
  obtain ⟨y,hy,hback,hconverts⟩ := hx.revert hesv
  have hsound : ∀ z ∈ [x], z.Sound cfg := fun z hz => List.mem_singleton.1 hz ▸ hx
  obtain ⟨m,hm,-⟩ := enqVectorsMulti_givesBack hesv hres.toDocumented hsound
  have htbl := enqVectorsMulti_one hres hy hm
  simp only [enqVector]
  by_cases henq : res.enq = 0
  · refine iff_of_true ⟨⟨.ok,[x.tbl2odp],x.tbl2odp⟩,?_,taken,fun m' hm' => ?_⟩ fun hc => hc.2.1 henq
    · simp only [henq, ne_eq, not_true_eq_false, and_false, if_false, if_true]
    · rw [hm] at hm'
      cases hm'
      rw [htbl, if_pos henq]
  · rw [if_neg henq] at htbl
    cases checked with
    | true =>
      refine iff_of_true ⟨⟨.libFailed,[],y⟩,?_,⟨fun _ hz => absurd hz List.not_mem_nil,fun _ => ⟨rfl,hback⟩⟩,
        fun m' hm' => ?_⟩ fun hc => by cases hc.1
      · rw [if_pos ⟨rfl,henq⟩, hy, if_neg henq]
        rfl
      · rw [hm] at hm'
        cases hm'
        exact htbl
    | false =>
      rw [if_neg fun hc => by cases hc.1]
      rw [if_neg henq]
      refine ⟨?_,fun hno => ?_⟩
      · rintro ⟨s,hs,-,hsame⟩ ⟨-,-,hconv⟩
        cases hs
        have heq := (hsame m hm).symm.trans htbl
        exact hconverts.2 hconv (List.singleton_inj.1 heq)
      · have hsame : x.tbl2odp = y := by
          by_contra hne
          exact hno ⟨rfl,henq,hconverts.1 hne⟩
        refine ⟨_,rfl,⟨fun _ hz => absurd hz List.not_mem_nil,fun hne => absurd rfl hne⟩,fun m' hm' => ?_⟩
        rw [hm] at hm'
        cases hm'
        rw [htbl, hsame]

private theorem rejected_sameTables {stat : Status} :
    SameTables x (.ok ⟨stat,[],x⟩) (.ok ⟨0,[],[x]⟩) := by
  refine ⟨_,rfl,notAcceptedOne,fun m hm => ?_⟩
  cases hm
  rfl

/-- The result of the enqueue is looked at, or there is nothing to convert back. -/
theorem sendSched_sameTables (hres : DocumentedOne res) (hx : x.Sound cfg) :
    SameTables x (sendSched cfg q res x) (sendSchedMulti cfg q res [x]) ↔
      ¬(cfg.checkLevel = 0 ∧ cfg.esvEnabled = true ∧ res.enq ≠ 0 ∧ x.Converts) := by
  have hzero : (decide (0 < cfg.checkLevel) = false) ↔ cfg.checkLevel = 0 := by
    rw [decide_eq_false_iff_not, Nat.pos_iff_ne_zero, not_not]
  simp only [sendSched, sendSchedMulti]
  split
  · rename_i hcheck
    exact iff_of_true (rejected_sameTables) fun hc => by omega
  split
  · rename_i hcheck
    exact iff_of_true (rejected_sameTables) fun hc => by omega
  split
  · rename_i hesv
    rw [enqVector_sameTables hesv hres hx, hzero]
    exact not_congr (and_congr_right' ⟨fun h => ⟨hesv,h⟩,fun h => h.2⟩)
  rename_i hesv
  refine iff_of_true ?_ fun hc => hesv hc.2.1
  have htbl : ∀ m : Sent γ, (if res.enqMulti = ([x] : List (Event γ)).length then
      Except.ok (⟨([x] : List (Event γ)).length,[x].take res.enqMulti.toNat,[x]⟩ : Sent γ)
      else .ok ⟨if res.enqMulti < 0 then 0 else res.enqMulti,[x].take res.enqMulti.toNat,[x]⟩) =
        (.ok m : Except EvstateError (Sent γ)) → m.tbl = [x] := by
    intro m hm
    split at hm <;> cases hm <;> rfl
  split
  · exact ⟨_,rfl,notAcceptedOne,htbl⟩
  · refine ⟨_,rfl,⟨fun y hy => ?_,fun hne => absurd rfl hne⟩,htbl⟩
    split at hy
    · exact (List.mem_singleton.1 hy).symm
    · exact absurd hy List.not_mem_nil

theorem queueUnschedEnqueue_sameTables (hres : DocumentedOne res) (hx : x.Sound cfg) :
    SameTables x (queueUnschedEnqueue cfg q res x) (queueUnschedEnqueueMulti cfg q res [x]) := by
  simp only [queueUnschedEnqueue, queueUnschedEnqueueMulti]
  split
  · exact rejected_sameTables
  split
  · exact rejected_sameTables
  split
  · rename_i hvectors
    rw [Bool.and_eq_true] at hvectors
    exact (enqVector_sameTables hvectors.1 hres hx).2 fun hc => by cases hc.1
  split
  · refine ⟨_,rfl,notAcceptedOne,fun m hm => ?_⟩
    cases hm
    rfl
  · refine ⟨_,rfl,taken,fun m hm => ?_⟩
    cases hm
    rfl

end One

/-- A failed or partial enqueue gives the vectors back; `res` is what ODP returns for the array,
`resOne` what it returns for one event. -/
structure VectorsGivenBack (cfg : Config) (q : QueueElem) (res resOne : Results) (xs : List (Event γ))
    (x : Event γ) : Prop where
  schedMulti : ∃ s, sendSchedMulti cfg q res xs = .ok s ∧ GivesBack xs s
  unschedMulti : ∃ s, queueUnschedEnqueueMulti cfg q res xs = .ok s ∧ GivesBack xs s
  sched : SameTables x (sendSched cfg q resOne x) (sendSchedMulti cfg q resOne [x])
  unsched : SameTables x (queueUnschedEnqueue cfg q resOne x) (queueUnschedEnqueueMulti cfg q resOne [x])

/-- At check level 0 the result of the enqueue of one event to a scheduled queue is not looked at. -/
theorem vectors_given_back_iff {resOne : Results} {xs : List (Event γ)} {x : Event γ}
    (hres : Documented res xs.length) (hone : DocumentedOne resOne) (hxs : ∀ y ∈ xs, y.Sound cfg)
    (hx : x.Sound cfg) : VectorsGivenBack cfg q res resOne xs x ↔
      ¬(cfg.checkLevel = 0 ∧ cfg.esvEnabled = true ∧ resOne.enq ≠ 0 ∧ x.Converts) :=
  ⟨fun h => (sendSched_sameTables hone hx).1 h.sched,fun h =>
    ⟨sendSchedMulti_givesBack hres hxs,queueUnschedEnqueueMulti_givesBack hres hxs,
      (sendSched_sameTables hone hx).2 h,queueUnschedEnqueue_sameTables hone hx⟩⟩

private def readyQueue : QueueElem := ⟨.atomic,.ready,true,true,false,true⟩

private def innerEvent (evptr : BitVec 48) (evgen : BitVec 16) : Slot :=
  ⟨⟨evptr,evgen⟩,.packet,⟨⟨evptr,evgen⟩,EvstateCnt.encode 0x1001 0 1,false,false⟩,true,true⟩

private def vectorOf (evptr : BitVec 48) (table : List Slot) : Event Nat :=
  ⟨⟨evptr,0x1001⟩,⟨⟨evptr,0x1001⟩,EvstateCnt.encode 0x1001 0 1,false,false⟩,false,false,false,none,0,some table⟩

private theorem vectorOf_sound (checkLevel : Nat) (evptr inner : BitVec 48) :
    (vectorOf evptr [innerEvent inner 0x1001]).Sound ⟨checkLevel,true,false⟩ := by
  rintro table ⟨⟩ s hs
  rw [List.mem_singleton.1 hs]
  exact ⟨fun _ => rfl,_,rfl⟩

/-- One of two vectors is enqueued; at check level 1 a failed enqueue is noticed. -/
theorem vectors_given_back_partial : VectorsGivenBack ⟨1,true,false⟩ readyQueue ⟨0,1,0,0⟩ ⟨-1,0,0,0⟩
    [vectorOf 8 [innerEvent 16 0x1001],vectorOf 24 [innerEvent 32 0x1001]]
    (vectorOf 8 [innerEvent 16 0x1001]) := by
  refine (vectors_given_back_iff ⟨by decide,by decide⟩ ⟨⟨by decide,by decide⟩,by decide⟩
    (fun y hy => ?_) (vectorOf_sound 1 8 16)).2 fun hc => absurd hc.1 (by decide)
  simp only [List.mem_cons, List.not_mem_nil, or_false] at hy
  rcases hy with rfl | rfl
  · exact vectorOf_sound 1 8 16
  · exact vectorOf_sound 1 24 32

/-- At check level 0 the inner event of the vector has lost its generation after a failed enqueue, and
`EM_OK` is returned; the function for arrays gives the vector back. -/
theorem vector_not_given_back :
    sendSched ⟨0,true,false⟩ readyQueue ⟨-1,0,0,0⟩ (vectorOf 8 [innerEvent 16 0x1001]) =
        .ok ⟨.ok,[],(vectorOf 8 [innerEvent 16 0x1001]).tbl2odp⟩ ∧
      sendSchedMulti ⟨0,true,false⟩ readyQueue ⟨-1,0,0,0⟩ [vectorOf 8 [innerEvent 16 0x1001]] =
        .ok ⟨0,[],[vectorOf 8 [innerEvent 16 0x1001]]⟩ ∧
      ¬VectorsGivenBack ⟨0,true,false⟩ readyQueue ⟨-1,0,0,0⟩ ⟨-1,0,0,0⟩ []
        (vectorOf 8 [innerEvent 16 0x1001]) := by
  have hone : sendSched ⟨0,true,false⟩ readyQueue ⟨-1,0,0,0⟩ (vectorOf 8 [innerEvent 16 0x1001]) =
      .ok ⟨.ok,[],(vectorOf 8 [innerEvent 16 0x1001]).tbl2odp⟩ := by rfl
  have hmulti : sendSchedMulti ⟨0,true,false⟩ readyQueue ⟨-1,0,0,0⟩ [vectorOf 8 [innerEvent 16 0x1001]] =
      .ok ⟨0,[],[vectorOf 8 [innerEvent 16 0x1001]]⟩ := by rfl
  refine ⟨hone,hmulti,fun h => ?_⟩
  obtain ⟨s,hs,-,hsame⟩ := h.sched
  rw [hone] at hs
  cases hs
  have heq := hsame _ hmulti
  revert heq
  decide

end EmOdp.Send
