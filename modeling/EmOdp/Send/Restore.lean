import EmOdp.EventState.Generation
import EmOdp.Send.Calls

/-! What a failed send leaves of an event: marking and unmarking it, and converting its
vector table there and back. -/
namespace EmOdp.Send
open EventState EvstateCnt Lib.Batch

section Counts
variable {hdl : EvHdl} {hdr : EvHdr} {t : Nat} {s r : Int}

/-- The counters of an event with references, of which the user owns one or more; its
handle is current unless the event had references. -/
structure Counts (hdl : EvHdl) (hdr : EvHdr) (t : Nat) (s r : Int) : Prop where
  stateCnt : hdr.stateCnt = encode (gen t) s r
  sends : 0 ≤ s
  owned : s < r
  refs : r < 0x8000
  evgen : hdr.refsUsed = false → hdl.evgen = BitVec.ofInt 16 (gen t)

/-- A send is accepted, and its revert leaves the header as it was. -/
theorem Counts.send_revert (h : Counts hdl hdr t s r) (hodp : hdr.odpType = false) (v : Variant) :
    ∃ hdr', EventState.evstateUsr2em v hdl hdr = .ok hdr' ∧
      ∀ v', EventState.evstateUsr2emRevert v' hdl hdr' = .ok hdr := by
  obtain ⟨hcnt,hs,hsr,hr,hgen⟩ := h
  have hone : ((1 : BitVec 16).toNat : Int) = 1 := rfl
  have hzero : ((0 : BitVec 16).toNat : Int) = 0 := rfl
  have hsend := @esvUsr2em_counts v hdl hdr t s r 0 1 hcnt
  rw [hone, hzero, sub_zero, if_neg (not_usr2emError_encode (by omega) (by omega) hr hgen)] at hsend
  refine ⟨{ hdr with stateCnt := encode (gen (t+1)) (s+1) r },?_,fun v' => ?_⟩
  · rw [EventState.evstateUsr2em, if_neg (by simp [hodp])]
    exact hsend
  · have hrevert := @esvUsr2em_revert_counts v' hdl
      { hdr with stateCnt := encode (gen (t+1)) (s+1) r } t (s+1) r 0 1 rfl
    rw [hone, hzero, add_zero, add_sub_cancel_right,
      if_neg (not_usr2emError_encode (by omega) (by omega) hr hgen)] at hrevert
    rw [EventState.evstateUsr2emRevert, if_neg (by simp [hodp])]
    simp only [← hcnt] at hrevert
    exact hrevert

/-- A free is accepted. -/
theorem Counts.free (h : Counts hdl hdr t s r) (hodp : hdr.odpType = false) (v : Variant) :
    ∃ hdr', evstateFree v hdl hdr = .ok hdr' := by
  obtain ⟨hcnt,hs,hsr,hr,hgen⟩ := h
  have hone : ((1 : BitVec 16).toNat : Int) = 1 := rfl
  have hzero : ((0 : BitVec 16).toNat : Int) = 0 := rfl
  have hfree := @esvUsr2em_counts v hdl hdr t s r 1 0 hcnt
  rw [hone, hzero, add_zero, if_neg (not_usr2emError_encode (by omega) (by omega) (by omega) hgen)] at hfree
  simp only [evstateFree, hodp, Bool.false_eq_true, and_false, if_false]
  exact ⟨_,hfree⟩

end Counts

section Table
variable {cfg : Config}

/-- A new header holds the handle that the table gets. -/
theorem Slot.evhdrInit_ok {s u : Slot} (hesv : cfg.esvEnabled = true)
    (h : s.evhdrInit cfg = .ok u) :
    u.entry = u.hdr.event ∧ u.userFlag = true ∧ u.odpType = s.odpType := by
  simp only [evhdrInit, hesv, Bool.not_true, Bool.false_eq_true, if_false] at h
  generalize (if s.odpType = .vector then { s.hdr with refsUsed := false } else s.hdr) = hdr at h
  split at h
  · cases h
    exact ⟨rfl,rfl,rfl⟩
  · rename_i hprealloc
    simp only [Bool.or_eq_true, not_or, Bool.not_eq_true] at hprealloc
    simp only [esvEm2usr, hprealloc.1.2, Bool.false_eq_true, if_false] at h
    split at h
    · cases h
    · cases h
      exact ⟨rfl,rfl,rfl⟩

/-- Converting an entry and initializing it again changes nothing more the second time. -/
theorem Slot.initOdp_again {s s' : Slot} (hesv : cfg.esvEnabled = true)
    (h : s.em2odp.initOdp cfg = .ok s') : s'.em2odp.initOdp cfg = .ok s' := by
  have hkind : s.em2odp.odpType = s.odpType := rfl
  cases hodp : s.odpType with
  | packet | vector =>
    simp only [initOdp, hkind, hodp, hesv, if_true] at h
    have hs : s'.entry = s'.hdr.event ∧ s'.userFlag = true ∧ s'.odpType = s.odpType := by
      split at h
      · rename_i hflag
        cases h
        exact ⟨rfl,hflag,hodp.symm⟩
      · have hinit := evhdrInit_ok hesv h
        exact hinit
    have hkind' : s'.em2odp.odpType = s.odpType := hs.2.2
    have hflag' : s'.em2odp.userFlag = true := hs.2.1
    simp only [initOdp, hkind', hodp, hflag', hesv, if_true]
    have hentry : s'.em2odp.hdr.event = s'.entry := hs.1.symm
    exact congrArg _ (Slot.ext hentry (hodp.symm.trans hs.2.2.symm) rfl hs.2.1.symm rfl)
  | buffer =>
    simp only [initOdp, hkind, hodp, hesv, if_true] at h
    cases h
    simp only [initOdp, em2odp, hodp, hesv, if_true]
  | timeout =>
    simp only [initOdp, hkind, hodp, hesv, if_true] at h
    cases h
    simp only [initOdp, em2odp, hodp, hesv, if_true]
  | other =>
    simp only [initOdp, hkind, hodp] at h
    cases h
    simp only [initOdp, em2odp, hodp]

/-- What the user has seen of a table, the user sees again. -/
theorem eventVectorTbl_again {table table' : List Slot} (hesv : cfg.esvEnabled = true)
    (h : eventVectorTbl cfg table = .ok table') : eventVectorTbl cfg table' = .ok table' := by
  simp only [eventVectorTbl, hesv, if_true, List.mapM_map] at h ⊢
  have hslots := forall₂_mapM h
  clear h
  induction hslots with
  | nil => rfl
  | cons hs _ ih =>
    rw [List.mapM_cons, Function.comp_apply, Slot.initOdp_again hesv hs, ih]
    rfl

end Table

section Events
variable {γ : Type} {cfg : Config} {x y z : Event γ}

/-- The user has the event, and can look at its table where it is a vector. -/
structure Held (cfg : Config) (x : Event γ) : Prop where
  counts : cfg.esvEnabled = true → x.hdr.odpType = false → ∃ t s r, Counts x.hdl x.hdr t s r
  table : ∀ table, x.table = some table → ∃ table', eventVectorTbl cfg table = .ok table'

/-- `y` is `x` but for the event group in its header, which each send writes before it is
read, and a table that the user sees as before. -/
structure Restored (cfg : Config) (x y : Event γ) : Prop where
  hdl : y.hdl = x.hdl
  hdr : y.hdr = x.hdr
  timerInd : y.timerInd = x.timerInd
  hasRef : y.hasRef = x.hasRef
  aggrSent : y.aggrSent = x.aggrSent ∨ y.aggrSent = false
  table : y.table.map (eventVectorTbl cfg) = x.table.map (eventVectorTbl cfg)

namespace Restored

theorem refl (x : Event γ) : Restored cfg x x := ⟨rfl,rfl,rfl,rfl,.inl rfl,rfl⟩

theorem trans (hxy : Restored cfg x y) (hyz : Restored cfg y z) : Restored cfg x z := by
  refine ⟨hyz.hdl.trans hxy.hdl,hyz.hdr.trans hxy.hdr,hyz.timerInd.trans hxy.timerInd,
    hyz.hasRef.trans hxy.hasRef,?_,hyz.table.trans hxy.table⟩
  rcases hyz.aggrSent with h | h
  · rw [h]
    exact hxy.aggrSent
  · exact .inr h

theorem held (h : Restored cfg x y) (hx : Held cfg x) : Held cfg y := by
  refine ⟨fun hesv hodp => ?_,fun table htable => ?_⟩
  · rw [h.hdr] at hodp
    rw [h.hdl, h.hdr]
    exact hx.counts hesv hodp
  · have hread := h.table
    rw [htable, Option.map_some] at hread
    obtain ⟨table',hx',heq⟩ := Option.map_eq_some_iff.1 hread.symm
    obtain ⟨table'',hok⟩ := hx.table table' hx'
    exact ⟨table'',heq.symm.trans hok⟩

end Restored

/-- The handle can be sent and freed. -/
def Reusable (cfg : Config) (x : Event γ) : Prop :=
  cfg.esvEnabled = true → x.hdr.odpType = false → ∀ v,
    (∃ hdr, EventState.evstateUsr2em v x.hdl x.hdr = .ok hdr) ∧
      ∃ hdr, evstateFree v x.hdl x.hdr = .ok hdr

theorem Held.reusable (h : Held cfg x) : Reusable cfg x := by
  intro hesv hodp v
  obtain ⟨t,s,r,hcounts⟩ := h.counts hesv hodp
  obtain ⟨hdr,hsend,-⟩ := hcounts.send_revert hodp v
  exact ⟨⟨hdr,hsend⟩,hcounts.free hodp v⟩

/-- `y` is `x` marked as EM's: unmarking it gives the header of `x`. -/
structure Marked (cfg : Config) (x y : Event γ) : Prop where
  eq : y = { x with hdr := y.hdr }
  revert : ∀ v (z : Event γ), z.hdl = y.hdl → z.hdr = y.hdr →
    z.evstateUsr2emRevert cfg v = .ok { z with hdr := x.hdr }

theorem Held.mark (h : Held cfg x) (v : Variant) :
    ∃ y, x.evstateUsr2em cfg v = .ok y ∧ Marked cfg x y := by
  by_cases hesv : cfg.esvEnabled = true
  swap
  · refine ⟨x,by simp only [Event.evstateUsr2em, hesv, Bool.false_eq_true, if_false],rfl,?_⟩
    intro v' z hhdl hhdr
    simp only [Event.evstateUsr2emRevert, hesv, Bool.false_eq_true, if_false, ← hhdr]
  by_cases hodp : x.hdr.odpType = true
  · refine ⟨x,?_,rfl,fun v' z hhdl hhdr => ?_⟩
    · simp only [Event.evstateUsr2em, hesv, if_true, EventState.evstateUsr2em, hodp, Except.map]
    · simp only [Event.evstateUsr2emRevert, hesv, if_true, EventState.evstateUsr2emRevert, hhdr,
        hodp, Except.map]
  rw [Bool.not_eq_true] at hodp
  obtain ⟨t,s,r,hcounts⟩ := h.counts hesv hodp
  obtain ⟨hdr,hsend,hrevert⟩ := hcounts.send_revert hodp v
  refine ⟨{ x with hdr },?_,rfl,fun v' z hhdl hhdr => ?_⟩
  · simp only [Event.evstateUsr2em, hesv, if_true, hsend, Except.map]
  · simp only [Event.evstateUsr2emRevert, hesv, if_true, hhdl, hhdr, hrevert, Except.map]

/-- Unmarking what a function left of a marked event restores the event. -/
theorem Marked.unmark (h : Marked cfg x y) (hz : Restored cfg y z) (v : Variant) :
    ∃ w, z.evstateUsr2emRevert cfg v = .ok w ∧ Restored cfg x w := by
  obtain ⟨heq,hrevert⟩ := h
  refine ⟨_,hrevert v z hz.hdl hz.hdr,?_⟩
  have htimer : y.timerInd = x.timerInd := by rw [heq]
  have href : y.hasRef = x.hasRef := by rw [heq]
  have haggr : y.aggrSent = x.aggrSent := by rw [heq]
  have htable : y.table = x.table := by rw [heq]
  have hhdl : y.hdl = x.hdl := by rw [heq]
  exact ⟨hz.hdl.trans hhdl,rfl,hz.timerInd.trans htimer,hz.hasRef.trans href,
    haggr ▸ hz.aggrSent,htable ▸ hz.table⟩

theorem Marked.table (h : Marked cfg x y) : y.table = x.table := by rw [h.eq]

theorem Marked.hdl (h : Marked cfg x y) : y.hdl = x.hdl := by rw [h.eq]

/-- A converted table is converted back to what the user sees. -/
theorem tbl2odp_revert (hesv : cfg.esvEnabled = true)
    (h : ∀ table, x.table = some table → ∃ table', eventVectorTbl cfg table = .ok table') :
    ∃ y, x.tbl2odp.tbl2odpRevert cfg = .ok y ∧ Restored cfg x y := by
  cases htable : x.table with
  | none =>
    refine ⟨x,?_,.refl x⟩
    have heq : x.tbl2odp = x := Event.ext rfl rfl rfl rfl rfl rfl rfl (by simp [Event.tbl2odp, htable])
    simp only [heq, Event.tbl2odpRevert, htable]
  | some table =>
    obtain ⟨table',hread⟩ := h table htable
    have hagain := eventVectorTbl_again hesv hread
    refine ⟨{ x with table := some table' },?_,rfl,rfl,rfl,rfl,.inl rfl,?_⟩
    · simp only [eventVectorTbl, hesv, if_true] at hread
      simp only [Event.tbl2odpRevert, Event.tbl2odp, htable, Option.map_some, hread, Except.map]
    · rw [htable, Option.map_some, Option.map_some, hagain, hread]

/-- The flag is written and cleared alike. -/
theorem setAggrSent_restored (x : Event γ) :
    Restored cfg x ((x.setAggrSent true).setAggrSent false) := by
  cases hrefs : x.hdr.refsUsed with
  | false =>
    simp only [Event.setAggrSent, hrefs, Bool.false_eq_true, if_false]
    exact ⟨rfl,rfl,rfl,rfl,.inr rfl,rfl⟩
  | true =>
    simp only [Event.setAggrSent, hrefs, if_true]
    exact .refl x

end Events
end EmOdp.Send
