import EmOdp.EventGroup.NotifAccesses

/-! Runs of any calls on one event group: where no call writes the notifications of another, each
generation gets the ones that it was applied with. -/
namespace EmOdp.EventGroup.Notifs
open Lib
variable {ι Notif : Type} [DecidableEq ι] {s t : State ι Notif} {c d : ι} {p q : Pc Notif} {r : Read}
  {a : Apply Notif} {seen : EgrpCounter}

/-- The call has begun to write, and has not yet tried to publish. -/
def Pc.Writing : Pc Notif → Prop
  | .writeEntry .. | .applyCas .. => True
  | .idle | .applyLoad _ | .writeNum .. | .readLoad _ | .readNum _ | .readNumAgain _ | .copy .. | .decrementCas .. =>
    False

/-- `em_event_group_notif` has found the group applied, and is copying. -/
def Pc.Notifying : Pc Notif → Prop
  | .readNum r | .readNumAgain r | .copy r _ _ =>
    match r.reader with
    | .notif _ => True
    | .countDecrement .. => False
  | .idle | .applyLoad _ | .writeNum .. | .writeEntry .. | .applyCas .. | .readLoad _ | .decrementCas .. => False

/-- What the next access of a core must find, by what it is -/
def Pc.Undisturbed (s : State ι Notif) (c : ι) : Pc Notif → Prop
  | .writeNum .. | .writeEntry .. =>
    s.counts.applied = false ∧ ∀ d, d ≠ c → ¬(s.pc d).Writing ∧ ¬(s.pc d).Notifying
  | .decrementCas r _ => s.epoch < r.epoch + 2 ^ egrpGenBits
  | .idle | .applyLoad _ | .applyCas .. | .readLoad _ | .readNum _ | .readNumAgain _ | .copy .. => True

/-- A call writes notifications only while the group is not applied, no other call is between its first
write and its compare-exchange, and no reader is copying. Fewer than `2^15` applies come between a last
decrement's load and its compare-exchange. -/
def Undisturbed (s : State ι Notif) : Label ι Notif → Prop
  | .access c => (s.pc c).Undisturbed s c
  | .call .. | .update _ => True

/-- Each generation is begun by one call, and what is returned for it is what that call was given. -/
structure Exact (s : State ι Notif) : Prop where
  once : (s.begun.map Prod.fst).Nodup
  running : s.counts.applied = true → ∃ notifTbl, (s.epoch,notifTbl) ∈ s.begun
  handedOut : ∀ x ∈ s.handedOut, x ∈ s.begun
  returned : ∀ x ∈ s.returned, ∃ notifTbl, (x.1,notifTbl) ∈ s.begun ∧ x.2.2 = notifTbl.take x.2.1

/-- The shared table has these entries. -/
structure Holds (s : State ι Notif) (notifTbl : List Notif) : Prop where
  numNotif : s.numNotif = notifTbl.length
  length : notifTbl.length ≤ emEventGroupMaxNotif
  entry : ∀ i, (h : i < notifTbl.length) → s.notifTbl i = notifTbl[i]

/-- What a reader has loaded belongs to a generation that has begun. -/
def Read.Ok (s : State ι Notif) (r : Read) : Prop :=
  match r.reader with
  | .countDecrement decr egrpGen => 0 < decr ∧ r.seen.gen = BitVec.ofNat _ r.epoch ∧ r.epoch ≤ s.epoch ∧
      r.seen.applied = true ∧ ∃ new, r.seen.postCountDecrement decr egrpGen = some new ∧ new.postCnt = 0
  | .notif _ => ∃ notifTbl, (r.epoch,notifTbl) ∈ s.begun ∧ Holds s notifTbl

/-- The generation that the reader has loaded is still running. -/
def Read.Valid (s : State ι Notif) (r : Read) : Prop :=
  match r.reader with
  | .countDecrement .. => s.epoch = r.epoch ∧ s.counts.applied = true
  | .notif _ => True

/-- What a last decrement has copied is the generation's, if that is still running. -/
def Read.Copied (s : State ι Notif) (r : Read) (copied : List Notif) : Prop :=
  match r.reader with
  | .countDecrement decr egrpGen => 0 < decr ∧ ∀ new, r.seen.postCountDecrement decr egrpGen = some new →
      new.postCnt = 0 → r.Ok s ∧ (r.Valid s → (r.epoch,copied) ∈ s.begun)
  | .notif _ => True

def Reader.Counts : Reader → Prop
  | .countDecrement decr _ => 0 < decr
  | .notif _ => True

/-- What a core knows before its next access -/
def PcOk (s : State ι Notif) : Pc Notif → Prop
  | .idle => True
  | .readLoad reader => reader.Counts
  | .applyLoad a => a.notifTbl.length ≤ emEventGroupMaxNotif
  | .writeNum a seen => a.notifTbl.length ≤ emEventGroupMaxNotif ∧ seen.applied = false
  | .writeEntry a seen i => a.notifTbl.length ≤ emEventGroupMaxNotif ∧ seen.applied = false ∧
      s.counts.applied = false ∧ s.numNotif = a.notifTbl.length ∧ i < a.notifTbl.length ∧
      ∀ j, (h : j < a.notifTbl.length) → j < i → s.notifTbl j = a.notifTbl[j]
  | .applyCas a seen => seen.applied = false ∧ s.counts.applied = false ∧ Holds s a.notifTbl
  | .readNum r => r.Ok s
  | .readNumAgain r => r.Ok s ∧ (r.Valid s → s.numNotif ≤ r.reader.limit)
  | .copy r numNotif copied => r.Ok s ∧ copied.length < numNotif ∧ (r.Valid s →
      numNotif = min r.reader.limit s.numNotif ∧ ∀ i, (h : i < copied.length) → copied[i] = s.notifTbl i)
  | .decrementCas r copied => r.Copied s copied

structure Inv (s : State ι Notif) : Prop where
  gen : s.counts.gen = BitVec.ofNat _ s.epoch
  stopped : s.counts.applied = false → s.counts.postCnt = 0
  once : (s.begun.map Prod.fst).Nodup
  begun : ∀ x ∈ s.begun, x.1 ≤ s.epoch
  running : s.counts.applied = true → ∃ notifTbl, (s.epoch,notifTbl) ∈ s.begun ∧ Holds s notifTbl
  pcs : ∀ c, PcOk s (s.pc c)
  one : ∀ c d, (s.pc c).Writing → (s.pc d).Writing → c = d
  handedOut : ∀ x ∈ s.handedOut, x ∈ s.begun
  returned : ∀ x ∈ s.returned, ∃ notifTbl, (x.1,notifTbl) ∈ s.begun ∧ x.2.2 = notifTbl.take x.2.1

/-- A step that writes no notification, as the other cores see it -/
structure Kept (s t : State ι Notif) : Prop where
  numNotif : t.numNotif = s.numNotif
  notifTbl : t.notifTbl = s.notifTbl
  begun : ∀ x ∈ s.begun, x ∈ t.begun
  epoch : s.epoch ≤ t.epoch
  applied : t.epoch = s.epoch → t.counts.applied = true → s.counts.applied = true

omit [DecidableEq ι] in
theorem Holds.kept {notifTbl : List Notif} (h : Holds s notifTbl) (hk : Kept s t) : Holds t notifTbl :=
  ⟨hk.numNotif.trans h.numNotif,h.length,fun i hi => by rw [hk.notifTbl]; exact h.entry i hi⟩

omit [DecidableEq ι] in
theorem Read.Ok.kept (h : r.Ok s) (hk : Kept s t) : r.Ok t := by
  unfold Read.Ok at *
  split at h
  · exact ⟨h.1,h.2.1,h.2.2.1.trans hk.epoch,h.2.2.2⟩
  · obtain ⟨notifTbl,hmem,hholds⟩ := h
    exact ⟨notifTbl,hk.begun _ hmem,hholds.kept hk⟩

omit [DecidableEq ι] in
theorem Read.Valid.of_kept (h : r.Valid t) (hok : r.Ok s) (hk : Kept s t) : r.Valid s := by
  unfold Read.Valid Read.Ok at *
  split at h
  · rename_i hr
    rw [hr] at hok
    have hle := hok.2.2.1
    have hep := hk.epoch
    have heq : t.epoch = s.epoch := by omega
    exact ⟨by omega,hk.applied heq h.2⟩
  · trivial

omit [DecidableEq ι] in
theorem Read.Copied.kept {copied : List Notif} (h : r.Copied s copied) (hk : Kept s t) : r.Copied t copied := by
  unfold Read.Copied at *
  split at h
  · refine ⟨h.1,fun new hnew hzero => ?_⟩
    obtain ⟨hok,hcopied⟩ := h.2 new hnew hzero
    exact ⟨hok.kept hk,fun hv => hk.begun _ (hcopied (hv.of_kept hok hk))⟩
  · trivial

/-- A step that writes a notification, as the other cores see it -/
structure Written (s t : State ι Notif) : Prop where
  applied : s.counts.applied = false
  counts : t.counts = s.counts
  epoch : t.epoch = s.epoch
  begun : t.begun = s.begun

omit [DecidableEq ι] in
/-- No last decrement's copy can still be used. -/
theorem Read.written (h : r.Ok s) (hn : ¬(Pc.readNum r : Pc Notif).Notifying) (hw : Written s t) :
    r.Ok t ∧ ¬r.Valid t := by
  unfold Read.Ok Read.Valid at *
  cases hr : r.reader with
  | countDecrement decr egrpGen =>
    simp only [hr] at h ⊢
    refine ⟨⟨h.1,h.2.1,h.2.2.1.trans_eq hw.epoch.symm,h.2.2.2⟩,fun hv => ?_⟩
    rw [hw.counts, hw.applied] at hv
    exact absurd hv.2 (by decide)
  | notif maxNotif => exact absurd (by simp only [Pc.Notifying, hr]) hn

omit [DecidableEq ι] in
theorem PcOk.written (h : PcOk s p) (hp : ¬p.Writing) (hn : ¬p.Notifying) (hw : Written s t) : PcOk t p := by
  cases p with
  | idle => trivial
  | applyLoad a => exact h
  | readLoad reader => exact h
  | writeNum a seen => exact h
  | writeEntry a seen i => exact absurd trivial hp
  | applyCas a seen => exact absurd trivial hp
  | readNum r => exact (Read.written h hn hw).1
  | readNumAgain r =>
    obtain ⟨hok,hinvalid⟩ := Read.written h.1 hn hw
    exact ⟨hok,fun hv => absurd hv hinvalid⟩
  | copy r numNotif copied =>
    obtain ⟨hok,hinvalid⟩ := Read.written h.1 hn hw
    exact ⟨hok,h.2.1,fun hv => absurd hv hinvalid⟩
  | decrementCas r copied =>
    cases hr : r.reader with
    | countDecrement decr egrpGen =>
      simp only [PcOk, Read.Copied, hr] at h ⊢
      refine ⟨h.1,fun new hnew hzero => ?_⟩
      obtain ⟨hok,hinvalid⟩ := Read.written (h.2 new hnew hzero).1 (by simp only [Pc.Notifying, hr]; exact id) hw
      exact ⟨hok,fun hv => absurd hv hinvalid⟩
    | notif maxNotif => simp only [PcOk, Read.Copied, hr]

omit [DecidableEq ι] in
theorem PcOk.kept (h : PcOk s p) (hk : Kept s t) (hw : p.Writing → t.counts.applied = false) : PcOk t p := by
  cases p with
  | idle => trivial
  | applyLoad a => exact h
  | readLoad reader => exact h
  | writeNum a seen => exact h
  | writeEntry a seen i =>
    obtain ⟨hlen,hseen,-,hnum,hi,hentry⟩ := h
    exact ⟨hlen,hseen,hw trivial,hk.numNotif.trans hnum,hi,by rw [hk.notifTbl]; exact hentry⟩
  | applyCas a seen => exact ⟨h.1,hw trivial,h.2.2.kept hk⟩
  | readNum r => exact Read.Ok.kept h hk
  | readNumAgain r => exact ⟨h.1.kept hk,fun hv => by rw [hk.numNotif]; exact h.2 (hv.of_kept h.1 hk)⟩
  | copy r numNotif copied =>
    refine ⟨h.1.kept hk,h.2.1,fun hv => ?_⟩
    rw [hk.numNotif, hk.notifTbl]
    exact h.2.2 (hv.of_kept h.1 hk)
  | decrementCas r copied => exact Read.Copied.kept h hk

omit [DecidableEq ι] in
/-- The generation whose word a last decrement has loaded is the one that runs, if the word is still there. -/
theorem Read.Ok.valid (h : r.Ok s) (hi : Inv s) (hword : s.counts.allU64 = r.seen.allU64)
    (hw : s.epoch < r.epoch + 2 ^ egrpGenBits) : r.Valid s := by
  have hseen := EgrpCounter.allU64_injective hword
  unfold Read.Ok Read.Valid at *
  cases hr : r.reader with
  | countDecrement decr egrpGen =>
    simp only [hr] at h ⊢
    obtain ⟨-,hgen,hle,happlied,-⟩ := h
    refine ⟨?_,by rw [hseen, happlied]⟩
    have hm := congrArg BitVec.toNat (hi.gen.symm.trans ((congrArg EgrpCounter.gen hseen).trans hgen))
    simp only [BitVec.toNat_ofNat, egrpGenBits, egrpCntBits] at hm hw
    omega
  | notif maxNotif => trivial

omit [DecidableEq ι] in
theorem PcOk.notApplied (h : PcOk s p) (hp : p.Writing) : s.counts.applied = false := by
  cases p with
  | writeEntry a seen i => exact h.2.2.1
  | applyCas a seen => exact h.2.1
  | idle | applyLoad | writeNum | readLoad | readNum | readNumAgain | copy | decrementCas => exact hp.elim

/-- A step that neither begins a generation nor writes a notification -/
structure Quiet (s t : State ι Notif) : Prop where
  numNotif : t.numNotif = s.numNotif
  notifTbl : t.notifTbl = s.notifTbl
  begun : t.begun = s.begun
  epoch : t.epoch = s.epoch
  gen : t.counts.gen = s.counts.gen
  applied : t.counts.applied = true → s.counts.applied = true

omit [DecidableEq ι] in
theorem Quiet.kept (h : Quiet s t) : Kept s t :=
  ⟨h.numNotif,h.notifTbl,fun _ hx => by rw [h.begun]; exact hx,h.epoch.ge,fun _ => h.applied⟩

omit [DecidableEq ι] in
theorem Inv.quiet (h : Inv s) (hq : Quiet s t) (hstopped : t.counts.applied = false → t.counts.postCnt = 0)
    (hpcs : ∀ d, t.pc d = s.pc d ∨ PcOk t (t.pc d) ∧ ¬(t.pc d).Writing)
    (hhandedOut : ∀ x ∈ t.handedOut, x ∈ s.begun)
    (hreturned : ∀ x ∈ t.returned, ∃ notifTbl, (x.1,notifTbl) ∈ s.begun ∧ x.2.2 = notifTbl.take x.2.1) :
    Inv t := by
  have hwriting (d : ι) (hd : (t.pc d).Writing) : t.pc d = s.pc d :=
    (hpcs d).resolve_right fun h => h.2 hd
  refine ⟨by rw [hq.gen, hq.epoch]; exact h.gen,hstopped,by rw [hq.begun]; exact h.once,
    by rw [hq.begun, hq.epoch]; exact h.begun,fun happlied => ?_,fun d => ?_,fun d e hd he => ?_,
    by rw [hq.begun]; exact hhandedOut,by rw [hq.begun]; exact hreturned⟩
  · obtain ⟨notifTbl,hmem,hholds⟩ := h.running (hq.applied happlied)
    exact ⟨notifTbl,by rw [hq.begun, hq.epoch]; exact hmem,hholds.kept hq.kept⟩
  · rcases hpcs d with hd | hd
    · rw [hd]
      refine (h.pcs d).kept hq.kept fun hw => Bool.eq_false_iff.2 fun happlied => ?_
      have hno := (h.pcs d).notApplied hw
      rw [hq.applied happlied] at hno
      exact absurd hno (by decide)
    · exact hd.1
  · have hd' := hwriting d hd
    have he' := hwriting e he
    rw [hd'] at hd
    rw [he'] at he
    exact h.one d e hd he

/-- One core goes on, and does not begin to write. -/
private theorem pcs_update (hpc : t.pc = Function.update s.pc c p) (hp : PcOk t p) (hw : ¬p.Writing) (d : ι) :
    t.pc d = s.pc d ∨ PcOk t (t.pc d) ∧ ¬(t.pc d).Writing := by
  by_cases hd : d = c
  · right
    rw [hpc, hd, Function.update_self]
    exact ⟨hp,hw⟩
  · left
    rw [hpc, Function.update_of_ne hd]

theorem Inv.setPc (h : Inv s) (hp : PcOk s p) (hw : ¬p.Writing) : Inv (s.setPc c p) := by
  have hq : Quiet s (s.setPc c p) := ⟨rfl,rfl,rfl,rfl,rfl,id⟩
  exact h.quiet hq h.stopped (pcs_update rfl (hp.kept hq.kept fun h => absurd h hw) hw) h.handedOut h.returned

omit [DecidableEq ι] in
/-- What a reader has copied at the end -/
theorem copied_eq_take {notifTbl copied : List Notif} {limit : Nat} (h : Holds s notifTbl)
    (hlength : copied.length = min limit s.numNotif)
    (hentry : ∀ i, (h : i < copied.length) → copied[i] = s.notifTbl i) : copied = notifTbl.take limit := by
  apply List.ext_getElem
  · rw [List.length_take, hlength, h.numNotif]
  · intro i hi hi'
    rw [List.length_take] at hi'
    rw [List.getElem_take, hentry i hi]
    exact h.entry i (by omega)

theorem Inv.next {numNotif : Nat} {copied : List Notif} (h : Inv s) (hr : r.Ok s) (hle : copied.length ≤ numNotif)
    (hcopied : r.Valid s → numNotif = min r.reader.limit s.numNotif ∧
      ∀ i, (h : i < copied.length) → copied[i] = s.notifTbl i) : Inv (s.next c r numNotif copied) := by
  unfold State.next
  split
  · rename_i hlt
    exact h.setPc ⟨hr,hlt,hcopied⟩ id
  · rename_i hge
    have hlength : r.Valid s → copied.length = min r.reader.limit s.numNotif := fun hv => by
      have heq := (hcopied hv).1
      omega
    split
    · rename_i decr egrpGen hreader
      refine h.setPc ?_ id
      simp only [PcOk, Read.Copied, hreader]
      have hok := hr
      simp only [Read.Ok, hreader] at hok
      refine ⟨hok.1,fun _ _ _ => ⟨hr,fun hv => ?_⟩⟩
      have hrun := hv
      simp only [Read.Valid, hreader] at hrun
      obtain ⟨notifTbl,hmem,hholds⟩ := h.running hrun.2
      have htake := copied_eq_take hholds (hlength hv) (hcopied hv).2
      rw [Reader.limit.eq_def, hreader, List.take_of_length_le hholds.length] at htake
      rw [htake, ← hrun.1]
      exact hmem
    · rename_i maxNotif hreader
      have hok := hr
      simp only [Read.Ok, hreader] at hok
      obtain ⟨notifTbl,hmem,hholds⟩ := hok
      have hv : r.Valid s := by simp only [Read.Valid, hreader]
      have htake := copied_eq_take hholds (hlength hv) (hcopied hv).2
      rw [Reader.limit.eq_def, hreader] at htake
      exact h.quiet ⟨rfl,rfl,rfl,rfl,rfl,id⟩ h.stopped (pcs_update rfl trivial id) h.handedOut
        (List.forall_mem_cons.2 ⟨⟨notifTbl,hmem,htake⟩,h.returned⟩)

omit [DecidableEq ι] in
/-- A group that is not applied has no events left to count. -/
theorem Inv.not_counted {decr : Nat} (h : Inv s) (hpos : 0 < decr) (hle : decr ≤ s.counts.postCnt.toNat)
    (happlied : s.counts.applied = false) : False := by
  rw [h.stopped happlied] at hle
  exact absurd (Nat.le_zero.1 hle) (by omega)

theorem Inv.readLoad {reader : Reader} (h : Inv s) (hc : reader.Counts) : Inv (s.readLoad c reader) := by
  unfold State.readLoad
  cases reader with
  | countDecrement decr egrpGen =>
    dsimp only
    split
    · exact h.setPc trivial id
    · rename_i new hnew
      have hok (hzero : new.postCnt = 0) : Read.Ok s ⟨.countDecrement decr egrpGen,s.counts,s.epoch⟩ := by
        obtain ⟨hle,-⟩ := EgrpCounter.postCountDecrement_some hnew
        refine ⟨hc,h.gen,le_rfl,?_,new,hnew,hzero⟩
        by_contra hno
        exact h.not_counted hc hle (Bool.eq_false_iff.2 hno)
      split
      · rename_i hzero
        exact h.setPc (hok hzero) id
      · rename_i hzero
        refine h.setPc ⟨hc,fun new' hnew' hzero' => ?_⟩ id
        rw [hnew] at hnew'
        cases hnew'
        exact absurd hzero' hzero
  | notif maxNotif =>
    dsimp only
    split
    · rename_i happlied
      exact h.setPc (h.running happlied) id
    · exact h.setPc trivial id

theorem Inv.decrementCas {copied : List Notif} (h : Inv s) (hp : r.Copied s copied)
    (hw : s.epoch < r.epoch + 2 ^ egrpGenBits) (ht : s.decrementCas c r copied = some t) : Inv t := by
  unfold State.decrementCas at ht
  split at ht
  · rename_i decr egrpGen hreader
    simp only [Read.Copied, hreader] at hp
    split at ht
    · rename_i hword
      obtain ⟨new,hnew,rfl⟩ := Option.map_eq_some_iff.1 ht
      have hseen := EgrpCounter.allU64_injective hword
      obtain ⟨hle,-,-,-,hgen,happlied⟩ := EgrpCounter.postCountDecrement_some hnew
      refine h.quiet ⟨rfl,rfl,rfl,rfl,by rw [hseen]; exact hgen,fun hnow => ?_⟩ (fun hnow => ?_)
        (pcs_update rfl trivial id) (fun x hx => ?_) h.returned
      · rw [happlied] at hnow
        split at hnow
        · cases hnow
        · rw [hseen]
          exact hnow
      · rw [happlied] at hnow
        split at hnow
        · assumption
        · rw [← hseen] at hle hnow
          exact (h.not_counted hp.1 hle hnow).elim
      · dsimp only at hx
        split at hx
        · rename_i hzero
          obtain ⟨hok,hcopied⟩ := hp.2 new hnew hzero
          rcases List.mem_cons.1 hx with rfl | hx
          · exact hcopied (hok.valid h hword hw)
          · exact h.handedOut x hx
        · exact h.handedOut x hx
    · cases ht
      rw [hreader]
      exact h.setPc hp.1 id
  · cases ht

theorem Inv.applyCas (h : Inv s) (hp : PcOk s (.applyCas a seen)) (hpc : s.pc c = .applyCas a seen)
    (ht : s.applyCas c a seen = some t) : Inv t := by
  obtain ⟨hfree,happlied,hholds⟩ := hp
  unfold State.applyCas at ht
  split at ht
  · rename_i hword
    obtain ⟨new,hnew,ht⟩ := Option.map_eq_some_iff.1 ht
    have hseen := EgrpCounter.allU64_injective hword
    have hnext : new.applied = true ∧ new.gen = seen.gen + 1 := by
      unfold EgrpCounter.emEventGroupApply at hnew
      split at hnew
      · cases hnew
      · cases hnew
        exact ⟨rfl,rfl⟩
    have hpct : t.pc = Function.update s.pc c .idle := by rw [← ht]; rfl
    have hcounts : t.counts = new := by rw [← ht]
    have hepoch : t.epoch = s.epoch + 1 := by rw [← ht]
    have hbegun : t.begun = (s.epoch + 1,a.notifTbl) :: s.begun := by rw [← ht]
    have hkept : Kept s t := ⟨by rw [← ht]; rfl,by rw [← ht]; rfl,
      fun x hx => by rw [hbegun]; exact List.mem_cons_of_mem _ hx,by omega,fun heq => by omega⟩
    have hfresh : s.epoch + 1 ∉ s.begun.map Prod.fst := by
      intro hmem
      obtain ⟨x,hx,hxe⟩ := List.mem_map.1 hmem
      have hle := h.begun x hx
      omega
    have hone (d : ι) (hd : d ≠ c) : ¬(s.pc d).Writing := fun hw => hd (h.one d c hw (by rw [hpc]; trivial))
    have hnone (d : ι) : ¬(t.pc d).Writing := by
      by_cases hd : d = c
      · rw [hpct, hd, Function.update_self]
        exact id
      · rw [hpct, Function.update_of_ne hd]
        exact hone d hd
    refine ⟨?_,fun hno => absurd hno (by simp [hcounts, hnext.1]),?_,?_,
      fun _ => ⟨a.notifTbl,by rw [hepoch, hbegun]; exact List.mem_cons_self,hholds.kept hkept⟩,fun d => ?_,
      fun d e hd => absurd hd (hnone d),?_,?_⟩
    · rw [hcounts, hnext.2, ← hseen, h.gen, hepoch, BitVec.ofNat_add]
      rfl
    · rw [hbegun]
      exact List.nodup_cons.2 ⟨hfresh,h.once⟩
    · rw [hbegun, hepoch]
      exact List.forall_mem_cons.2 ⟨le_rfl,fun x hx => (h.begun x hx).trans (Nat.le_succ _)⟩
    · by_cases hd : d = c
      · rw [hpct, hd, Function.update_self]
        trivial
      · rw [hpct, Function.update_of_ne hd]
        exact (h.pcs d).kept hkept fun hw => absurd hw (hone d hd)
    · rw [hbegun, show t.handedOut = s.handedOut by rw [← ht]; rfl]
      exact fun x hx => List.mem_cons_of_mem _ (h.handedOut x hx)
    · rw [hbegun, show t.returned = s.returned by rw [← ht]; rfl]
      intro x hx
      obtain ⟨notifTbl,hmem,htake⟩ := h.returned x hx
      exact ⟨notifTbl,List.mem_cons_of_mem _ hmem,htake⟩
  · cases ht
    exact h.setPc hholds.length id

/-- A call writes `num_notif` or an entry. -/
theorem Inv.written (h : Inv s) (hw : Written s t) (hpc : t.pc = Function.update s.pc c p) (hp : PcOk t p)
    (hothers : ∀ d, d ≠ c → ¬(s.pc d).Writing ∧ ¬(s.pc d).Notifying) (hhandedOut : t.handedOut = s.handedOut)
    (hreturned : t.returned = s.returned) : Inv t := by
  refine ⟨by rw [hw.counts, hw.epoch]; exact h.gen,by rw [hw.counts]; exact h.stopped,by rw [hw.begun]; exact h.once,
    by rw [hw.begun, hw.epoch]; exact h.begun,fun happlied => ?_,fun d => ?_,fun d e hd he => ?_,
    by rw [hhandedOut, hw.begun]; exact h.handedOut,by rw [hreturned, hw.begun]; exact h.returned⟩
  · rw [hw.counts, hw.applied] at happlied
    cases happlied
  · by_cases hd : d = c
    · rw [hpc, hd, Function.update_self]
      exact hp
    · rw [hpc, Function.update_of_ne hd]
      exact (h.pcs d).written (hothers d hd).1 (hothers d hd).2 hw
  · have hself (d : ι) (hd : (t.pc d).Writing) : d = c := by
      by_contra hne
      rw [hpc, Function.update_of_ne hne] at hd
      exact (hothers d hne).1 hd
    rw [hself d hd, hself e he]

theorem Reader.le_limit {reader : Reader} {n : Nat} (h : reader.again n = true) : n ≤ reader.limit := by
  cases reader with
  | countDecrement decr egrpGen => exact (of_decide_eq_true h).le
  | notif maxNotif => simpa [again, limit] using h

theorem Reader.limit_le {reader : Reader} {n : Nat} (h : ¬reader.again n = true) : reader.limit ≤ n := by
  cases reader with
  | countDecrement decr egrpGen => simpa [again, limit] using h
  | notif maxNotif =>
    have hlt : maxNotif < n := by simpa [again] using h
    exact hlt.le

omit [DecidableEq ι] in
/-- After a write the call goes on to its next entry, or to its compare-exchange with all written. -/
theorem Apply.next_ok {i : Nat} (hlength : a.notifTbl.length ≤ emEventGroupMaxNotif) (hseen : seen.applied = false)
    (happlied : s.counts.applied = false) (hnum : s.numNotif = a.notifTbl.length) (hi : i ≤ a.notifTbl.length)
    (hentry : ∀ j, (h : j < a.notifTbl.length) → j < i → s.notifTbl j = a.notifTbl[j]) : PcOk s (a.next seen i) := by
  unfold Apply.next
  split
  · rename_i hlt
    exact ⟨hlength,hseen,happlied,hnum,hlt,hentry⟩
  · exact ⟨hseen,happlied,hnum,hlength,fun j hj => hentry j hj (by omega)⟩

theorem Inv.access (h : Inv s) (hu : Undisturbed s (.access c : Label ι Notif)) (ht : s.access c = some t) : Inv t := by
  have hp := h.pcs c
  unfold State.access at ht
  unfold Undisturbed at hu
  cases hpc : s.pc c with
  | idle =>
    rw [hpc] at ht
    cases ht
  | applyLoad a =>
    rw [hpc] at hp ht
    cases ht
    split
    · exact h.setPc trivial id
    · rename_i hfree
      exact h.setPc ⟨hp,Bool.eq_false_iff.2 hfree⟩ id
  | writeNum a seen =>
    simp only [hpc] at hp ht hu
    cases ht
    refine h.written ⟨hu.1,rfl,rfl,rfl⟩ rfl ?_ hu.2 rfl rfl
    exact Apply.next_ok hp.1 hp.2 hu.1 rfl (Nat.zero_le _) fun j _ hj => absurd hj (Nat.not_lt_zero j)
  | writeEntry a seen i =>
    simp only [hpc] at hp ht hu
    obtain ⟨hlength,hseen,happlied,hnum,hi,hentry⟩ := hp
    rw [List.getElem?_eq_getElem hi, Option.map_some] at ht
    cases ht
    refine h.written ⟨hu.1,rfl,rfl,rfl⟩ rfl ?_ hu.2 rfl rfl
    refine Apply.next_ok hlength hseen hu.1 hnum hi fun j hj hji => ?_
    show Function.update s.notifTbl i a.notifTbl[i] j = a.notifTbl[j]
    by_cases hji' : j = i
    · subst hji'
      rw [Function.update_self]
    · rw [Function.update_of_ne hji']
      exact hentry j hj (by omega)
  | applyCas a seen =>
    simp only [hpc] at ht
    exact h.applyCas (hpc ▸ hp) hpc ht
  | readLoad reader =>
    rw [hpc] at hp ht
    cases ht
    exact h.readLoad hp
  | readNum r =>
    rw [hpc] at hp ht
    cases ht
    split
    · rename_i hagain
      exact h.setPc ⟨hp,fun _ => Reader.le_limit hagain⟩ id
    · rename_i hagain
      exact h.next hp (Nat.zero_le _) fun _ =>
        ⟨(min_eq_left (Reader.limit_le hagain)).symm,fun i hi => absurd hi (Nat.not_lt_zero i)⟩
  | readNumAgain r =>
    rw [hpc] at hp ht
    cases ht
    exact h.next hp.1 (Nat.zero_le _) fun hv =>
      ⟨(min_eq_right (hp.2 hv)).symm,fun i hi => absurd hi (Nat.not_lt_zero i)⟩
  | copy r numNotif copied =>
    rw [hpc] at hp ht
    cases ht
    obtain ⟨hok,hlt,hcopied⟩ := hp
    refine h.next hok (by rw [List.length_append, List.length_singleton]; exact hlt) fun hv => ⟨(hcopied hv).1,fun i hi => ?_⟩
    by_cases hi' : i < copied.length
    · rw [List.getElem_append_left hi']
      exact (hcopied hv).2 i hi'
    · have heq : i = copied.length := by
        rw [List.length_append, List.length_singleton] at hi
        omega
      subst heq
      rw [List.getElem_append_right (Nat.le_refl _)]
      simp
  | decrementCas r copied =>
    simp only [hpc] at hp ht hu
    exact h.decrementCas hp hu ht

omit [DecidableEq ι] in
theorem Inv.update (h : Inv s) {u : Update} {new : EgrpCounter} (hu : u.body s.counts = some new) :
    Inv { s with counts := new } := by
  have hword : new.gen = s.counts.gen ∧ (new.applied = true → s.counts.applied = true) ∧
      (new.applied = false → new.postCnt = 0) := by
    cases u with
    | preCountDecrement decr eventEgrpGen =>
      obtain ⟨-,happlied,-,-,-,hnew,hgen⟩ := EgrpCounter.preCountDecrement_some hu
      exact ⟨hgen,fun _ => happlied,fun hno => absurd (hnew.symm.trans hno) (by decide)⟩
    | increment incr egrpGen =>
      obtain ⟨-,happlied,-,-,hnew,hgen⟩ := EgrpCounter.emEventGroupIncrement_some hu
      exact ⟨hgen,fun _ => happlied,fun hno => absurd (hnew.symm.trans hno) (by decide)⟩
    | assign numEvents =>
      obtain ⟨-,happlied,-,-,hnew,hgen⟩ := EgrpCounter.emEventGroupAssign_some hu
      exact ⟨hgen,fun _ => happlied,fun hno => absurd (hnew.symm.trans hno) (by decide)⟩
    | abort =>
      obtain ⟨happlied,rfl⟩ := EgrpCounter.emEventGroupAbort_some hu
      exact ⟨rfl,fun _ => happlied,fun _ => rfl⟩
  exact h.quiet ⟨rfl,rfl,rfl,rfl,hword.1,hword.2.1⟩ hword.2.2 (fun _ => .inl rfl) h.handedOut h.returned

theorem inv_step {l : Label ι Notif} (h : Inv s) (hu : Undisturbed s l) (ht : s.step l = some t) : Inv t := by
  cases l with
  | call c f =>
    simp only [State.step] at ht
    split at ht
    · obtain ⟨p,hp,rfl⟩ := Option.map_eq_some_iff.1 ht
      cases f with
      | apply count notifTbl =>
        simp only [Call.start] at hp
        split at hp
        · cases hp
          exact h.setPc trivial id
        · rename_i hargs
          cases hp
          exact h.setPc (by simp only [PcOk]; omega) id
      | countDecrement decr egrpGen =>
        simp only [Call.start] at hp
        split at hp
        · rename_i hpos
          cases hp
          exact h.setPc hpos id
        · cases hp
      | notif maxNotif =>
        simp only [Call.start] at hp
        split at hp <;> cases hp <;> exact h.setPc trivial id
    · cases ht
  | access c => exact h.access hu ht
  | update u =>
    obtain ⟨new,hnew,rfl⟩ := Option.map_eq_some_iff.1 ht
    exact h.update hnew

omit [DecidableEq ι] in
theorem inv_initial (h : Initial s) : Inv s := by
  obtain ⟨hcounts,hepoch,hidle,hbegun,hhandedOut,hreturned⟩ := h
  refine ⟨hepoch,fun _ => hcounts.2.1,by rw [hbegun]; exact List.nodup_nil,by rw [hbegun]; exact nofun,
    fun happlied => ?_,fun c => by rw [hidle]; trivial,fun c d hc => ?_,by rw [hhandedOut]; exact nofun,
    by rw [hreturned]; exact nofun⟩
  · rw [hcounts.2.2] at happlied
    cases happlied
  · rw [hidle] at hc
    exact hc.elim

/-- In every run in which no call writes into another's notifications, they are exact. -/
theorem notifs_exact (h : (machine ι Notif).ReachableVia (fun s l _ => Undisturbed s l) s) : Exact s := by
  have hi : Inv s := h.invariant (I := Inv) (fun _ => inv_initial) fun _ _ _ hi ht hu => inv_step hi hu ht
  refine ⟨hi.once,fun happlied => ?_,hi.handedOut,hi.returned⟩
  obtain ⟨notifTbl,hmem,-⟩ := hi.running happlied
  exact ⟨notifTbl,hmem⟩

section Runs

instance : (p : Pc Notif) → Decidable p.Writing
  | .writeEntry .. | .applyCas .. => inferInstanceAs (Decidable True)
  | .idle | .applyLoad _ | .writeNum .. | .readLoad _ | .readNum _ | .readNumAgain _ | .copy .. | .decrementCas .. =>
    inferInstanceAs (Decidable False)

instance : (p : Pc Notif) → Decidable p.Notifying
  | .readNum ⟨.notif _,_,_⟩ | .readNumAgain ⟨.notif _,_,_⟩ | .copy ⟨.notif _,_,_⟩ _ _ =>
    inferInstanceAs (Decidable True)
  | .readNum ⟨.countDecrement ..,_,_⟩ | .readNumAgain ⟨.countDecrement ..,_,_⟩
  | .copy ⟨.countDecrement ..,_,_⟩ _ _ => inferInstanceAs (Decidable False)
  | .idle | .applyLoad _ | .writeNum .. | .writeEntry .. | .applyCas .. | .readLoad _ | .decrementCas .. =>
    inferInstanceAs (Decidable False)

instance [Fintype ι] (s : State ι Notif) (c : ι) : (p : Pc Notif) → Decidable (p.Undisturbed s c)
  | .writeNum .. | .writeEntry .. => inferInstanceAs (Decidable (_ ∧ _))
  | .decrementCas .. => inferInstanceAs (Decidable (_ < _))
  | .idle | .applyLoad _ | .applyCas .. | .readLoad _ | .readNum _ | .readNumAgain _ | .copy .. =>
    inferInstanceAs (Decidable True)

instance [Fintype ι] (s : State ι Notif) : (l : Label ι Notif) → Decidable (Undisturbed s l)
  | .access c => inferInstanceAs (Decidable ((s.pc c).Undisturbed s c))
  | .call .. | .update _ => inferInstanceAs (Decidable True)

/-- A created group -/
private def created : State (Fin 2) Nat :=
  ⟨⟨0,0,false,0⟩,0,fun _ => 0,fun _ => .idle,0,[],[],[]⟩

private theorem created_initial : Initial created := ⟨⟨rfl,rfl,rfl⟩,rfl,fun _ => rfl,rfl,rfl,rfl⟩

/-- Core 1 fails to apply the group that core 0 has applied, reads its notification, and counts its
only event. -/
private def counted : Option (State (Fin 2) Nat) :=
  System.exec State.step (fun s l _ => decide (Undisturbed s l)) created
    [.call 0 (.apply 1 [5]), .access 0, .access 0, .access 0, .access 0, .call 1 (.apply 1 [7]), .access 1,
      .call 1 (.notif 6), .access 1, .access 1, .access 1, .access 1, .update (.preCountDecrement 1 1),
      .call 1 (.countDecrement 1 1), .access 1, .access 1, .access 1, .access 1, .access 1]

private theorem counted_isSome : counted.isSome = true := by decide

theorem notifs_exact_counted : Exact (counted.get counted_isSome) ∧
    (counted.get counted_isSome).handedOut = [(1,[5])] ∧ (counted.get counted_isSome).returned = [(1,6,[5])] :=
  ⟨notifs_exact (System.ReachableVia.exec (fun _ _ _ => of_decide_eq_true) (.start created_initial)
    (Option.some_get counted_isSome).symm),by decide,by decide⟩

/-- Both cores have found the group not applied. Core 0 publishes its notification, then core 1 writes
its own over it and fails. -/
private def overwritten : Option (State (Fin 2) Nat) :=
  System.exec State.step (fun _ _ _ => true) created
    [.call 0 (.apply 1 [5]), .call 1 (.apply 1 [7]), .access 0, .access 1, .access 0, .access 0, .access 0,
      .access 1, .access 1, .access 1, .access 1, .update (.preCountDecrement 1 1),
      .call 0 (.countDecrement 1 1), .access 0, .access 0, .access 0, .access 0, .access 0]

private theorem overwritten_isSome : overwritten.isSome = true := by decide

theorem failed_apply_overwrites : ¬∀ s : State (Fin 2) Nat, (machine (Fin 2) Nat).Reachable s → Exact s := by
  intro h
  have hs := (h (overwritten.get overwritten_isSome) (System.ReachableVia.exec (fun _ _ _ _ => trivial)
    (.start created_initial) (Option.some_get overwritten_isSome).symm)).handedOut
  revert hs
  decide

end Runs
end EmOdp.EventGroup.Notifs
