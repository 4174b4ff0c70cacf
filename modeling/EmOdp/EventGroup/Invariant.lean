import EmOdp.EventGroup.Machine

/-! The cores and the packed word simulate a countdown latch: a core holds what it
took from `pre_cnt`, and `post_cnt` is what remains unfinished. -/
namespace EmOdp.EventGroup
open Lib
variable {ι Notif : Type}

def Tag.Wf (epoch : Nat) (tag : Tag) : Prop :=
  tag.egrpGen = BitVec.ofNat _ tag.epoch ∧ tag.epoch ≤ epoch

theorem Tag.Wf.mono {e e' : Nat} {tag : Tag} (h : tag.Wf e) (he : e ≤ e') : tag.Wf e' :=
  ⟨h.1,h.2.trans he⟩

/-- Tags of different applies inside the window differ in their generation. -/
theorem Tag.Wf.gen_ne {e : Nat} {tag : Tag} (h : tag.Wf e) (hw : e+1 < tag.epoch + 2 ^ egrpGenBits) :
    tag.egrpGen ≠ BitVec.ofNat _ (e+1) := by
  obtain ⟨hg,hle⟩ := h
  rw [hg]
  intro heq
  have hm := congrArg BitVec.toNat heq
  simp only [BitVec.toNat_ofNat, egrpGenBits, egrpCntBits] at hm hw
  omega

/-- The local state an operation was called in is still there. -/
def Op.Fits (c : Core Notif) : Op Notif → Prop
  | .setLocal _ decr => c.phase = .dispatcher ∧ decr = c.rcvMultiCnt ∧ 0 < decr
  | .countDecrement tag decr => c.current = .this tag ∧ decr = c.rcvMultiCnt
  | .apply count _ => 0 < count ∧ count ≤ egrpCntMax
  | .increment tag _ => c.current = .this tag
  | .assign numEvents => c.current = .null ∧ c.phase = .receive numEvents
  | .abort => True

namespace Core

structure Ok (c : Core Notif) : Prop where
  dispatcher : c.phase = .dispatcher → c.current = .null
  receive : ∀ n, c.phase = .receive n → c.rcvMultiCnt = n ∧ 0 < n
  positive : ∀ tag, c.current = .this tag → 0 < c.rcvMultiCnt
  pending : ∀ p, c.pending = some p → p.op.Fits c

variable {c k : Core Notif}

theorem ok_default : Core.Ok ({} : Core Notif) := ⟨fun _ => rfl,nofun,nofun,nofun⟩

@[simp] theorem held_null {gen : Gen} (h : c.current = .null) : c.held gen = 0 := by
  simp [held, h]

theorem held_this {gen : Gen} {tag : Tag} (h : c.current = .this tag) (hg : tag.egrpGen = gen) :
    c.held gen = c.rcvMultiCnt := by
  simp [held, h, hg]

theorem mem_tags_of_current {tag : Tag} (h : c.current = .this tag) : tag ∈ c.tags := by
  simp [tags, h]

theorem call_ok {f : Call Notif} (h : c.Ok) (hp : c.pending = none) (hc : c.call f = some k) :
    k.Ok := by
  obtain ⟨hd,hr,hpos,_⟩ := h
  cases f with
  | receive egrp n =>
    simp only [call] at hc
    split at hc
    · rename_i hn
      cases egrp with
      | undef => cases hc; exact ⟨nofun,by simpa using hn.2,by simp [hd hn.1],by simp [hp]⟩
      | this tag => cases hc; exact ⟨hd,by simp [hn.1],by simp [hd hn.1],by simp [Op.Fits, hn]⟩
      | other v => cases hc; exact ⟨nofun,by simpa using hn.2,by cases v <;> simp,by simp [hp]⟩
    · cases hc
  | rcvReturn =>
    simp only [call] at hc
    split at hc <;> cases hc
    · rename_i n tag hph hcur
      exact ⟨nofun,nofun,hpos,by simp [Op.Fits, hcur, (hr n hph).1]⟩
    · exact ⟨fun _ => rfl,nofun,nofun,by simp [hp]⟩
  | processingEnd =>
    simp only [call] at hc
    split at hc <;> cases hc
    · exact ⟨hd,hr,hpos,by simp [hp]⟩
    · rename_i tag hcur
      exact ⟨hd,hr,hpos,by simp [Op.Fits, hcur]⟩
    · exact ⟨fun _ => rfl,hr,nofun,by simp [hp]⟩
  | apply count notifTbl =>
    simp only [call] at hc
    split at hc <;> cases hc
    · exact ⟨hd,hr,hpos,by simp [hp]⟩
    · rename_i hn
      refine ⟨hd,hr,hpos,fun p hp => ?_⟩
      cases hp
      simp only [Op.Fits]
      omega
  | increment count =>
    simp only [call] at hc
    split at hc
    · rename_i tag hcur
      split at hc <;> cases hc
      · exact ⟨hd,hr,hpos,by simp [hp]⟩
      · exact ⟨hd,hr,hpos,by simp [Op.Fits, hcur]⟩
    · cases hc; exact ⟨hd,hr,hpos,by simp [hp]⟩
  | assign =>
    simp only [call] at hc
    split at hc
    · rename_i n hph
      split at hc <;> cases hc
      · rename_i hcur
        exact ⟨hd,hr,hpos,by simp [Op.Fits, hcur, hph, (hr n hph).1]⟩
      · exact ⟨hd,hr,hpos,by simp [hp]⟩
    · cases hc
  | assignOther v =>
    simp only [call] at hc
    split at hc
    · rename_i n hph
      split at hc <;> cases hc
      · exact ⟨by simp [hph],hr,nofun,by simp [hp]⟩
      · exact ⟨hd,hr,hpos,by simp [hp]⟩
    · cases hc
  | abort => cases hc; exact ⟨hd,hr,hpos,by simp [Op.Fits]⟩
  | abortOther =>
    cases hc
    refine ⟨fun h => by simp [hd h],hr,fun tag ht => ?_,by simp [hp]⟩
    simp only at ht
    split at ht
    · cases ht
    · exact hpos tag ht

/-- A call takes no event into the group, gives none up and handles the tag it was given. -/
theorem call_frame {f : Call Notif} (h : c.Ok) (hp : c.pending = none) (hc : c.call f = some k) :
    (∀ tag, k.current = .this tag ↔ c.current = .this tag) ∧
      (∀ tag, c.current = .this tag → k.rcvMultiCnt = c.rcvMultiCnt) ∧
      ∀ tag n x, k.pending = some ⟨.setLocal tag n,x⟩ → f = .receive (.this tag) n := by
  obtain ⟨hd,-,-,-⟩ := h
  cases f <;> simp only [call] at hc <;> grind

theorem mem_tags {tag : Tag} : tag ∈ c.tags ↔
    c.current = .this tag ∨ ∃ n x, c.pending = some ⟨.setLocal tag n,x⟩ := by
  simp only [tags, List.mem_append]
  refine or_congr ?_ ?_
  · split <;> simp_all [eq_comm]
  · split
    · simp_all [eq_comm]
    · rename_i hne
      simp only [List.not_mem_nil, false_iff]
      rintro ⟨n,x,h⟩
      exact hne tag n x h

theorem call_held {f : Call Notif} (gen : Gen) (h : c.Ok) (hp : c.pending = none)
    (hc : c.call f = some k) : k.held gen = c.held gen := by
  obtain ⟨hcur,hrcv,-⟩ := call_frame h hp hc
  rcases hk : c.current with _ | tag | _
  case this => simp only [held, hk, (hcur tag).2 hk, hrcv tag hk]
  all_goals
    have hne : ∀ tag, k.current ≠ .this tag := fun tag ht => by simp [hk] at hcur; exact hcur tag ht
    simp only [held, hk]

theorem fail_ok {op : Op Notif} {x : Option (EgrpCounter × List Notif)} (h : c.Ok)
    (hp : c.pending = some ⟨op,x⟩) : (c.fail op).Ok := by
  have hf := h.pending _ hp
  obtain ⟨hd,hr,hpos,-⟩ := h
  cases op with
  | setLocal tag n => exact ⟨fun _ => rfl,by simpa [fail, hf.2.1] using hf.2.2,nofun,nofun⟩
  | countDecrement tag n =>
    refine ⟨fun _ => rfl,fun m hm => ?_,nofun,nofun⟩
    simp only [fail] at hm
    split at hm
    · cases hm
    · exact hr m hm
  | _ => exact ⟨hd,hr,hpos,nofun⟩

theorem succeed_ok {op : Op Notif} {x : Option (EgrpCounter × List Notif)} {now : Tag} (h : c.Ok)
    (hp : c.pending = some ⟨op,x⟩) : (c.succeed now op).Ok := by
  have hf := h.pending _ hp
  cases op with
  | setLocal tag n =>
    have hn : c.rcvMultiCnt = n ∧ 0 < n := ⟨hf.2.1.symm,hf.2.2⟩
    exact ⟨nofun,fun m hm => by cases hm; exact hn,fun _ _ => by simp [succeed, hn],nofun⟩
  | countDecrement tag n => exact fail_ok h hp
  | assign n =>
    obtain ⟨hn,hpos⟩ := h.receive n hf.2
    exact ⟨by simp [succeed, hf.2],h.receive,fun _ _ => by simpa [succeed, hn] using hpos,nofun⟩
  | abort =>
    refine ⟨fun hph => ?_,h.receive,fun tag ht => ?_,nofun⟩
    · simp [succeed, h.dispatcher hph]
    · simp only [succeed] at ht
      split at ht
      · cases ht
      · exact h.positive tag ht
  | _ => exact ⟨h.dispatcher,h.receive,h.positive,nofun⟩

theorem mem_tags_fail {op : Op Notif} {tag : Tag} (h : tag ∈ (c.fail op).tags) : tag ∈ c.tags := by
  rw [mem_tags] at h ⊢
  cases op <;> simp_all [fail]

theorem mem_tags_succeed {op : Op Notif} {x : Option (EgrpCounter × List Notif)} {now tag : Tag}
    (hp : c.pending = some ⟨op,x⟩) (h : tag ∈ (c.succeed now op).tags) :
    tag ∈ c.tags ∨ tag = now := by
  rw [mem_tags] at h ⊢
  cases op with
  | abort =>
    simp only [succeed] at h
    split at h <;> simp_all
  | _ => simp_all [succeed]

end Core

namespace State
variable (s : State ι Notif)

/-- The latch the group is meant to be. -/
def latch : Latch ι where
  epoch := s.epoch
  isOpen := s.counts.applied
  avail := s.counts.preCnt.toNat
  holds c := if s.counts.applied then (s.core c).held s.counts.gen else 0
  cycle := cycle s.hist

end State

/-- Every core's own state is consistent and its tags name past applies. -/
structure Inv.Cores (s : State ι Notif) : Prop where
  tagged : ∀ tag ∈ s.tagged, tag.Wf s.epoch
  handled : ∀ c, ∀ tag ∈ (s.core c).tags, tag.Wf s.epoch
  ok : ∀ c, (s.core c).Ok

structure Inv.Counts [Fintype ι] (s : State ι Notif) : Prop where
  gen : s.counts.gen = BitVec.ofNat _ s.epoch
  closed : s.counts.applied = false → s.counts.postCnt.toNat = 0
  remaining : s.counts.applied = true →
    s.counts.postCnt.toNat + (cycle s.hist s.epoch).finished = (cycle s.hist s.epoch).counted
  sound : s.latch.Sound

theorem cycle_cons (e : Nat) (o : Obs Notif) (hist : List (Nat × Obs Notif)) :
    cycle ((e,o) :: hist) = Function.update (cycle hist) e (o.addTo (cycle hist e)) := by
  funext g
  by_cases hg : g = e
  · subst hg; simp [cycle]
  · simp [cycle, hg, Ne.symm hg]

theorem cores_initial {s : State ι Notif} (h : Initial s) : Inv.Cores s := by
  refine ⟨by simp [h.untagged],fun c => ?_,fun c => ?_⟩
  · simp [h.cores, Core.tags]
  · rw [h.cores]; exact Core.ok_default

theorem counts_initial [Fintype ι] {s : State ι Notif} (h : Initial s) : Inv.Counts s := by
  obtain ⟨hpre,hpost,ha⟩ := h.counts
  refine ⟨h.epoch,by simp [hpost],by simp [ha],Latch.sound_initial ⟨ha,?_,?_,?_⟩⟩
  · simp [State.latch, hpre]
  · simp [State.latch, ha]
  · simp [State.latch, h.hist, cycle]

variable [DecidableEq ι] {s t : State ι Notif} {c : ι} {k : Core Notif} {op : Op Notif}
  {notifTbl : List Notif} {new : EgrpCounter}

/-- All that a step can do. -/
inductive Moves (s : State ι Notif) : State ι Notif → Prop where
  | tagged : Moves s { s with tagged := s.now :: s.tagged }
  | called {c : ι} {k : Core Notif} (f : Call Notif) : (s.core c).pending = none →
      s.callOk f = true → (s.core c).call f = some k → Moves s (s.setCore c k)
  | failed {c : ι} {op : Op Notif} : (s.core c).pending = some ⟨op,none⟩ →
      op.body s.counts = none → Moves s (s.setCore c ((s.core c).fail op))
  | loaded {c : ι} {op : Op Notif} (x : Option (EgrpCounter × List Notif)) (notifTbl : List Notif) :
      (s.core c).pending = some ⟨op,none⟩ →
      Moves s { s.setCore c { s.core c with pending := some ⟨op,x⟩ } with notifTbl }
  | retried {c : ι} {op : Op Notif} {x : Option (EgrpCounter × List Notif)} :
      (s.core c).pending = some ⟨op,x⟩ →
      Moves s (s.setCore c { s.core c with pending := some ⟨op,none⟩ })
  | committed {c : ι} {op : Op Notif} {new : EgrpCounter} {notifTbl : List Notif} :
      (s.core c).pending = some ⟨op,some (s.counts,notifTbl)⟩ →
      op.body s.counts = some new → Moves s (s.commit c op new notifTbl)

theorem moves_of_step {l : Label ι Notif} (h : s.step l = some t) : Moves s t := by
  cases l with
  | tag => cases h; exact .tagged
  | call c f =>
    simp only [State.step, Option.isNone_iff_eq_none] at h
    split at h
    · obtain ⟨k,hk,rfl⟩ := Option.map_eq_some_iff.1 h
      exact .called f (by simp_all) (by simp_all) hk
    · cases h
  | load c =>
    simp only [State.step] at h
    split at h <;> cases h
    rename_i op hp
    rw [State.load]
    split
    · exact .failed hp ‹_›
    · exact .loaded _ _ hp
  | cas c =>
    simp only [State.step] at h
    split at h
    · rename_i op seen notifTbl hp
      simp only [State.cas] at h
      split at h
      · rename_i heq
        obtain ⟨new,hn,rfl⟩ := Option.map_eq_some_iff.1 h
        obtain rfl := EgrpCounter.allU64_injective heq
        exact .committed hp hn
      · cases h; exact .retried hp
    · cases h

theorem cores_local (h : Inv.Cores s) (htag : t.tagged = s.tagged) (he : s.epoch ≤ t.epoch)
    (hcore : t.core = Function.update s.core c k) (hk : k.Ok)
    (htags : ∀ tag ∈ k.tags, tag.Wf t.epoch) : Inv.Cores t := by
  refine ⟨fun tag ht => (h.tagged tag (htag ▸ ht)).mono he,fun i tag ht => ?_,fun i => ?_⟩
  all_goals
    rw [hcore] at *
    by_cases hi : i = c
  · subst hi; exact htags tag (by simpa using ht)
  · exact (h.handled i tag (by simpa [hi] using ht)).mono he
  · subst hi; simpa using hk
  · simpa [hi] using h.ok i

theorem reseen_ok {c : Core Notif} {x y : Option (EgrpCounter × List Notif)} (h : c.Ok)
    (hp : c.pending = some ⟨op,x⟩) : Core.Ok { c with pending := some ⟨op,y⟩ } := by
  refine ⟨h.dispatcher,h.receive,h.positive,fun p hp' => ?_⟩
  cases hp'
  have hf := h.pending _ hp
  cases op <;> exact hf

theorem mem_tags_reseen {c : Core Notif} {x y : Option (EgrpCounter × List Notif)} {tag : Tag}
    (hp : c.pending = some ⟨op,x⟩) (h : tag ∈ Core.tags { c with pending := some ⟨op,y⟩ }) :
    tag ∈ c.tags := by
  rw [Core.mem_tags] at h ⊢
  simp_all

/-- A step that stores a word of the right generation keeps the cores consistent. -/
theorem cores_moves (h : Inv.Cores s) (hg : s.counts.gen = BitVec.ofNat _ s.epoch)
    (hg' : t.counts.gen = BitVec.ofNat _ t.epoch) (hm : Moves s t) : Inv.Cores t := by
  cases hm with
  | tagged =>
    refine ⟨fun tag ht => ?_,h.handled,h.ok⟩
    rcases List.mem_cons.1 ht with rfl | ht
    · exact ⟨hg,le_rfl⟩
    · exact h.tagged tag ht
  | @called c k f hp hok hc =>
    obtain ⟨hcur,-,hpend⟩ := Core.call_frame (h.ok c) hp hc
    refine cores_local h rfl le_rfl rfl (Core.call_ok (h.ok c) hp hc) fun tag ht => ?_
    rcases Core.mem_tags.1 ht with ht | ⟨n,x,ht⟩
    · exact h.handled c tag (Core.mem_tags_of_current ((hcur tag).1 ht))
    · obtain rfl := hpend tag n x ht
      exact h.tagged tag (by simpa [State.callOk] using hok)
  | failed hp _ =>
    exact cores_local h rfl le_rfl rfl (Core.fail_ok (h.ok _) hp) fun tag ht =>
      h.handled _ tag (Core.mem_tags_fail ht)
  | loaded x _ hp =>
    exact cores_local h rfl le_rfl rfl (reseen_ok (h.ok _) hp) fun tag ht =>
      h.handled _ tag (mem_tags_reseen hp ht)
  | retried hp =>
    exact cores_local h rfl le_rfl rfl (reseen_ok (h.ok _) hp) fun tag ht =>
      h.handled _ tag (mem_tags_reseen hp ht)
  | @committed c op new notifTbl hp _ =>
    have he : s.epoch ≤ op.nextEpoch s.epoch := by cases op <;> simp [Op.nextEpoch]
    refine cores_local h rfl he rfl (Core.succeed_ok (h.ok c) hp) fun tag ht => ?_
    rcases Core.mem_tags_succeed hp ht with ht | rfl
    · exact (h.handled c tag ht).mono he
    · exact ⟨hg',le_rfl⟩

end EmOdp.EventGroup
