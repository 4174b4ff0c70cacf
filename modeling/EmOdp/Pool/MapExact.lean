import EmOdp.Pool.Cores
import EmOdp.Pool.FailureRuns

/-! The table that maps ODP pools back to EM pools stays exact, as long as no index is given out
again before its entry is cleared. -/
namespace EmOdp.Pool
open Lib
variable {κ π ι : Type} [DecidableEq κ] [DecidableEq π] [DecidableEq ι]

/-- A subpool of an allocated pool has this ODP pool. -/
def State.Holds (t : State π ι) (p : π) (i : Nat) (h : ι) : Prop :=
  (t.elem p).allocated = true ∧ i < (t.elem p).numSubpools ∧ (t.elem p).odpPool i = some h

omit [DecidableEq π] in
theorem State.setMap_self {t : State π ι} {h : ι} {e : PoolSubpool π} : (t.setMap h e).map h = e :=
  Function.update_self ..

omit [DecidableEq π] in
theorem State.setMap_ne {t : State π ι} {h k : ι} {e : PoolSubpool π} (hkh : k ≠ h) :
    (t.setMap h e).map k = t.map k := Function.update_of_ne hkh ..

/-- What a core relies on in a call. -/
def Pc.Ok (t : State π ι) : Pc π ι → Prop
  | .idle => True
  | .creating p i => (t.elem p).numSubpools = i
  | .created p i h => (t.elem p).numSubpools = i + 1 ∧ t.odpPools.live h = some (some (p,i)) ∧
    t.map h = {}
  | .poolSet p i h => (t.elem p).numSubpools = i + 1 ∧ t.odpPools.live h = some (some (p,i)) ∧
    t.map h = { pool := some p }
  | .deleting p i => ∀ j < i, (t.elem p).odpPool j = none
  | .destroyed p i h index => t.odpPools.live h = none ∧ index = true ∧
    ∀ j < i + 1, (t.elem p).odpPool j = none

namespace Cores

/-- Each live ODP pool has its entry, and an entry without a live ODP pool is about to be cleared.
The calls are about different pools. -/
structure Inv (s : Cores κ π ι) : Prop where
  holds_iff : ∀ p i h, s.tbl.Holds p i h ↔ s.tbl.odpPools.live h = some (some (p,i))
  pool : ∀ c p, (s.pc c).pool = some p → (s.tbl.elem p).allocated = true
  alone : ∀ c d p, (s.pc c).pool = some p → (s.pc d).pool = some p → c = d
  pcs : ∀ c, (s.pc c).Ok s.tbl
  mapped : ∀ p i h, s.tbl.odpPools.live h = some (some (p,i)) →
    s.tbl.map h = { pool := some p, subpool := i } ∨ s.Storing p i h
  other : ∀ h, s.tbl.odpPools.live h = some none → s.tbl.map h = {}
  dead : ∀ h, s.tbl.odpPools.live h = none → s.tbl.map h = {} ∨ s.Clearing h

variable {s : Cores κ π ι} {c : κ} {p : π} {i : Nat} {h : ι} {x : Pc π ι} {t : State π ι}

omit [DecidableEq κ] [DecidableEq π] in
theorem Inv.exact (hinv : s.Inv) : s.Exact := by
  refine ⟨fun p i h ha hi hp hnot => ?_,fun p i h hl => ⟨((hinv.holds_iff p i h).2 hl).1,?_⟩,hinv.other⟩
  · exact (hinv.mapped p i h ((hinv.holds_iff p i h).1 ⟨ha,hi,hp⟩)).resolve_right hnot
  · rw [State.poolOdp2em]
    rcases hinv.mapped p i h hl with hmap | ⟨c,hc⟩
    · exact .inl (congrArg PoolSubpool.pool hmap)
    · have hok := hinv.pcs c
      rcases hc with hc | hc
      · rw [hc] at hok
        exact .inr ⟨congrArg PoolSubpool.pool hok.2.2,c,.inl hc⟩
      · rw [hc] at hok
        exact .inl (congrArg PoolSubpool.pool hok.2.2)

/-- The step of a core whose call is about `p` keeps what is said of the other pools. -/
theorem Inv.next (hinv : s.Inv) (hc : ∀ q, (s.pc c).pool = some q → q = p)
    (hothers : ∀ d ≠ c, (s.pc d).pool ≠ some p) (hx : x.Ok t)
    (hpool : ∀ q, x.pool = some q → q = p ∧ (t.elem p).allocated = true)
    (helem : ∀ q ≠ p, t.elem q = s.tbl.elem q)
    (hlive : ∀ k q i, q ≠ p →
      (t.odpPools.live k = some (some (q,i)) ↔ s.tbl.odpPools.live k = some (some (q,i))))
    (hmap : ∀ k q i, q ≠ p → s.tbl.odpPools.live k = some (some (q,i)) → t.map k = s.tbl.map k)
    (hdead : ∀ d ≠ c, ∀ k, (s.pc d).clearing = some k → s.tbl.odpPools.live k = none →
      t.odpPools.live k = none)
    (hholds : ∀ i k, t.Holds p i k ↔ t.odpPools.live k = some (some (p,i)))
    (hmapped : ∀ i k, t.odpPools.live k = some (some (p,i)) →
      t.map k = { pool := some p, subpool := i } ∨ x = .created p i k ∨ x = .poolSet p i k)
    (hother : ∀ k, t.odpPools.live k = some none → t.map k = {})
    (hclear : ∀ k, t.odpPools.live k = none → t.map k = {} ∨ x.clearing = some k ∨
      ∃ d ≠ c, (s.pc d).clearing = some k) : (s.next c t x).Inv := by
  have hself : (s.next c t x).pc c = x := Function.update_self ..
  have hne {d : κ} (hd : d ≠ c) : (s.next c t x).pc d = s.pc d := Function.update_of_ne hd ..
  have hq {d : κ} {q : π} (hd : d ≠ c) (hp : (s.pc d).pool = some q) : q ≠ p := by
    rintro rfl
    exact hothers d hd hp
  refine ⟨fun q i k => ?_,fun d q hd => ?_,fun d e q hd he => ?_,fun d => ?_,fun q i k hk => ?_,hother,
    fun k hk => ?_⟩
  · by_cases hqp : q = p
    · obtain rfl := hqp
      exact hholds i k
    · refine Iff.trans ?_ ((hinv.holds_iff q i k).trans (hlive k q i hqp).symm)
      rw [State.Holds, State.Holds, Cores.next, helem q hqp]
  · by_cases hdc : d = c
    · obtain rfl := hdc
      rw [hself] at hd
      obtain ⟨rfl,ha⟩ := hpool q hd
      exact ha
    · rw [hne hdc] at hd
      exact (congrArg MpoolElem.allocated (helem q (hq hdc hd))).trans (hinv.pool d q hd)
  · by_cases hdc : d = c
    · obtain rfl := hdc
      by_cases hed : e = d
      · exact hed.symm
      · rw [hself] at hd
        rw [hne hed] at he
        exact absurd (hpool q hd).1 (hq hed he)
    · rw [hne hdc] at hd
      by_cases hec : e = c
      · obtain rfl := hec
        rw [hself] at he
        exact absurd (hpool q he).1 (hq hdc hd)
      · rw [hne hec] at he
        exact hinv.alone d e q hd he
  · by_cases hdc : d = c
    · obtain rfl := hdc
      rw [hself]
      exact hx
    · rw [hne hdc]
      have hok := hinv.pcs d
      have hqs (q : π) (hp : (s.pc d).pool = some q) := hq hdc hp
      have hdd := hdead d hdc
      cases hpc : s.pc d with
      | idle => trivial
      | creating q i =>
        rw [hpc] at hok hqs
        exact (congrArg MpoolElem.numSubpools (helem q (hqs q rfl))).trans hok
      | created q i k =>
        rw [hpc] at hok hqs
        obtain ⟨hn,hl,hm⟩ := hok
        exact ⟨(congrArg MpoolElem.numSubpools (helem q (hqs q rfl))).trans hn,
          (hlive k q i (hqs q rfl)).2 hl,(hmap k q i (hqs q rfl) hl).trans hm⟩
      | poolSet q i k =>
        rw [hpc] at hok hqs
        obtain ⟨hn,hl,hm⟩ := hok
        exact ⟨(congrArg MpoolElem.numSubpools (helem q (hqs q rfl))).trans hn,
          (hlive k q i (hqs q rfl)).2 hl,(hmap k q i (hqs q rfl) hl).trans hm⟩
      | deleting q i =>
        rw [hpc] at hok hqs
        intro j hj
        exact (congrArg (MpoolElem.odpPool · j) (helem q (hqs q rfl))).trans (hok j hj)
      | destroyed q i k index =>
        rw [hpc] at hok hqs hdd
        obtain ⟨hl,hidx,hnone⟩ := hok
        exact ⟨hdd k rfl hl,hidx,fun j hj =>
          (congrArg (MpoolElem.odpPool · j) (helem q (hqs q rfl))).trans (hnone j hj)⟩
  · by_cases hqp : q = p
    · obtain rfl := hqp
      refine (hmapped i k hk).imp_right fun hxc => ⟨c,?_⟩
      rw [hself]
      exact hxc
    · have hk := (hlive k q i hqp).1 hk
      rcases hinv.mapped q i k hk with hm | ⟨d,hd⟩
      · exact .inl ((hmap k q i hqp hk).trans hm)
      · refine .inr ⟨d,?_⟩
        have hdc : d ≠ c := by
          rintro rfl
          rcases hd with hd | hd <;> exact hqp (hc q (hd ▸ rfl))
        rw [hne hdc]
        exact hd
  · rcases hclear k hk with hm | hxk | ⟨d,hdc,hd⟩
    · exact .inl hm
    · exact .inr ⟨c,hself.symm ▸ hxk⟩
    · exact .inr ⟨d,(hne hdc).symm ▸ hd⟩

section
variable {pc : Pc π ι} (hinv : s.Inv) (hpc : s.pc c = pc)
include hinv hpc

omit [DecidableEq κ] [DecidableEq π] in
private theorem Inv.hothers (hp : pc.pool = some p) : ∀ d ≠ c, (s.pc d).pool ≠ some p := by
  rintro d hd hdp
  exact hd (hinv.alone d c p hdp (hpc ▸ hp))

omit [DecidableEq κ] [DecidableEq π] in
/-- A core that stores no entry is not needed for an entry to be found. -/
private theorem Inv.mapped_alone (hp : ∀ d ≠ c, (s.pc d).pool ≠ some p) (hs : pc.storing ≠ some h)
    (hl : s.tbl.odpPools.live h = some (some (p,i))) :
    s.tbl.map h = { pool := some p, subpool := i } := by
  refine (hinv.mapped p i h hl).resolve_right ?_
  rintro ⟨d,hd⟩
  have hdp : (s.pc d).pool = some p := by rcases hd with hd | hd <;> rw [hd] <;> rfl
  by_cases hdc : d = c
  · obtain rfl := hdc
    rw [hpc] at hd
    rcases hd with rfl | rfl <;> exact hs rfl
  · exact hp d hdc hdp

omit [DecidableEq κ] [DecidableEq π] in
/-- A core that clears no entry is not needed for an entry to be about to be cleared. -/
private theorem Inv.dead_alone (hs : pc.clearing ≠ some h) (hl : s.tbl.odpPools.live h = none) :
    s.tbl.map h = {} ∨ ∃ d ≠ c, (s.pc d).clearing = some h := by
  refine (hinv.dead h hl).imp_right fun ⟨d,hd⟩ => ⟨d,?_,hd⟩
  rintro rfl
  exact hs (hpc ▸ hd)

/-- A step that leaves the tables. -/
private theorem Inv.goto (hc : ∀ q, pc.pool = some q → q = p) (hp : ∀ d ≠ c, (s.pc d).pool ≠ some p)
    (hst : pc.storing = none) (hcl : pc.clearing = none) (hx : x.Ok s.tbl)
    (hpool : ∀ q, x.pool = some q → q = p ∧ (s.tbl.elem p).allocated = true) :
    (s.next c s.tbl x).Inv := by
  refine hinv.next (hpc ▸ hc) hp hx hpool (fun _ _ => rfl) (fun _ _ _ _ => Iff.rfl) (fun _ _ _ _ _ => rfl)
    (fun _ _ _ _ hk => hk) (hinv.holds_iff p) (fun i k hk => .inl ?_) hinv.other fun k hk => ?_
  · exact hinv.mapped_alone hpc hp (fun hc => Option.some_ne_none k (hc.symm.trans hst)) hk
  · exact (hinv.dead_alone hpc (fun hc => Option.some_ne_none k (hc.symm.trans hcl)) hk).imp_right .inr

end

theorem Inv.createBegin (hinv : s.Inv) (hpc : s.pc c = .idle) {env : Env} {name : Option (List UInt8)}
    {reqPool : Option (Option π)} {cfg : PoolCfg} {free : Option π}
    (hfree : ∀ p ∈ free, (s.tbl.elem p).allocated = false) :
    (s.createBegin env c name reqPool cfg free).Inv := by
  rw [Cores.createBegin]
  cases halloc : s.tbl.poolAlloc reqPool free with
  | none => exact hinv
  | some p =>
    have ha := State.poolAlloc_free hfree halloc
    have hconf := @State.configure_configured _ _ _ s.tbl p cfg env name
    have hothers (d : κ) : (s.pc d).pool ≠ some p := fun hd =>
      Bool.false_ne_true (ha.symm.trans (hinv.pool d p hd))
    have hno (j : Nat) (k : ι) : s.tbl.odpPools.live k ≠ some (some (p,j)) := fun hk =>
      Bool.false_ne_true (ha.symm.trans ((hinv.holds_iff p j k).2 hk).1)
    dsimp only
    refine hinv.next (p := p) (fun q hq => ?_) (fun d _ => hothers d) ?_ (fun q hq => ⟨?_,hconf.allocated⟩)
      hconf.elem (fun _ _ _ _ => by rw [hconf.odpPools]) (fun _ _ _ _ _ => by rw [hconf.map])
      (fun _ _ _ _ hk => by rwa [hconf.odpPools]) (fun j k => ?_) (fun j k hk => ?_) (fun k hk => ?_)
      fun k hk => ?_
    · rw [hpc] at hq
      cases hq
    · split
      · exact hconf.numSubpools
      · exact fun j hj => absurd hj (Nat.not_lt_zero j)
    · split at hq <;> exact (Option.some.inj hq).symm
    · rw [hconf.odpPools, State.Holds, hconf.numSubpools]
      exact iff_of_false (fun hh => Nat.not_lt_zero j hh.2.1) (hno j k)
    · rw [hconf.odpPools] at hk
      exact absurd hk (hno j k)
    · rw [hconf.odpPools] at hk
      exact (congrFun hconf.map k).trans (hinv.other k hk)
    · rw [hconf.odpPools] at hk
      rw [hconf.map]
      exact (hinv.dead_alone hpc (fun hc => by cases hc) hk).imp_right .inr

theorem Inv.deleteBegin (hinv : s.Inv) (hpc : s.pc c = .idle) {pool : Option π}
    (hothers : ∀ p ∈ pool, ∀ d, (s.pc d).pool ≠ some p) : (s.deleteBegin c pool).Inv := by
  cases pool with
  | none => exact hinv
  | some p =>
    rw [Cores.deleteBegin]
    split
    · rename_i ha
      refine hinv.goto hpc (p := p) (fun q hq => ?_) (fun d _ => hothers p rfl d) rfl rfl
        (fun j hj => absurd hj (Nat.not_lt_zero j)) fun q hq => ⟨(Option.some.inj hq).symm,ha⟩
      cases hq
    · exact hinv

/-- The ODP pool of a subpool is created. -/
theorem Inv.odpPoolCreate (hinv : s.Inv) (hpc : s.pc c = .creating p i) {o : Made ι} (hidx : o.index = true)
    (hfree : ∀ k ∈ o.odpPool, s.tbl.odpPools.Free k) (hclear : ∀ k ∈ o.odpPool, ¬s.Clearing k) :
    (s.odpPoolCreate c p i o).Inv := by
  have hp := hinv.hothers hpc (p := p) rfl
  have ha := hinv.pool c p (by rw [hpc]; rfl)
  have hc (q : π) (hq : (s.pc c).pool = some q) : q = p := by
    rw [hpc] at hq
    exact (Option.some.inj hq).symm
  have hn : (s.tbl.elem p).numSubpools = i := by
    have hok := hinv.pcs c
    rw [hpc] at hok
    exact hok
  have hmapped {j : Nat} {k : ι} (hk : s.tbl.odpPools.live k = some (some (p,j))) :
      s.tbl.map k = { pool := some p, subpool := j } :=
    hinv.mapped_alone hpc hp (fun hc => by cases hc) hk
  have hdead {k : ι} (hk : s.tbl.odpPools.live k = none) :
      s.tbl.map k = {} ∨ ∃ d ≠ c, (s.pc d).clearing = some k :=
    hinv.dead_alone hpc (fun hc => by cases hc) hk
  rw [Cores.odpPoolCreate]
  rcases o with ⟨_ | h,index⟩
  · have hself : (s.tbl.setSize p i).elem p = { s.tbl.elem p with
        size := Function.update (s.tbl.elem p).size i
          (((s.tbl.elem p).poolCfg[i]?.map Subpool.size).getD 0) } := Function.update_self ..
    refine hinv.next (p := p) hc hp (fun j hj => absurd hj (Nat.not_lt_zero j))
      (fun q hq => ⟨(Option.some.inj hq).symm,?_⟩) (fun q hq => Function.update_of_ne hq ..)
      (fun _ _ _ _ => Iff.rfl) (fun _ _ _ _ _ => rfl) (fun _ _ _ _ hk => hk) (fun j k => ?_)
      (fun j k hk => .inl (hmapped hk)) hinv.other fun k hk => (hdead hk).imp_right .inr
    · rw [hself]
      exact ha
    · rw [State.Holds, hself]
      exact hinv.holds_iff p j k
  · have hnone : s.tbl.odpPools.live h = none := Resources.live_eq_none_iff.2 (hfree h rfl)
    have hnotClear : ¬s.Clearing h := hclear h rfl
    obtain rfl : index = true := hidx
    have hmap : s.tbl.map h = {} := (hinv.dead h hnone).resolve_right hnotClear
    have hself : ((s.tbl.setSize p i).addSubpool p i h).elem p = { s.tbl.elem p with
        size := Function.update (s.tbl.elem p).size i
          (((s.tbl.elem p).poolCfg[i]?.map Subpool.size).getD 0)
        odpPool := Function.update (s.tbl.elem p).odpPool i (some h)
        numSubpools := (s.tbl.elem p).numSubpools + 1 } := by
      simp only [State.addSubpool, State.setSize, State.setElem, State.odpPoolCreate,
        Function.update_self]
    have hlive (k : ι) : ((s.tbl.setSize p i).addSubpool p i h).odpPools.live k =
        if k = h then some (some (p,i)) else s.tbl.odpPools.live k := Resources.live_create
    refine hinv.next (p := p) hc hp ⟨?_,?_,hmap⟩ (fun q hq => ⟨(Option.some.inj hq).symm,?_⟩)
      (fun q hq => ?_) (fun k q j hq => ?_) (fun _ _ _ _ _ => rfl) (fun d _ k hd hk => ?_) (fun j k => ?_)
      (fun j k hk => ?_) (fun k hk => ?_) fun k hk => ?_
    · rw [hself, hn]
    · rw [hlive, if_pos rfl]
    · rw [hself]
      exact ha
    · simp only [State.addSubpool, State.setSize, State.setElem, State.odpPoolCreate,
        Function.update_of_ne hq]
    · rw [hlive]
      split
      · rename_i hkh
        rw [hkh, hnone]
        refine iff_of_false (fun hc => hq ?_) (Option.some_ne_none _).symm
        exact (congrArg Prod.fst (Option.some.inj (Option.some.inj hc))).symm
      · exact Iff.rfl
    · rw [hlive, if_neg]
      · exact hk
      · rintro rfl
        exact hnotClear ⟨d,hd⟩
    · rw [hlive, State.Holds, hself]
      dsimp only
      by_cases hji : j = i
      · obtain rfl := hji
        rw [Function.update_self, hn, Option.some.injEq]
        split
        · rename_i hkh
          exact iff_of_true ⟨ha,Nat.lt_succ_self j,hkh.symm⟩ rfl
        · rename_i hkh
          refine iff_of_false (fun hh => hkh hh.2.2.symm) fun hk => ?_
          have hj := ((hinv.holds_iff p j k).2 hk).2.1
          exact Nat.lt_irrefl j (hn ▸ hj)
      · have hlt : j < (s.tbl.elem p).numSubpools + 1 ↔ j < (s.tbl.elem p).numSubpools := by
          rw [hn]
          exact ⟨fun hj => Nat.lt_of_le_of_ne (Nat.le_of_lt_succ hj) hji,Nat.lt_succ_of_lt⟩
        rw [Function.update_of_ne hji, hlt]
        refine (hinv.holds_iff p j k).trans ?_
        split
        · rename_i hkh
          rw [hkh, hnone]
          refine iff_of_false (Option.some_ne_none _).symm fun hc => hji ?_
          exact (congrArg Prod.snd (Option.some.inj (Option.some.inj hc))).symm
        · exact Iff.rfl
    · rw [hlive] at hk
      split at hk
      · rename_i hkh
        obtain rfl := hkh
        obtain rfl : i = j := congrArg Prod.snd (Option.some.inj (Option.some.inj hk))
        exact .inr (.inl rfl)
      · exact .inl (hmapped hk)
    · rw [hlive] at hk
      split at hk
      · cases hk
      · exact hinv.other k hk
    · rw [hlive] at hk
      split at hk
      · cases hk
      · exact (hdead hk).imp_right .inr

/-- The entry of a subpool is written. -/
theorem Inv.store (hinv : s.Inv) (hc : (s.pc c).pool = some p) (hcl : (s.pc c).clearing = none)
    (hl : s.tbl.odpPools.live h = some (some (p,i))) {e : PoolSubpool π} (hx : x.Ok (s.tbl.setMap h e))
    (hpool : ∀ q, x.pool = some q → q = p) (hst : ∀ k, (s.pc c).storing = some k → k = h)
    (he : e = { pool := some p, subpool := i } ∨ x = .poolSet p i h) :
    (s.next c (s.tbl.setMap h e) x).Inv := by
  have hp := hinv.hothers rfl hc
  refine hinv.next (fun q hq => Option.some.inj (hq.symm.trans hc)) hp hx
    (fun q hq => ⟨hpool q hq,hinv.pool c p hc⟩) (fun _ _ => rfl) (fun _ _ _ _ => Iff.rfl)
    (fun k q j hq hk => State.setMap_ne ?_) (fun _ _ _ _ hk => hk) (hinv.holds_iff p)
    (fun j k hk => ?_) (fun k hk => (State.setMap_ne ?_).trans (hinv.other k hk)) fun k hk => ?_
  · rintro rfl
    exact hq (congrArg Prod.fst (Option.some.inj (Option.some.inj (hk.symm.trans hl))))
  · by_cases hkh : k = h
    · obtain rfl := hkh
      obtain rfl : j = i := congrArg Prod.snd (Option.some.inj (Option.some.inj (hk.symm.trans hl)))
      rcases he with rfl | rfl
      · exact .inl State.setMap_self
      · exact .inr (.inr rfl)
    · exact .inl ((State.setMap_ne hkh).trans
        (hinv.mapped_alone rfl hp (fun hc => hkh (hst k hc)) hk))
  · rintro rfl
    exact Option.some_ne_none _ (Option.some.inj (hl.symm.trans hk))
  · have hkh : k ≠ h := by
      rintro rfl
      exact Option.some_ne_none _ (hl.symm.trans hk)
    rw [State.setMap_ne hkh]
    refine (hinv.dead_alone rfl ?_ hk).imp_right .inr
    rw [hcl]
    exact (Option.some_ne_none k).symm

theorem Inv.storePool (hinv : s.Inv) (hpc : s.pc c = .created p i h) : (s.storePool c p i h).Inv := by
  have hok := hinv.pcs c
  rw [hpc] at hok
  obtain ⟨hn,hl,hm⟩ := hok
  have hmap : (s.tbl.setMap h { s.tbl.map h with pool := some p }).map h = { pool := some p } := by
    rw [State.setMap_self, hm]
  refine hinv.store (hpc ▸ rfl) (hpc ▸ rfl) hl ⟨hn,hl,hmap⟩ (fun q hq => (Option.some.inj hq).symm)
    (fun k hk => ?_) (.inr rfl)
  rw [hpc] at hk
  exact (Option.some.inj hk).symm

theorem Inv.storeSubpool (hinv : s.Inv) (hpc : s.pc c = .poolSet p i h) :
    (s.storeSubpool c p i h).Inv := by
  have hok := hinv.pcs c
  rw [hpc] at hok
  obtain ⟨hn,hl,hm⟩ := hok
  refine hinv.store (hpc ▸ rfl) (hpc ▸ rfl) hl ?_ (fun q hq => ?_) (fun k hk => ?_) (.inl ?_)
  · split
    · exact hn
    · trivial
  · split at hq
    · exact (Option.some.inj hq).symm
    · cases hq
  · rw [hpc] at hk
    exact (Option.some.inj hk).symm
  · rw [hm]

/-- The ODP pool of a subpool is destroyed, or the pool is free again. -/
theorem Inv.odpPoolDestroy (hinv : s.Inv) (hpc : s.pc c = .deleting p i) {o : Unmade}
    (hidx : o.index = true) : (s.odpPoolDestroy c p i o).Inv := by
  have hp := hinv.hothers hpc (p := p) rfl
  have ha := hinv.pool c p (by rw [hpc]; rfl)
  have hc (q : π) (hq : (s.pc c).pool = some q) : q = p := by
    rw [hpc] at hq
    exact (Option.some.inj hq).symm
  have hnone : ∀ j < i, (s.tbl.elem p).odpPool j = none := by
    have hok := hinv.pcs c
    rw [hpc] at hok
    exact hok
  have hmapped {j : Nat} {k : ι} (hk : s.tbl.odpPools.live k = some (some (p,j))) :
      s.tbl.map k = { pool := some p, subpool := j } :=
    hinv.mapped_alone hpc hp (fun hc => by cases hc) hk
  have hdead {k : ι} (hk : s.tbl.odpPools.live k = none) :
      s.tbl.map k = {} ∨ ∃ d ≠ c, (s.pc d).clearing = some k :=
    hinv.dead_alone hpc (fun hc => by cases hc) hk
  have hreturn : (s.next c s.tbl .idle).Inv :=
    hinv.goto hpc (fun q hq => hc q (hpc ▸ hq)) hp rfl rfl trivial fun q hq => by cases hq
  rw [Cores.odpPoolDestroy]
  split
  · rename_i hi
    split
    · exact hreturn
    · rename_i h hpi
      split
      · have hl : s.tbl.odpPools.live h = some (some (p,i)) := (hinv.holds_iff p i h).1 ⟨ha,hi,hpi⟩
        have hself : (s.tbl.remSubpool p i h).elem p = { s.tbl.elem p with
            odpPool := Function.update (s.tbl.elem p).odpPool i none
            size := Function.update (s.tbl.elem p).size i 0 } := Function.update_self ..
        have hlive (k : ι) : (s.tbl.remSubpool p i h).odpPools.live k =
            if k = h then none else s.tbl.odpPools.live k := Resources.live_destroy
        have hgone {k : ι} {j : Nat} (hk : (if k = h then none else s.tbl.odpPools.live k) =
            some (some (p,j))) : s.tbl.odpPools.live k = some (some (p,j)) := by
          split at hk
          · cases hk
          · exact hk
        refine hinv.next hc hp ⟨?_,hidx,fun j hj => ?_⟩ (fun q hq => ⟨(Option.some.inj hq).symm,?_⟩)
          (fun q hq => Function.update_of_ne hq ..) (fun k q j hq => ?_) (fun _ _ _ _ _ => rfl)
          (fun d _ k _ hk => ?_) (fun j k => ?_) (fun j k hk => ?_) (fun k hk => ?_) fun k hk => ?_
        · rw [hlive, if_pos rfl]
        · rw [hself]
          by_cases hji : j = i
          · obtain rfl := hji
            exact Function.update_self ..
          · exact (Function.update_of_ne hji ..).trans
              (hnone j (Nat.lt_of_le_of_ne (Nat.le_of_lt_succ hj) hji))
        · rw [hself]
          exact ha
        · rw [hlive]
          split
          · rename_i hkh
            rw [hkh, hl]
            refine iff_of_false (Option.some_ne_none _).symm fun hc => hq ?_
            exact (congrArg Prod.fst (Option.some.inj (Option.some.inj hc))).symm
          · exact Iff.rfl
        · rw [hlive, hk]
          exact ite_self _
        · rw [hlive, State.Holds, hself]
          dsimp only
          by_cases hji : j = i
          · obtain rfl := hji
            rw [Function.update_self]
            refine iff_of_false (fun hh => Option.some_ne_none _ hh.2.2.symm) fun hk => ?_
            have hkh : k = h := by
              have hkp := ((hinv.holds_iff p j k).2 (hgone hk)).2.2
              exact Option.some.inj (hkp.symm.trans hpi)
            rw [if_pos hkh] at hk
            cases hk
          · rw [Function.update_of_ne hji]
            refine (hinv.holds_iff p j k).trans ?_
            split
            · rename_i hkh
              rw [hkh, hl]
              refine iff_of_false (fun hc => hji ?_) (Option.some_ne_none _).symm
              exact (congrArg Prod.snd (Option.some.inj (Option.some.inj hc))).symm
            · exact Iff.rfl
        · rw [hlive] at hk
          exact .inl (hmapped (hgone hk))
        · rw [hlive] at hk
          split at hk
          · cases hk
          · exact hinv.other k hk
        · rw [hlive] at hk
          split at hk
          · rename_i hkh
            exact .inr (.inl (congrArg some hkh.symm))
          · exact (hdead hk).imp_right .inr
      · exact hreturn
  · rename_i hi
    have hself : (s.tbl.finishDelete p).elem p = { s.tbl.elem p with
        allocated := false
        name := []
        eventType := none
        numSubpools := 0 } := Function.update_self ..
    have hno (j : Nat) (k : ι) : s.tbl.odpPools.live k ≠ some (some (p,j)) := by
      intro hk
      obtain ⟨-,hj,hjk⟩ := (hinv.holds_iff p j k).2 hk
      rw [hnone j (Nat.lt_of_lt_of_le hj (Nat.le_of_not_lt hi))] at hjk
      cases hjk
    refine hinv.next hc hp trivial (fun q hq => by cases hq) (fun q hq => Function.update_of_ne hq ..)
      (fun _ _ _ _ => Iff.rfl) (fun _ _ _ _ _ => rfl) (fun _ _ _ _ hk => hk) (fun j k => ?_)
      (fun j k hk => absurd hk (hno j k)) hinv.other fun k hk => (hdead hk).imp_right .inr
    rw [State.Holds, hself]
    exact iff_of_false (fun hh => Nat.not_lt_zero j hh.2.1) (hno j k)

theorem Inv.clear (hinv : s.Inv) {index : Bool} (hpc : s.pc c = .destroyed p i h index) :
    (s.clear c p i h index).Inv := by
  have hp := hinv.hothers hpc (p := p) rfl
  have ha := hinv.pool c p (by rw [hpc]; rfl)
  have hok := hinv.pcs c
  rw [hpc] at hok
  obtain ⟨hl,rfl,hnone⟩ := hok
  have hlive {k : ι} {owner : Option (π × Nat)} (hk : s.tbl.odpPools.live k = some owner) : k ≠ h := by
    rintro rfl
    exact Option.some_ne_none _ (hk.symm.trans hl)
  refine hinv.next (p := p) (fun q hq => ?_) hp hnone (fun q hq => ⟨(Option.some.inj hq).symm,ha⟩)
    (fun _ _ => rfl) (fun _ _ _ _ => Iff.rfl) (fun k q j _ hk => State.setMap_ne (hlive hk))
    (fun _ _ _ _ hk => hk) (hinv.holds_iff p) (fun j k hk => .inl ?_)
    (fun k hk => (State.setMap_ne (hlive hk)).trans (hinv.other k hk)) fun k hk => ?_
  · rw [hpc] at hq
    exact (Option.some.inj hq).symm
  · exact (State.setMap_ne (hlive hk)).trans
      (hinv.mapped_alone hpc hp (fun hc => by cases hc) hk)
  · by_cases hkh : k = h
    · obtain rfl := hkh
      exact .inl State.setMap_self
    · rw [State.setMap_ne hkh]
      exact (hinv.dead_alone hpc (fun hc => hkh (Option.some.inj hc).symm) hk).imp_right .inr

omit [DecidableEq κ] [DecidableEq π] in
/-- Another user of ODP creates or destroys a pool. -/
theorem Inv.others (hinv : s.Inv) {u : State π ι} (helem : u.elem = s.tbl.elem) (hmap : u.map = s.tbl.map)
    (hlive : ∀ k p i, u.odpPools.live k = some (some (p,i)) ↔
      s.tbl.odpPools.live k = some (some (p,i)))
    (hother : ∀ k, u.odpPools.live k = some none → s.tbl.map k = {})
    (hdead : ∀ k, u.odpPools.live k = none → s.tbl.map k = {} ∨ s.Clearing k)
    (hclear : ∀ k, s.Clearing k → s.tbl.odpPools.live k = none → u.odpPools.live k = none) :
    ({ s with tbl := u } : Cores κ π ι).Inv := by
  refine ⟨fun p i k => ?_,fun d q hd => ?_,hinv.alone,fun d => ?_,fun q i k hk => ?_,fun k hk => ?_,
    fun k hk => ?_⟩
  · rw [hlive, ← hinv.holds_iff, State.Holds, State.Holds, helem]
  · exact (congrArg (fun elem => (elem q).allocated) helem).trans (hinv.pool d q hd)
  · have hok := hinv.pcs d
    have hd (k : ι) (hk : (s.pc d).clearing = some k) := hclear k ⟨d,hk⟩
    show (s.pc d).Ok u
    cases hpc : s.pc d with
    | idle => trivial
    | creating q i =>
      rw [hpc] at hok
      rw [Pc.Ok, helem]
      exact hok
    | created q i k =>
      rw [hpc] at hok
      rw [Pc.Ok, helem, hlive, hmap]
      exact hok
    | poolSet q i k =>
      rw [hpc] at hok
      rw [Pc.Ok, helem, hlive, hmap]
      exact hok
    | deleting q i =>
      rw [hpc] at hok
      rw [Pc.Ok, helem]
      exact hok
    | destroyed q i k index =>
      rw [hpc] at hok hd
      rw [Pc.Ok, helem]
      exact ⟨hd k rfl hok.1,hok.2⟩
  · exact (hinv.mapped q i k ((hlive k q i).1 hk)).imp_left (congrFun hmap k).trans
  · exact (congrFun hmap k).trans (hother k hk)
  · exact (hdead k hk).imp_left (congrFun hmap k).trans

omit [DecidableEq κ] [DecidableEq π] in
theorem Inv.otherCreate (hinv : s.Inv) (hfree : s.tbl.odpPools.Free h) (hclear : ¬s.Clearing h) :
    ({ s with tbl := s.tbl.odpPoolCreate h none } : Cores κ π ι).Inv := by
  have hnone := Resources.live_eq_none_iff.2 hfree
  have hlive (k : ι) : (s.tbl.odpPoolCreate h none).odpPools.live k =
      if k = h then some none else s.tbl.odpPools.live k := Resources.live_create
  refine hinv.others rfl rfl (fun k q j => ?_) (fun k hk => ?_) (fun k hk => ?_) fun k hc hk => ?_
  · rw [hlive]
    split
    · rename_i hkh
      rw [hkh, hnone]
      exact iff_of_false (fun hc => by cases hc) fun hc => by cases hc
    · exact Iff.rfl
  · rw [hlive] at hk
    split at hk
    · rename_i hkh
      exact hkh ▸ (hinv.dead h hnone).resolve_right hclear
    · exact hinv.other k hk
  · rw [hlive] at hk
    split at hk
    · cases hk
    · exact hinv.dead k hk
  · rw [hlive, if_neg]
    · exact hk
    · rintro rfl
      exact hclear hc

omit [DecidableEq κ] [DecidableEq π] in
theorem Inv.otherDestroy (hinv : s.Inv) (hl : s.tbl.odpPools.live h = some none) :
    ({ s with tbl := s.tbl.odpPoolDestroy h none } : Cores κ π ι).Inv := by
  have hlive (k : ι) : (s.tbl.odpPoolDestroy h none).odpPools.live k =
      if k = h then none else s.tbl.odpPools.live k := Resources.live_destroy
  refine hinv.others rfl rfl (fun k q j => ?_) (fun k hk => ?_) (fun k hk => ?_) fun k _ hk => ?_
  · rw [hlive]
    split
    · rename_i hkh
      rw [hkh, hl]
      exact iff_of_false (fun hc => by cases hc) fun hc => by cases hc
    · exact Iff.rfl
  · rw [hlive] at hk
    split at hk
    · cases hk
    · exact hinv.other k hk
  · rw [hlive] at hk
    split at hk
    · rename_i hkh
      exact .inl (hkh ▸ hinv.other h hl)
    · exact hinv.dead k hk
  · rw [hlive, hk]
    exact ite_self _

theorem Inv.step {env : Env} {l : CoresLabel κ π ι} {u : Cores κ π ι} (hinv : s.Inv)
    (hst : s.step env l = some u) (hclean : s.Clean l) : u.Inv := by
  cases l with
  | createBegin c name reqPool cfg free =>
    rw [Cores.step] at hst
    split at hst
    · rename_i hposs
      obtain rfl := Option.some.inj hst
      exact hinv.createBegin hposs.1 hposs.2
    · cases hst
  | odpPoolCreate c o =>
    rw [Cores.step] at hst
    split at hst
    · rename_i hpc
      split at hst
      · rename_i hfree
        obtain rfl := Option.some.inj hst
        exact hinv.odpPoolCreate hpc hclean.1 hfree hclean.2
      · cases hst
    · cases hst
  | storePool c =>
    rw [Cores.step] at hst
    split at hst
    · rename_i hpc
      obtain rfl := Option.some.inj hst
      exact hinv.storePool hpc
    · cases hst
  | storeSubpool c =>
    rw [Cores.step] at hst
    split at hst
    · rename_i hpc
      obtain rfl := Option.some.inj hst
      exact hinv.storeSubpool hpc
    · cases hst
  | deleteBegin c pool =>
    rw [Cores.step] at hst
    split at hst
    · rename_i hpc
      obtain rfl := Option.some.inj hst
      exact hinv.deleteBegin hpc hclean
    · cases hst
  | odpPoolDestroy c o =>
    rw [Cores.step] at hst
    split at hst
    · rename_i hpc
      obtain rfl := Option.some.inj hst
      exact hinv.odpPoolDestroy hpc hclean
    · cases hst
  | clear c =>
    rw [Cores.step] at hst
    split at hst
    · rename_i hpc
      obtain rfl := Option.some.inj hst
      exact hinv.clear hpc
    · cases hst
  | otherCreate h =>
    rw [Cores.step] at hst
    split at hst
    · rename_i hfree
      obtain rfl := Option.some.inj hst
      exact hinv.otherCreate hfree hclean
    · cases hst
  | otherDestroy h =>
    rw [Cores.step] at hst
    split at hst
    · rename_i hl
      obtain rfl := Option.some.inj hst
      exact hinv.otherDestroy hl
    · cases hst

omit [DecidableEq κ] [DecidableEq π] in
theorem Initial.inv (hs : s.Initial) : s.Inv := by
  have hpool (c : κ) (p : π) : (s.pc c).pool ≠ some p := by
    rw [hs.pc c]
    exact (Option.some_ne_none p).symm
  have hlive (p : π) (i : Nat) (h : ι) : s.tbl.odpPools.live h ≠ some (some (p,i)) := by
    intro hl
    obtain ⟨r,hr,hrl⟩ := Option.bind_eq_some_iff.1 hl
    split at hrl
    · rw [hs.tbl.others r (Resources.mem_of_behind hr).1] at hrl
      cases hrl
    · cases hrl
  refine ⟨fun p i h => ?_,fun c p hp => absurd hp (hpool c p),fun c d p hp => absurd hp (hpool c p),
    fun c => ?_,fun p i h hl => absurd hl (hlive p i h),fun h _ => hs.tbl.map h,
    fun h _ => .inl (hs.tbl.map h)⟩
  · refine iff_of_false (fun hh => ?_) (hlive p i h)
    exact Bool.false_ne_true ((hs.tbl.elem p).symm.trans hh.1)
  · rw [hs.pc c]
    trivial

end Cores

/-- In every run of creates and deletes on any number of cores, the table stays exact as long as no
index is given out while its entry has yet to be cleared. -/
theorem pool_map_exact (env : Env) {s : Cores κ π ι}
    (h : (cores env).ReachableVia (fun s l _ => s.Clean l) s) : s.Exact :=
  (System.ReachableVia.invariant (I := Cores.Inv) (fun _ => Cores.Initial.inv)
    (fun _ _ _ hinv hst hclean => hinv.step hst hclean) h).exact

private def bareEnv : Env := ⟨⟨0,0,0,0⟩,⟨0,0,0,0⟩,0,0,0,0,.packet⟩

private def oneSubpool : PoolCfg where
  eventType := .sw
  subpool := [⟨64,16,0⟩]
  num_pos := by decide
  num_le := by decide

private def noPools : Cores Bool Bool Nat := ⟨⟨fun _ => {},fun _ => {},[]⟩,fun _ => .idle⟩

private theorem noPools_initial : noPools.Initial :=
  ⟨⟨fun _ => rfl,fun _ => rfl,Resources.ok_nil,fun _ hr => absurd hr List.not_mem_nil⟩,fun _ => rfl⟩

/-- A pool is created by one core while the other one deletes a pool. The index 0 is given out again
once its entry is cleared. -/
private def crossing : Option (Cores Bool Bool Nat) :=
  System.exec (Cores.step · bareEnv) (fun s l _ => decide (s.Clean l)) noPools
    [.createBegin false none none oneSubpool (some false), .odpPoolCreate false ⟨some 0,true⟩,
      .storePool false, .storeSubpool false, .deleteBegin false (some false),
      .createBegin true none none oneSubpool (some true), .odpPoolDestroy false {},
      .odpPoolCreate true ⟨some 1,true⟩, .storePool true, .clear false, .otherCreate 0,
      .storeSubpool true]

private theorem crossing_isSome : crossing.isSome = true := by decide

theorem pool_map_exact_crossing : (crossing.get crossing_isSome).Exact :=
  pool_map_exact bareEnv (System.ReachableVia.exec (fun _ _ _ => of_decide_eq_true)
    (.start noPools_initial) (Option.some_get crossing_isSome).symm)

/-- The index 0 is given out again before its entry is cleared. -/
private def reused : Option (Cores Bool Bool Nat) :=
  System.exec (Cores.step · bareEnv) (fun _ _ _ => true) noPools
    [.createBegin false none none oneSubpool (some false), .odpPoolCreate false ⟨some 0,true⟩,
      .storePool false, .storeSubpool false, .deleteBegin false (some false),
      .odpPoolDestroy false {}, .createBegin true none none oneSubpool (some true),
      .odpPoolCreate true ⟨some 0,true⟩, .storePool true, .storeSubpool true, .clear false]

private theorem reused_isSome : reused.isSome = true := by decide

/-- The delete of one pool clears the entry that the create of another one has stored. -/
theorem delete_clears_other_entry :
    ¬∀ (env : Env) (s : Cores Bool Bool Nat), (cores env).Reachable s → s.Exact := by
  intro hall
  have hexact := hall bareEnv (reused.get reused_isSome)
    (System.ReachableVia.exec (fun _ _ _ _ => trivial) (.start noPools_initial)
      (Option.some_get reused_isSome).symm)
  have hentry := hexact.subpool true 0 0 (by decide) (by decide) (by decide)
    fun ⟨c,hc⟩ => by
      have hidle : ∀ c, (reused.get reused_isSome).pc c ≠ .created true 0 0 ∧
          (reused.get reused_isSome).pc c ≠ .poolSet true 0 0 := by decide
      exact hc.elim (hidle c).1 (hidle c).2
  exact absurd hentry (by decide)

end EmOdp.Pool
