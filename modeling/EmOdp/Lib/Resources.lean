import Mathlib.Data.List.Basic

/-! Resources behind handles. A handle is given out again once the resource behind it has been
destroyed; the record of every resource is kept. -/
namespace EmOdp.Lib

/-- A resource made behind `handle`, and who has destroyed it since. -/
structure Resource (H P D : Type*) where
  handle : H
  payload : P
  destroyedBy : List D := []
  deriving DecidableEq

/-- The resources made so far, the newest first. -/
abbrev Resources (H P D : Type*) := List (Resource H P D)

namespace Resources
variable {H P D : Type*} [DecidableEq H] {R : Resources H P D} {h k : H} {p : P} {d : D}
  {r x : Resource H P D} {f : Resource H P D → Resource H P D}

/-- What a handle stands for: the resource made last behind it. -/
def behind (R : Resources H P D) (h : H) : Option (Resource H P D) := R.find? (·.handle = h)

/-- The handle can be given out. -/
def Free (R : Resources H P D) (h : H) : Prop := ∀ r ∈ R.behind h, r.destroyedBy ≠ []

instance : Decidable (R.Free h) := inferInstanceAs (Decidable (∀ r ∈ R.behind h, r.destroyedBy ≠ []))

/-- The payload of the resource that the handle stands for, while it is not destroyed. -/
def live (R : Resources H P D) (h : H) : Option P :=
  (R.behind h).bind fun r => if r.destroyedBy = [] then some r.payload else none

def create (R : Resources H P D) (h : H) (p : P) : Resources H P D := ⟨h,p,[]⟩ :: R

/-- Changes the resource that the handle stands for. -/
def change (f : Resource H P D → Resource H P D) (h : H) : Resources H P D → Resources H P D
  | [] => []
  | r :: R => if r.handle = h then f r :: R else r :: change f h R

def destroy (R : Resources H P D) (h : H) (d : D) : Resources H P D :=
  R.change (fun r => { r with destroyedBy := r.destroyedBy ++ [d] }) h

/-- Before a handle was given out again, the resource behind it had been destroyed. -/
def Ok (R : Resources H P D) : Prop :=
  R.Pairwise fun newer older => newer.handle = older.handle → older.destroyedBy ≠ []

theorem behind_cons_self (hr : r.handle = h) : behind (r :: R) h = some r :=
  List.find?_cons_of_pos (decide_eq_true hr)

theorem behind_cons_ne (hr : r.handle ≠ h) : behind (r :: R) h = R.behind h :=
  List.find?_cons_of_neg fun hc => hr (of_decide_eq_true hc)

theorem change_cons : change f h (r :: R) = if r.handle = h then f r :: R else r :: R.change f h := rfl

theorem mem_of_behind (hr : R.behind h = some r) : r ∈ R ∧ r.handle = h := by
  induction R with
  | nil => cases hr
  | cons y R ih =>
    by_cases hy : y.handle = h
    · obtain rfl := Option.some.inj ((behind_cons_self hy).symm.trans hr)
      exact ⟨List.mem_cons_self,hy⟩
    · obtain ⟨hmem,hh⟩ := ih ((behind_cons_ne hy).symm.trans hr)
      exact ⟨List.mem_cons_of_mem _ hmem,hh⟩

omit [DecidableEq H] in
theorem ok_nil : Ok ([] : Resources H P D) := List.Pairwise.nil

theorem behind_create_self : (R.create h p).behind h = some ⟨h,p,[]⟩ :=
  behind_cons_self rfl

theorem behind_create_ne (hne : k ≠ h) : (R.create h p).behind k = R.behind k :=
  behind_cons_ne hne.symm

/-- A resource that is not destroyed is the one that its handle stands for. -/
theorem Ok.behind_of_alive (hok : R.Ok) (hr : r ∈ R) (halive : r.destroyedBy = []) :
    R.behind r.handle = some r := by
  induction hok with
  | nil => cases hr
  | @cons y R hy _ ih =>
    rcases List.mem_cons.1 hr with rfl | hr
    · exact behind_cons_self rfl
    · exact (behind_cons_ne fun hc => hy r hr hc halive).trans (ih hr)

theorem Ok.destroyed_of_free (hok : R.Ok) (hfree : R.Free h) (hr : r ∈ R) (hh : r.handle = h) :
    r.destroyedBy ≠ [] := by
  intro halive
  exact hfree r (hh ▸ hok.behind_of_alive hr halive) halive

theorem Ok.create (hok : R.Ok) (hfree : R.Free h) : (R.create h p).Ok :=
  List.pairwise_cons.2 ⟨fun _ hr hh => hok.destroyed_of_free hfree hr hh.symm,hok⟩

theorem mem_change (hx : x ∈ R.change f h) : x ∈ R ∨ ∃ r ∈ R, r.handle = h ∧ x = f r := by
  induction R with
  | nil => cases hx
  | cons y R ih =>
    rw [change_cons] at hx
    split at hx
    · rename_i hy
      rcases List.mem_cons.1 hx with rfl | hx
      · exact .inr ⟨y,List.mem_cons_self,hy,rfl⟩
      · exact .inl (List.mem_cons_of_mem _ hx)
    · rcases List.mem_cons.1 hx with rfl | hx
      · exact .inl List.mem_cons_self
      · rcases ih hx with hx | ⟨r,hr,hrh,rfl⟩
        · exact .inl (List.mem_cons_of_mem _ hx)
        · exact .inr ⟨r,List.mem_cons_of_mem _ hr,hrh,rfl⟩

/-- A change keeps the handle, and brings no resource back. -/
theorem Ok.change (hok : R.Ok) (hhandle : ∀ r, (f r).handle = r.handle)
    (hdead : ∀ r, r.destroyedBy ≠ [] → (f r).destroyedBy ≠ []) : (R.change f h).Ok := by
  induction hok with
  | nil => exact ok_nil
  | @cons y R hy hok ih =>
    rw [change_cons]
    split
    · exact List.pairwise_cons.2 ⟨fun x hx hh => hy x hx ((hhandle y).symm.trans hh),hok⟩
    · refine List.pairwise_cons.2 ⟨fun x hx hh => ?_,ih⟩
      rcases mem_change hx with hx | ⟨r,hr,-,rfl⟩
      · exact hy x hx hh
      · exact hdead r (hy r hr (hh.trans (hhandle r)))

theorem change_change {g : Resource H P D → Resource H P D} (hhandle : ∀ r, (f r).handle = r.handle) :
    (R.change f h).change g h = R.change (fun r => g (f r)) h := by
  induction R with
  | nil => rfl
  | cons y R ih =>
    rw [change_cons, change_cons]
    split
    · rename_i hy
      rw [change_cons, if_pos ((hhandle y).trans hy)]
    · rename_i hy
      rw [change_cons, if_neg hy, ih]

theorem behind_change_self (hhandle : ∀ r, (f r).handle = r.handle) :
    (R.change f h).behind h = (R.behind h).map f := by
  induction R with
  | nil => rfl
  | cons y R ih =>
    rw [change_cons]
    split
    · rename_i hy
      rw [behind_cons_self ((hhandle y).trans hy), behind_cons_self hy]
      rfl
    · rename_i hy
      rw [behind_cons_ne hy, behind_cons_ne hy]
      exact ih

theorem behind_change_ne (hhandle : ∀ r, (f r).handle = r.handle) (hne : k ≠ h) :
    (R.change f h).behind k = R.behind k := by
  induction R with
  | nil => rfl
  | cons y R ih =>
    rw [change_cons]
    split
    · rename_i hy
      have hyk : y.handle ≠ k := fun hc => hne (hc.symm.trans hy)
      rw [behind_cons_ne hyk, behind_cons_ne fun hc => hyk ((hhandle y).symm.trans hc)]
    · by_cases hyk : y.handle = k
      · rw [behind_cons_self hyk, behind_cons_self hyk]
      · rw [behind_cons_ne hyk, behind_cons_ne hyk]
        exact ih

theorem behind_destroy_ne (hne : k ≠ h) : (R.destroy h d).behind k = R.behind k :=
  behind_change_ne (f := fun r => { r with destroyedBy := r.destroyedBy ++ [d] }) (fun _ => rfl) hne

theorem live_eq_none_iff : R.live h = none ↔ R.Free h := by
  rw [live, Free]
  cases R.behind h with
  | none => exact iff_of_true rfl nofun
  | some r =>
    rw [Option.bind_some]
    split
    · rename_i halive
      exact iff_of_false nofun fun hfree => hfree r rfl halive
    · rename_i hdead
      exact iff_of_true rfl fun x hx => Option.some.inj hx ▸ hdead

theorem live_of_alive (hr : R.behind h = some r) (halive : r.destroyedBy = []) :
    R.live h = some r.payload := by
  rw [live, hr, Option.bind_some, if_pos halive]

theorem live_congr {S : Resources H P D} (hS : S.behind h = R.behind h) : S.live h = R.live h :=
  congrArg (Option.bind · _) hS

theorem live_create : (R.create h p).live k = if k = h then some p else R.live k := by
  split
  · rename_i hkh
    obtain rfl := hkh
    exact live_of_alive behind_create_self rfl
  · rename_i hne
    exact live_congr (behind_create_ne hne)

theorem live_destroy : (R.destroy h d).live k = if k = h then none else R.live k := by
  split
  · rename_i hkh
    rw [live_eq_none_iff, hkh]
    intro r hr
    have hself := behind_change_self (R := R) (h := h)
      (f := fun r => { r with destroyedBy := r.destroyedBy ++ [d] }) fun _ => rfl
    obtain ⟨x,-,rfl⟩ := Option.map_eq_some_iff.1 (hself.symm.trans hr)
    exact fun hc => List.cons_ne_nil _ _ (List.append_eq_nil_iff.1 hc).2
  · rename_i hne
    exact live_congr (behind_destroy_ne hne)

/-- Only the resource that the handle stands for is changed. -/
theorem Ok.mem_change_iff (hok : R.Ok) (hr : R.behind h = some r) (halive : r.destroyedBy = []) :
    x ∈ R.change f h ↔ x = f r ∨ x ∈ R ∧ x ≠ r := by
  induction hok with
  | nil => cases hr
  | @cons y R hy hok ih =>
    rw [change_cons]
    split
    · rename_i hyh
      obtain rfl : y = r :=
        Option.some.inj ((behind_cons_self hyh).symm.trans hr)
      have hne : ∀ z ∈ R, z ≠ y := by
        rintro z hz rfl
        exact hy z hz rfl halive
      rw [List.mem_cons, List.mem_cons]
      constructor
      · rintro (rfl | hx)
        · exact .inl rfl
        · exact .inr ⟨.inr hx,hne x hx⟩
      · rintro (rfl | ⟨rfl | hx,hxy⟩)
        · exact .inl rfl
        · exact absurd rfl hxy
        · exact .inr hx
    · rename_i hyh
      have hrR : behind R h = some r :=
        (behind_cons_ne hyh).symm.trans hr
      have hyr : y ≠ r := by
        rintro rfl
        exact hyh (mem_of_behind hrR).2
      rw [List.mem_cons, List.mem_cons, ih hrR]
      constructor
      · rintro (rfl | rfl | ⟨hx,hxr⟩)
        · exact .inr ⟨.inl rfl,hyr⟩
        · exact .inl rfl
        · exact .inr ⟨.inr hx,hxr⟩
      · rintro (rfl | ⟨rfl | hx,hxr⟩)
        · exact .inr (.inl rfl)
        · exact .inl rfl
        · exact .inr (.inr ⟨hx,hxr⟩)

section
variable {K : Type*} {key : P → K} {S T : Resources H P D} {first second : H → Prop}

/-- The resources behind some handles are destroyed by `d`, and no others. What `key` reads of a
payload stays. -/
structure Destroys (key : P → K) (R T : Resources H P D) (handles : H → Prop) (d : D) : Prop where
  ok : T.Ok
  mem : ∀ x ∈ T, x ∈ R ∧ (x.destroyedBy = [] → ¬handles x.handle) ∨ handles x.handle ∧
    x.destroyedBy = [d] ∧ ∃ r, R.behind x.handle = some r ∧ key r.payload = key x.payload
  kept : ∀ x ∈ R, (x.destroyedBy = [] → ¬handles x.handle) → x ∈ T
  other : ∀ k, ¬handles k → T.behind k = R.behind k
  self : ∀ k, handles k → ∃ r, T.behind k = some r ∧ r.destroyedBy = [d]

theorem Destroys.none (hok : R.Ok) (hno : ∀ k, ¬first k) : Destroys key R R first d :=
  ⟨hok,fun x hx => .inl ⟨hx,fun _ => hno x.handle⟩,fun _ hx _ => hx,fun _ _ => rfl,
    fun k hk => absurd hk (hno k)⟩

variable (key) in
theorem Destroys.one (hok : R.Ok) (hr : R.behind h = some r) (halive : r.destroyedBy = [])
    (hhandle : ∀ x, (f x).handle = x.handle) (hdead : ∀ x, (f x).destroyedBy = x.destroyedBy ++ [d])
    (hkey : ∀ x, key x.payload = key (f x).payload) : Destroys key R (R.change f h) (h = ·) d := by
  obtain rfl := (mem_of_behind hr).2
  have hby : (f r).destroyedBy = [d] := by
    rw [hdead, halive]
    rfl
  refine ⟨hok.change hhandle fun x _ hc => ?_,fun x hx => ?_,fun x hx hnot => ?_,
    fun k hk => behind_change_ne hhandle fun hc => hk hc.symm,?_⟩
  · rw [hdead] at hc
    exact List.cons_ne_nil _ _ (List.append_eq_nil_iff.1 hc).2
  · rcases (hok.mem_change_iff hr halive).1 hx with rfl | ⟨hx,hne⟩
    · exact .inr ⟨(hhandle r).symm,hby,r,hhandle r ▸ hr,hkey r⟩
    · refine .inl ⟨hx,fun hxalive hc => hne ?_⟩
      have hbehind := hok.behind_of_alive hx hxalive
      rw [← hc, hr] at hbehind
      exact (Option.some.inj hbehind).symm
  · refine (hok.mem_change_iff hr halive).2 (.inr ⟨hx,?_⟩)
    rintro rfl
    exact hnot halive rfl
  · rintro k rfl
    exact ⟨f r,(behind_change_self hhandle).trans (congrArg (Option.map f) hr),hby⟩

theorem Destroys.trans (h : Destroys key R S first d) (h' : Destroys key S T second d)
    (hdisj : ∀ k, first k → ¬second k) : Destroys key R T (fun k => first k ∨ second k) d := by
  refine ⟨h'.ok,fun x hx => ?_,fun x hx hnot => ?_,fun k hk => ?_,fun k hk => ?_⟩
  · rcases h'.mem x hx with ⟨hxS,hnot⟩ | ⟨hk,hby,r,hr,hkey⟩
    · rcases h.mem x hxS with ⟨hxR,hnot'⟩ | ⟨hk,hby,hr⟩
      · exact .inl ⟨hxR,fun halive => not_or.2 ⟨hnot' halive,hnot halive⟩⟩
      · exact .inr ⟨.inl hk,hby,hr⟩
    · exact .inr ⟨.inr hk,hby,r,(h.other _ fun hc => hdisj _ hc hk).symm.trans hr,hkey⟩
  · have hkept := h.kept x hx fun halive => (not_or.1 (hnot halive)).1
    exact h'.kept x hkept fun halive => (not_or.1 (hnot halive)).2
  · obtain ⟨hk,hk'⟩ := not_or.1 hk
    exact (h'.other k hk').trans (h.other k hk)
  · rcases hk with hk | hk
    · obtain ⟨r,hr,hby⟩ := h.self k hk
      exact ⟨r,(h'.other k (hdisj k hk)).trans hr,hby⟩
    · exact h'.self k hk

/-- Resources are made behind some handles, with payloads as `new` says. -/
structure Creates (R T : Resources H P D) (handles : H → Prop) (new : H → P → Prop) : Prop where
  ok : T.Ok
  mem : ∀ x ∈ T, x ∈ R ∨ handles x.handle ∧ x.destroyedBy = [] ∧ new x.handle x.payload
  kept : ∀ x ∈ R, x ∈ T
  other : ∀ k, ¬handles k → T.behind k = R.behind k
  self : ∀ k, handles k → ∃ r, T.behind k = some r ∧ r.destroyedBy = [] ∧ new k r.payload

theorem Creates.none {new : H → P → Prop} (hok : R.Ok) (hno : ∀ k, ¬first k) :
    Creates R R first new :=
  ⟨hok,fun _ hx => .inl hx,fun _ hx => hx,fun _ _ => rfl,fun k hk => absurd hk (hno k)⟩

theorem Creates.one (new : H → P → Prop) (hok : R.Ok) (hfree : R.Free h) (hnew : new h p) :
    Creates R (R.create h p) (h = ·) new := by
  refine ⟨hok.create hfree,fun x hx => ?_,fun x hx => List.mem_cons_of_mem _ hx,
    fun k hk => behind_create_ne fun hc => hk hc.symm,?_⟩
  · rcases List.mem_cons.1 hx with rfl | hx
    · exact .inr ⟨rfl,rfl,hnew⟩
    · exact .inl hx
  · rintro k rfl
    exact ⟨_,behind_create_self,rfl,hnew⟩

theorem Creates.trans {new : H → P → Prop} (h : Creates R S first new) (h' : Creates S T second new)
    (hdisj : ∀ k, first k → ¬second k) : Creates R T (fun k => first k ∨ second k) new := by
  refine ⟨h'.ok,fun x hx => ?_,fun x hx => h'.kept x (h.kept x hx),fun k hk => ?_,fun k hk => ?_⟩
  · rcases h'.mem x hx with hxS | ⟨hk,hx⟩
    · rcases h.mem x hxS with hxR | ⟨hk,hx⟩
      · exact .inl hxR
      · exact .inr ⟨.inl hk,hx⟩
    · exact .inr ⟨.inr hk,hx⟩
  · obtain ⟨hk,hk'⟩ := not_or.1 hk
    exact (h'.other k hk').trans (h.other k hk)
  · rcases hk with hk | hk
    · obtain ⟨r,hr,hx⟩ := h.self k hk
      exact ⟨r,(h'.other k (hdisj k hk)).trans hr,hx⟩
    · exact h'.self k hk

/-- What has been made behind free handles and destroyed again leaves the other resources. -/
theorem Creates.undone {new : H → P → Prop} (h : Creates R S first new) (h' : Destroys key S T first d)
    (hok : R.Ok) (hfree : ∀ k, first k → R.Free k) :
    (∀ x ∈ R, x ∈ T) ∧ ∀ x ∈ T, x ∈ R ∨
      x.destroyedBy = [d] ∧ ∃ p, new x.handle p ∧ key p = key x.payload := by
  refine ⟨fun x hx => h'.kept x (h.kept x hx) fun halive hk =>
    hfree _ hk x (hok.behind_of_alive hx halive) halive,fun x hx => ?_⟩
  rcases h'.mem x hx with ⟨hxS,hnot⟩ | ⟨hk,hby,r,hr,hkey⟩
  · rcases h.mem x hxS with hxR | ⟨hk,halive,-⟩
    · exact .inl hxR
    · exact absurd hk (hnot halive)
  · obtain ⟨r',hr',-,hnew⟩ := h.self _ hk
    obtain rfl := Option.some.inj (hr.symm.trans hr')
    exact .inr ⟨hby,r.payload,hnew,hkey⟩

end

end Resources
end EmOdp.Lib
