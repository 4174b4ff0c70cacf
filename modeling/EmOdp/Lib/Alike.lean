import EmOdp.Lib.Batch
import EmOdp.Lib.EachCell

/-! Two computations that fail in the same cases and otherwise have related results. Which error is
reported is not compared. -/
namespace EmOdp.Lib
variable {α β γ δ ε ι σ : Type*}

/-- Both fail, or both have results, and these are related. -/
def Alike (R : β → γ → Prop) : Except ε β → Except ε γ → Prop
  | .ok x, .ok y => R x y
  | .error _, .error _ => True
  | _, _ => False

namespace Alike
variable {R : β → γ → Prop}

@[elab_as_elim]
theorem elim {P : Except ε β → Except ε γ → Prop} {x : Except ε β} {y : Except ε γ} (h : Alike R x y)
    (error : ∀ e e', P (.error e) (.error e')) (ok : ∀ a b, R a b → P (.ok a) (.ok b)) : P x y := by
  cases x with
  | error e =>
    cases y with
    | error e' => exact error e e'
    | ok b => cases h
  | ok a =>
    cases y with
    | error e' => cases h
    | ok b => exact ok a b h

variable {x : Except ε β} {y : Except ε γ}

theorem bind {S : α → δ → Prop} {f : β → Except ε α} {g : γ → Except ε δ} (h : Alike R x y)
    (hfg : ∀ a b, R a b → Alike S (f a) (g b)) : Alike S (x.bind f) (y.bind g) :=
  h.elim (fun _ _ => trivial) hfg

theorem map {S : α → δ → Prop} {f : β → α} {g : γ → δ} (h : Alike R x y)
    (hfg : ∀ a b, R a b → S (f a) (g b)) : Alike S (x.map f) (y.map g) :=
  h.elim (fun _ _ => trivial) hfg

theorem map_right {S : β → δ → Prop} {g : γ → δ} (h : Alike R x y) (hg : ∀ a b, R a b → S a (g b)) :
    Alike S x (y.map g) :=
  h.elim (fun _ _ => trivial) hg

/-- With the same results on the left -/
theorem of_ok_iff {z : Except ε β} (hz : ∀ r, x = .ok r ↔ z = .ok r) (h : Alike R z y) : Alike R x y := by
  cases z with
  | ok a =>
    rw [(hz a).2 rfl]
    exact h
  | error e =>
    cases x with
    | ok a => cases (hz a).1 rfl
    | error e' =>
      cases y with
      | ok b => cases h
      | error e'' => trivial

end Alike

section EachCell
variable [DecidableEq ι] {addr : α → ι} {f g : α → σ → Except ε (α × σ)} {xs : List α} {m : ι → σ}

/-- A loop whose rounds do nothing -/
theorem eachCell_id (h : ∀ x ∈ xs, ∀ s, f x s = .ok (x,s)) : eachCell addr f xs m = .ok (xs,m) := by
  induction xs with
  | nil => rfl
  | cons x xs ih =>
    rw [eachCell, h x List.mem_cons_self, Except.bind, Function.update_eq_self,
      ih fun z hz => h z (List.mem_cons_of_mem _ hz)]
    rfl

theorem bind_ok_iff {x : Except ε β} {f : β → Except ε γ} {c : γ} :
    x.bind f = .ok c ↔ ∃ b, x = .ok b ∧ f b = .ok c := by
  cases x with
  | error e =>
    refine iff_of_false (by rintro ⟨⟩) ?_
    rintro ⟨_,⟨⟩,-⟩
  | ok b =>
    refine ⟨fun h => ⟨b,rfl,h⟩,?_⟩
    rintro ⟨_,⟨⟩,h⟩
    exact h

/-- Two loops, one after the other, do at each cell what one loop does. -/
theorem eachCell_fuse_iff {r : List α × (ι → σ)} (hf : ∀ x s r, f x s = .ok r → addr r.1 = addr x)
    (hnodup : (xs.map addr).Nodup) :
    (eachCell addr f xs m).bind (fun r => eachCell addr g r.1 r.2) = .ok r ↔
      eachCell addr (fun x s => (f x s).bind fun r => g r.1 r.2) xs m = .ok r := by
  obtain ⟨zs,k⟩ := r
  rw [bind_ok_iff, eachCell_eq_ok_iff hnodup]
  constructor
  · rintro ⟨⟨ys,n⟩,h,h'⟩
    have haddr := eachCell_addr hf hnodup h
    obtain ⟨hfirst,hframe⟩ := (eachCell_eq_ok_iff hnodup).1 h
    obtain ⟨hsecond,hframe'⟩ := (eachCell_eq_ok_iff (haddr ▸ hnodup)).1 h'
    refine ⟨Batch.forall₂_trans hfirst hsecond fun x y z hx hy => bind_ok_iff.2 ⟨_,hx,?_⟩,fun a ha => ?_⟩
    · rw [← hf _ _ _ hx]
      exact hy
    · exact (hframe' a (haddr ▸ ha)).trans (hframe a ha)
  · rintro ⟨hall,hframe⟩
    have hcomplete : ∀ x ∈ xs, ∃ r, f x (m (addr x)) = .ok r := by
      intro x hx
      obtain ⟨z,-,h⟩ := Batch.forall₂_mem_left hall hx
      obtain ⟨r,hr,-⟩ := bind_ok_iff.1 h
      exact ⟨r,hr⟩
    obtain ⟨⟨ys,n⟩,h⟩ := eachCell_complete hnodup hcomplete
    have haddr := eachCell_addr hf hnodup h
    obtain ⟨hfirst,hframe'⟩ := (eachCell_eq_ok_iff hnodup).1 h
    refine ⟨(ys,n),h,(eachCell_eq_ok_iff (haddr ▸ hnodup)).2
      ⟨Batch.forall₂_trans hfirst.flip hall fun y x z hx hz => ?_,fun a ha => ?_⟩⟩
    · obtain ⟨r,hr,hz⟩ := bind_ok_iff.1 hz
      cases hx.symm.trans hr
      rw [hf _ _ _ hx]
      exact hz
    · have ha' : a ∉ xs.map addr := haddr ▸ ha
      exact (hframe a ha').trans (hframe' a ha').symm

end EachCell
end EmOdp.Lib
