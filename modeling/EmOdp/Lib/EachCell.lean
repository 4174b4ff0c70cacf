import Mathlib.Data.List.Forall2
import Mathlib.Logic.Function.Basic

/-! A list of handles, each worked on in turn at the cell of a memory that it points at. Over distinct
cells the loop is the work at each cell alone. -/
namespace EmOdp.Lib
variable {ι α σ ε : Type*} [DecidableEq ι] {addr : α → ι} {f : α → σ → Except ε (α × σ)} {xs ys : List α}
  {m n : ι → σ}

/-- Replaces each handle and the contents of its cell; an error ends the loop. -/
def eachCell (addr : α → ι) (f : α → σ → Except ε (α × σ)) : List α → (ι → σ) → Except ε (List α × (ι → σ))
  | [], m => .ok ([],m)
  | x :: xs, m => (f x (m (addr x))).bind fun r =>
    (eachCell addr f xs (Function.update m (addr x) r.2)).map fun rest => (r.1 :: rest.1,rest.2)

theorem eachCell_cons_iff {x : α} : eachCell addr f (x :: xs) m = .ok (ys,n) ↔ ∃ r zs,
    f x (m (addr x)) = .ok r ∧ ys = r.1 :: zs ∧
      eachCell addr f xs (Function.update m (addr x) r.2) = .ok (zs,n) := by
  rw [eachCell]
  cases f x (m (addr x)) with
  | error e => simp [Except.bind]
  | ok r =>
    cases hrest : eachCell addr f xs (Function.update m (addr x) r.2) with
    | error e => simp [Except.bind, Except.map, hrest]
    | ok rest => simp [Except.bind, Except.map, hrest, Prod.ext_iff, eq_comm]

private theorem forall₂_congr_mem {R S : α → α → Prop} (h : ∀ x ∈ xs, ∀ y, R x y ↔ S x y) :
    List.Forall₂ R xs ys ↔ List.Forall₂ S xs ys := by
  induction xs generalizing ys with
  | nil => simp only [List.forall₂_nil_left_iff]
  | cons x xs ih =>
    simp only [List.forall₂_cons_left_iff, h x List.mem_cons_self,
      ih fun z hz => h z (List.mem_cons_of_mem _ hz)]

private theorem update_other {x z : α} (hx : addr x ∉ xs.map addr) (hz : z ∈ xs) (s : σ) :
    Function.update m (addr x) s (addr z) = m (addr z) :=
  Function.update_of_ne (fun h : addr z = addr x => hx (h ▸ List.mem_map_of_mem hz)) _ _

theorem eachCell_eq_ok_iff (hnodup : (xs.map addr).Nodup) : eachCell addr f xs m = .ok (ys,n) ↔
    List.Forall₂ (fun x y => f x (m (addr x)) = .ok (y,n (addr x))) xs ys ∧
      ∀ a, a ∉ xs.map addr → n a = m a := by
  induction xs generalizing ys m with
  | nil =>
    simp only [eachCell, Except.ok.injEq, Prod.mk.injEq, List.forall₂_nil_left_iff, List.map_nil,
      List.not_mem_nil, not_false_iff, true_implies]
    exact and_congr eq_comm ⟨fun h a => (congrFun h a).symm,fun h => funext fun a => (h a).symm⟩
  | cons x xs ih =>
    rw [List.map_cons, List.nodup_cons] at hnodup
    have hrest (s : σ) (zs : List α) :
        List.Forall₂ (fun z y => f z (Function.update m (addr x) s (addr z)) = .ok (y,n (addr z))) xs zs ↔
          List.Forall₂ (fun z y => f z (m (addr z)) = .ok (y,n (addr z))) xs zs :=
      forall₂_congr_mem fun z hz y => by rw [update_other hnodup.1 hz]
    rw [eachCell_cons_iff]
    constructor
    · rintro ⟨r,zs,hr,rfl,h⟩
      obtain ⟨hall,hframe⟩ := (ih hnodup.2).1 h
      have hx : n (addr x) = r.2 := by rw [hframe _ hnodup.1, Function.update_self]
      refine ⟨.cons (by rw [hr, hx]) ((hrest r.2 zs).1 hall),fun a ha => ?_⟩
      rw [List.map_cons, List.mem_cons, not_or] at ha
      rw [hframe a ha.2, Function.update_of_ne ha.1]
    · rintro ⟨hall,hframe⟩
      cases hall with
      | @cons _ y _ zs hx hall =>
        refine ⟨(y,n (addr x)),zs,hx,rfl,(ih hnodup.2).2 ⟨(hrest _ zs).2 hall,fun a ha => ?_⟩⟩
        by_cases hax : a = addr x
        · rw [hax, Function.update_self]
        · rw [Function.update_of_ne hax, hframe a (by simp [hax, ha])]

/-- The loop comes to its end if no cell fails. -/
theorem eachCell_complete (hnodup : (xs.map addr).Nodup) (h : ∀ x ∈ xs, ∃ r, f x (m (addr x)) = .ok r) :
    ∃ r, eachCell addr f xs m = .ok r := by
  induction xs generalizing m with
  | nil => exact ⟨_,rfl⟩
  | cons x xs ih =>
    rw [List.map_cons, List.nodup_cons] at hnodup
    obtain ⟨r,hr⟩ := h x List.mem_cons_self
    obtain ⟨⟨zs,n⟩,hrest⟩ := @ih (Function.update m (addr x) r.2) hnodup.2 fun z hz => by
      rw [update_other hnodup.1 hz]
      exact h z (List.mem_cons_of_mem _ hz)
    exact ⟨_,eachCell_cons_iff.2 ⟨r,zs,hr,rfl,hrest⟩⟩

section RoundTrip
variable {g : α → σ → Except ε (α × σ)}

/-- Handles keep their cells. -/
theorem eachCell_addr (hf : ∀ x s r, f x s = .ok r → addr r.1 = addr x) (hnodup : (xs.map addr).Nodup)
    (h : eachCell addr f xs m = .ok (ys,n)) : ys.map addr = xs.map addr := by
  have hall := ((eachCell_eq_ok_iff hnodup).1 h).1
  generalize n = k at hall
  clear h hnodup
  induction hall with
  | nil => rfl
  | cons hx _ ih => rw [List.map_cons, List.map_cons, hf _ _ _ hx, ih]

/-- What `g` takes back at each cell, it takes back as a whole; `R` relates the contents of a cell
before and after. -/
theorem eachCell_back_iff {R : σ → σ → Prop} {P : α → Prop} (hrefl : ∀ s, R s s)
    (hf : ∀ x s r, f x s = .ok r → addr r.1 = addr x) (hg : ∀ x s r, g x s = .ok r → addr r.1 = addr x)
    (hnodup : (xs.map addr).Nodup)
    (hback : ∀ x ∈ xs, ∀ r, f x (m (addr x)) = .ok r →
      ((∃ back, g r.1 r.2 = .ok back ∧ R (m (addr x)) back.2 ∧ f back.1 back.2 = .ok r) ↔ P x))
    (h : eachCell addr f xs m = .ok (ys,n)) :
    (∃ back, eachCell addr g ys n = .ok back ∧ (∀ a, R (m a) (back.2 a)) ∧
      eachCell addr f back.1 back.2 = .ok (ys,n)) ↔ ∀ x ∈ xs, P x := by
  have haddr := eachCell_addr hf hnodup h
  obtain ⟨hall,hframe⟩ := (eachCell_eq_ok_iff hnodup).1 h
  have hnodup' : (ys.map addr).Nodup := haddr ▸ hnodup
  obtain ⟨hlen,hget⟩ := List.forall₂_iff_get.1 hall
  have hat (i : Nat) (hx : i < xs.length) (hy : i < ys.length) : addr (ys.get ⟨i,hy⟩) = addr (xs.get ⟨i,hx⟩) :=
    hf _ _ _ (hget i hx hy)
  constructor
  · rintro ⟨⟨zs,k⟩,hg',hR,hf'⟩ x hx
    have haddr' := eachCell_addr hg hnodup' hg'
    obtain ⟨hlen',hget'⟩ := List.forall₂_iff_get.1 ((eachCell_eq_ok_iff hnodup').1 hg').1
    obtain ⟨-,hget''⟩ := List.forall₂_iff_get.1 ((eachCell_eq_ok_iff (haddr' ▸ hnodup')).1 hf').1
    obtain ⟨⟨i,hi⟩,rfl⟩ := List.mem_iff_get.1 hx
    have hy : i < ys.length := hlen ▸ hi
    have hz : i < zs.length := hlen' ▸ hy
    have hzaddr := hg _ _ _ (hget' i hy hz)
    have hgi := hget' i hy hz
    have hfi := hget'' i hz hy
    rw [hzaddr, hat i hi hy] at hfi
    rw [hat i hi hy] at hgi
    exact (hback _ hx _ (hget i hi hy)).1 ⟨_,hgi,hR _,hfi⟩
  · intro hP
    have hall' : ∀ y ∈ ys, ∃ r, g y (n (addr y)) = .ok r := by
      intro y hy
      obtain ⟨⟨i,hi⟩,rfl⟩ := List.mem_iff_get.1 hy
      have hx : i < xs.length := hlen ▸ hi
      obtain ⟨back,hg',-⟩ := (hback _ (List.get_mem ..) _ (hget i hx hi)).2 (hP _ (List.get_mem ..))
      exact ⟨back,by rw [hat i hx hi, hg']⟩
    obtain ⟨⟨zs,k⟩,hg'⟩ := eachCell_complete hnodup' hall'
    have haddr' := eachCell_addr hg hnodup' hg'
    obtain ⟨hall'',hframe'⟩ := (eachCell_eq_ok_iff hnodup').1 hg'
    obtain ⟨hlen',hget'⟩ := List.forall₂_iff_get.1 hall''
    have hone (i : Nat) (hx : i < xs.length) (hy : i < ys.length) (hz : i < zs.length) :
        R (m (addr (xs.get ⟨i,hx⟩))) (k (addr (xs.get ⟨i,hx⟩))) ∧
          f (zs.get ⟨i,hz⟩) (k (addr (xs.get ⟨i,hx⟩))) = .ok (ys.get ⟨i,hy⟩,n (addr (xs.get ⟨i,hx⟩))) := by
      obtain ⟨back,hg'',hR,hf'⟩ := (hback _ (List.get_mem ..) _ (hget i hx hy)).2 (hP _ (List.get_mem ..))
      have hgi := hget' i hy hz
      rw [hat i hx hy] at hgi
      rw [hgi] at hg''
      cases hg''
      exact ⟨hR,hf'⟩
    refine ⟨(zs,k),hg',fun a => ?_,(eachCell_eq_ok_iff (haddr' ▸ hnodup')).2
      ⟨List.forall₂_iff_get.2 ⟨hlen'.symm,fun i hz hy => ?_⟩,fun a ha => (hframe' a (haddr' ▸ ha)).symm⟩⟩
    · by_cases ha : a ∈ xs.map addr
      · obtain ⟨x,hx,rfl⟩ := List.mem_map.1 ha
        obtain ⟨⟨i,hi⟩,rfl⟩ := List.mem_iff_get.1 hx
        exact (hone i hi (hlen ▸ hi) (hlen' ▸ hlen ▸ hi)).1
      · show R (m a) (k a)
        rw [hframe' a (haddr ▸ ha), hframe a ha]
        exact hrefl _
    · have hx : i < xs.length := hlen ▸ hy
      rw [hg _ _ _ (hget' i hy hz), hat i hx hy]
      exact (hone i hx hy hz).2

end RoundTrip
end EmOdp.Lib
