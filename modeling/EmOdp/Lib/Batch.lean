import Mathlib.Algebra.GroupWithZero.Nat
import Mathlib.Data.List.Forall2

/-! Batches of which a prefix is handed over and the rest is rolled back, element by
element, with operations that may fail. -/
namespace EmOdp.Lib.Batch
variable {α β γ ε : Type*}

/-- `f` on the elements from index `n` on. -/
def mapFrom (f : β → Except ε β) (n : Nat) (tbl : List β) : Except ε (List β) :=
  ((tbl.drop n).mapM f).map (tbl.take n ++ ·)

/-- Where no element fails, the results are related one by one. -/
theorem mapM_forall₂ {f : α → Except ε β} {R : α → β → Prop} {xs : List α}
    (h : ∀ x ∈ xs, ∃ y, f x = .ok y ∧ R x y) :
    ∃ ys, xs.mapM f = .ok ys ∧ List.Forall₂ R xs ys := by
  induction xs with
  | nil => exact ⟨[],rfl,.nil⟩
  | cons x xs ih =>
    obtain ⟨y,hy,hr⟩ := h x (by simp)
    obtain ⟨ys,hys,hrs⟩ := ih fun z hz => h z (List.mem_cons_of_mem _ hz)
    refine ⟨y :: ys,?_,.cons hr hrs⟩
    rw [List.mapM_cons, hy, hys]
    rfl

theorem forall₂_mapM {f : α → Except ε β} {xs : List α} {ys : List β} (h : xs.mapM f = .ok ys) :
    List.Forall₂ (fun x y => f x = .ok y) xs ys := by
  induction xs generalizing ys with
  | nil =>
    cases h
    exact .nil
  | cons x xs ih =>
    rw [List.mapM_cons] at h
    cases hx : f x with
    | error e =>
      rw [hx] at h
      cases h
    | ok y =>
      cases hxs : xs.mapM f with
      | error e =>
        rw [hx, hxs] at h
        cases h
      | ok ys =>
        rw [hx, hxs] at h
        cases h
        exact .cons hx (ih hxs)

/-- Each result comes from an element. -/
theorem mapM_mem {f : α → Except ε β} {xs : List α} {ys : List β} {y : β} (h : xs.mapM f = .ok ys)
    (hy : y ∈ ys) : ∃ x ∈ xs, f x = .ok y := by
  have hall := forall₂_mapM h
  clear h
  induction hall with
  | nil => cases hy
  | @cons x _ xs _ hx _ ih =>
    rcases List.mem_cons.1 hy with rfl | hy
    · exact ⟨x,List.mem_cons_self,hx⟩
    · obtain ⟨x',hmem,hx'⟩ := ih hy
      exact ⟨x',List.mem_cons_of_mem _ hmem,hx'⟩

theorem mapFrom_length {f : β → Except ε β} {n : Nat} {tbl tbl' : List β}
    (h : mapFrom f n tbl = .ok tbl') : tbl'.length = tbl.length := by
  unfold mapFrom at h
  cases hrest : (tbl.drop n).mapM f with
  | error e =>
    rw [hrest] at h
    cases h
  | ok rest =>
    rw [hrest] at h
    cases h
    rw [List.length_append, ← (forall₂_mapM hrest).length_eq, ← List.length_append,
      List.take_append_drop]

theorem forall₂_trans {R : α → β → Prop} {S : β → γ → Prop} {T : α → γ → Prop} {xs : List α}
    {ys : List β} {zs : List γ} (hxy : List.Forall₂ R xs ys) (hyz : List.Forall₂ S ys zs)
    (h : ∀ x y z, R x y → S y z → T x z) : List.Forall₂ T xs zs := by
  induction hxy generalizing zs with
  | nil =>
    cases hyz
    exact .nil
  | cons hr _ ih =>
    cases hyz with
    | cons hs hss => exact .cons (h _ _ _ hr hs) (ih hss)

theorem forall₂_mem_left {R : α → β → Prop} {xs : List α} {ys : List β} {x : α}
    (h : List.Forall₂ R xs ys) (hx : x ∈ xs) : ∃ y ∈ ys, R x y := by
  induction h with
  | nil => cases hx
  | @cons x' y' _ _ hr _ ih =>
    rcases List.mem_cons.1 hx with rfl | hx
    · exact ⟨y',List.mem_cons_self,hr⟩
    · obtain ⟨y,hy,hr⟩ := ih hx
      exact ⟨y,List.mem_cons_of_mem _ hy,hr⟩

theorem forall₂_mem_right {R : α → β → Prop} {xs : List α} {ys : List β} {y : β}
    (h : List.Forall₂ R xs ys) (hy : y ∈ ys) : ∃ x ∈ xs, R x y :=
  forall₂_mem_left h.flip hy

/-- The first `n` elements of the batch `xs` were handed over as `out` and not touched any
more, the others were kept; `tbl` is the batch afterwards. -/
structure Split (handed kept : α → β → Prop) (xs : List α) (n : Int) (out tbl : List β) :
    Prop where
  nonneg : 0 ≤ n
  le : n ≤ xs.length
  length : tbl.length = xs.length
  untouched : tbl.take n.toNat = out
  handed : List.Forall₂ handed (xs.take n.toNat) out
  kept : List.Forall₂ kept (xs.drop n.toNat) (tbl.drop n.toNat)

namespace Split
variable {handed kept : α → β → Prop} {xs : List α} {n : Int} {out tbl : List β}

/-- Nothing is handed over. -/
theorem none (h : List.Forall₂ kept xs tbl) : Split handed kept xs 0 [] tbl :=
  ⟨Int.le_refl _,by simp,h.length_eq.symm,rfl,.nil,h⟩

/-- A prefix of the prepared batch is handed over. -/
theorem prefix_of (hn : 0 ≤ n) (hle : n ≤ xs.length) (hh : List.Forall₂ handed xs tbl)
    (hk : List.Forall₂ kept xs tbl) : Split handed kept xs n (tbl.take n.toNat) tbl :=
  ⟨hn,hle,hh.length_eq.symm,rfl,List.forall₂_take _ hh,List.forall₂_drop _ hk⟩

/-- A call that reports fewer elements than asked for, or an error, handed over the ones that
it reports. -/
theorem clamped {ret : Int} (hret : ret ≤ xs.length) (hn : n = max ret 0)
    (hh : List.Forall₂ handed xs tbl) (hk : List.Forall₂ kept xs tbl) :
    Split handed kept xs n (tbl.take ret.toNat) tbl := by
  have hnat : ret.toNat = n.toNat := by omega
  rw [hnat]
  exact prefix_of (by omega) (by omega) hh hk

/-- Where everything was handed over, nothing is said about the rest. -/
theorem full {kept' : α → β → Prop} (h : Split handed kept xs n out tbl) (hn : n = xs.length) :
    Split handed kept' xs n out tbl := by
  refine ⟨h.nonneg,h.le,h.length,h.untouched,h.handed,?_⟩
  have hnat : n.toNat = xs.length := by omega
  rw [List.drop_of_length_le (by omega), List.drop_of_length_le (by rw [h.length]; omega)]
  exact .nil

theorem imp {handed' kept' : α → β → Prop} (h : Split handed kept xs n out tbl)
    (hh : ∀ x y, handed x y → handed' x y) (hk : ∀ x y, kept x y → kept' x y) :
    Split handed' kept' xs n out tbl :=
  ⟨h.nonneg,h.le,h.length,h.untouched,h.handed.imp hh,h.kept.imp hk⟩

/-- The batch was prepared before, element by element. -/
theorem prepared {R : γ → α → Prop} {handed' kept' : γ → β → Prop} {zs : List γ}
    (h : Split handed kept xs n out tbl) (hr : List.Forall₂ R zs xs)
    (hh : ∀ z x y, R z x → handed x y → handed' z y) (hk : ∀ z x y, R z x → kept x y → kept' z y) :
    Split handed' kept' zs n out tbl := by
  refine ⟨h.nonneg,by rw [hr.length_eq]; exact h.le,by rw [hr.length_eq]; exact h.length,h.untouched,
    forall₂_trans (List.forall₂_take _ hr) h.handed hh,
    forall₂_trans (List.forall₂_drop _ hr) h.kept hk⟩

/-- What was not handed over is rolled back. -/
theorem rollback {kept' : α → β → Prop} {f : β → Except ε β} (h : Split handed kept xs n out tbl)
    (hf : ∀ x y, kept x y → ∃ z, f y = .ok z ∧ kept' x z) :
    ∃ tbl', mapFrom f n.toNat tbl = .ok tbl' ∧ Split handed kept' xs n out tbl' := by
  have hback : ∀ zs : List α, ∀ ys, List.Forall₂ kept zs ys →
      ∃ ys', ys.mapM f = .ok ys' ∧ List.Forall₂ kept' zs ys' := by
    intro zs ys hzs
    induction hzs with
    | nil => exact ⟨[],rfl,.nil⟩
    | cons hzy _ ih =>
      obtain ⟨y',hy',hk⟩ := hf _ _ hzy
      obtain ⟨ys',hys',hks⟩ := ih
      refine ⟨y' :: ys',?_,.cons hk hks⟩
      rw [List.mapM_cons, hy', hys']
      rfl
  obtain ⟨rest,hrest,hk⟩ := hback _ _ h.kept
  have hlen : (tbl.take n.toNat).length = n.toNat := by
    have hle := h.le
    rw [List.length_take, h.length]
    omega
  refine ⟨tbl.take n.toNat ++ rest,by rw [mapFrom, hrest]; rfl,h.nonneg,h.le,?_,?_,h.handed,?_⟩
  · have hrestlen := hk.length_eq
    rw [List.length_append, hlen, ← hrestlen, List.length_drop]
    have hle := h.le
    omega
  · rw [List.take_left' hlen, h.untouched]
  · rw [List.drop_left' hlen]
    exact hk

end Split
end EmOdp.Lib.Batch
