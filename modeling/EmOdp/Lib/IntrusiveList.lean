import Mathlib.Data.List.Nodup
import Mathlib.Logic.Function.Basic

/-! Circular doubly linked lists threaded through the `next` and `prev` fields of nodes
that many lists share. -/
namespace EmOdp.Lib
variable {N : Type*}

/-- The link fields of all nodes. -/
@[ext] structure Links (N : Type*) where
  next : N → N
  prev : N → N

namespace Links

/-- A chain of nodes from `a` through the list to `b`, linked both ways. -/
def Linked (l : Links N) : N → List N → N → Prop
  | a, [], b => l.next a = b ∧ l.prev b = a
  | a, x :: xs, b => l.next a = x ∧ l.prev x = a ∧ Linked l x xs b

/-- The nodes after `head`, which closes the circle; no node occurs twice. -/
structure Ring (l : Links N) (head : N) (xs : List N) : Prop where
  linked : l.Linked head xs head
  nodup : (head :: xs).Nodup

/-- The node is linked to itself only. -/
structure Single (l : Links N) (n : N) : Prop where
  next : l.next n = n
  prev : l.prev n = n

variable {l m : Links N} {a b n head : N} {xs ys : List N}

theorem linked_append : l.Linked a (xs ++ n :: ys) b ↔ l.Linked a xs n ∧ l.Linked n ys b := by
  induction xs generalizing a with
  | nil => simp [Linked, and_assoc]
  | cons x xs ih => simp [Linked, ih, and_assoc]

/-- Only the links between the nodes of a chain matter. -/
theorem Linked.congr (h : l.Linked a xs b) (hnext : ∀ n ∈ a :: xs, m.next n = l.next n)
    (hprev : ∀ n ∈ xs ++ [b], m.prev n = l.prev n) : m.Linked a xs b := by
  induction xs generalizing a with
  | nil => exact ⟨by rw [hnext a (by simp), h.1],by rw [hprev b (by simp), h.2]⟩
  | cons x xs ih =>
    obtain ⟨ha,hx,htail⟩ := h
    refine ⟨by rw [hnext a (by simp), ha],by rw [hprev x (by simp), hx],ih htail ?_ ?_⟩
    · exact fun n hn => hnext n (List.mem_cons_of_mem _ hn)
    · exact fun n hn => hprev n (List.mem_cons_of_mem _ hn)

theorem Ring.congr (h : l.Ring head xs) (hnext : ∀ n ∈ head :: xs, m.next n = l.next n)
    (hprev : ∀ n ∈ head :: xs, m.prev n = l.prev n) : m.Ring head xs := by
  refine ⟨h.linked.congr hnext fun n hn => hprev n ?_,h.nodup⟩
  simpa [or_comm] using hn

theorem Linked.next_mem (h : l.Linked a xs b) : ∀ n ∈ a :: xs, l.next n ∈ xs ++ [b] := by
  induction xs generalizing a with
  | nil => simpa using h.1
  | cons x xs ih =>
    obtain ⟨ha,-,htail⟩ := h
    rintro n (_ | ⟨_,hn⟩)
    · simp [ha]
    · exact List.mem_cons_of_mem _ (ih htail n hn)

theorem Linked.prev_mem (h : l.Linked a xs b) : ∀ n ∈ xs ++ [b], l.prev n ∈ a :: xs := by
  induction xs generalizing a with
  | nil => simpa using h.2
  | cons x xs ih =>
    obtain ⟨-,hx,htail⟩ := h
    rintro n (_ | ⟨_,hn⟩)
    · simp [hx]
    · exact List.mem_cons_of_mem _ (ih htail n hn)

theorem Linked.next_prev (h : l.Linked a xs b) : ∀ n ∈ xs ++ [b], l.next (l.prev n) = n := by
  induction xs generalizing a with
  | nil => simp [h.1, h.2]
  | cons x xs ih =>
    obtain ⟨ha,hx,htail⟩ := h
    rintro n (_ | ⟨_,hn⟩)
    · rw [hx, ha]
    · exact ih htail n hn

theorem Linked.prev_next (h : l.Linked a xs b) : ∀ n ∈ a :: xs, l.prev (l.next n) = n := by
  induction xs generalizing a with
  | nil => simp [h.1, h.2]
  | cons x xs ih =>
    obtain ⟨ha,hx,htail⟩ := h
    rintro n (_ | ⟨_,hn⟩)
    · rw [ha, hx]
    · exact ih htail n hn

/-- A chain to `n` leads to `b` where the links of its last node are set to `b`. -/
theorem Linked.redirect (h : l.Linked a xs n) (hnd : (a :: xs).Nodup)
    (hnext : ∀ x ∈ a :: xs, x ≠ l.prev n → m.next x = l.next x)
    (hprev : ∀ x ∈ xs, m.prev x = l.prev x) (hlast : m.next (l.prev n) = b)
    (hb : m.prev b = l.prev n) : m.Linked a xs b := by
  induction xs generalizing a with
  | nil =>
    rw [h.2] at hlast hb
    exact ⟨hlast,hb⟩
  | cons x xs ih =>
    obtain ⟨ha,hx,htail⟩ := h
    obtain ⟨hmem,hnd⟩ := List.nodup_cons.1 hnd
    have hne : a ≠ l.prev n := fun he => hmem (he ▸ htail.prev_mem n (by simp))
    refine ⟨by rw [hnext a (by simp) hne, ha],by rw [hprev x (by simp), hx],?_⟩
    refine ih htail hnd (fun y hy => hnext y (List.mem_cons_of_mem _ hy)) fun y hy => ?_
    exact hprev y (List.mem_cons_of_mem _ hy)

theorem Ring.next_mem (h : l.Ring head xs) (hn : n ∈ head :: xs) : l.next n ∈ head :: xs := by
  have := h.linked.next_mem n hn
  simpa [or_comm] using this

theorem Ring.prev_mem (h : l.Ring head xs) (hn : n ∈ head :: xs) : l.prev n ∈ head :: xs := by
  have hn' : n ∈ xs ++ [head] := by simpa [or_comm] using hn
  exact h.linked.prev_mem n hn'

theorem Ring.next_prev (h : l.Ring head xs) (hn : n ∈ head :: xs) : l.next (l.prev n) = n := by
  have hn' : n ∈ xs ++ [head] := by simpa [or_comm] using hn
  exact h.linked.next_prev n hn'

theorem Ring.prev_next (h : l.Ring head xs) (hn : n ∈ head :: xs) : l.prev (l.next n) = n :=
  h.linked.prev_next n hn

variable [DecidableEq N]

/-- `list_init` -/
def init (l : Links N) (head : N) : Links N :=
  ⟨Function.update l.next head head,Function.update l.prev head head⟩

/-- `list_is_empty` -/
def isEmpty (l : Links N) (head : N) : Bool := l.next head = head

/-- `list_add`: the node becomes the last one. -/
def add (l : Links N) (head node : N) : Links N :=
  let prev := l.prev head
  { next := Function.update (Function.update l.next node head) prev node
    prev := Function.update (Function.update l.prev node prev) head node }

/-- `list_rem`: the node is linked to itself. -/
def rem (l : Links N) (node : N) : Links N :=
  let next := l.next node
  let prev := l.prev node
  { next := Function.update (Function.update l.next prev next) node node
    prev := Function.update (Function.update l.prev next prev) node node }

/-- `list_rem_first`: the first node, and the links without it. -/
def remFirst (l : Links N) (head : N) : Option (N × Links N) :=
  if l.isEmpty head then none else some (l.next head,l.rem (l.next head))

theorem ring_init (l : Links N) (head : N) : (l.init head).Ring head [] :=
  ⟨by simp [Linked, init],by simp⟩

theorem init_of_not_mem (h : l.Ring head xs) (hn : n ∉ head :: xs) : (l.init n).Ring head xs :=
  have hne : ∀ x ∈ head :: xs, x ≠ n := fun _ hx he => hn (he ▸ hx)
  h.congr (fun _ hx => Function.update_of_ne (hne _ hx) _ _)
    fun _ hx => Function.update_of_ne (hne _ hx) _ _

omit [DecidableEq N] in
private theorem Linked.next_head (h : l.Linked a xs b) : l.next a = (xs ++ [b]).head (by simp) := by
  cases xs with
  | nil => exact h.1
  | cons x xs => exact h.1

theorem Ring.isEmpty_iff (h : l.Ring head xs) : l.isEmpty head = true ↔ xs = [] := by
  rw [isEmpty, decide_eq_true_iff, h.linked.next_head]
  cases xs with
  | nil => simp
  | cons x xs =>
    have hne : head ≠ x := fun he => by simpa [he] using h.nodup
    simpa using hne.symm

theorem Ring.remFirst_nil (h : l.Ring head []) : l.remFirst head = none :=
  if_pos (h.isEmpty_iff.2 rfl)

theorem Ring.remFirst_cons (h : l.Ring head (n :: xs)) : l.remFirst head = some (n,l.rem n) := by
  have hne : ¬l.isEmpty head = true := fun he => List.cons_ne_nil n xs (h.isEmpty_iff.1 he)
  rw [remFirst, if_neg hne, h.linked.1]

omit [DecidableEq N] in
private theorem nodup_concat_iff : (xs ++ [n]).Nodup ↔ xs.Nodup ∧ n ∉ xs := by
  rw [← List.concat_eq_append, List.nodup_concat]
  exact and_comm

theorem Ring.add (h : l.Ring head xs) (hn : n ∉ head :: xs) :
    (l.add head n).Ring head (xs ++ [n]) := by
  have hne : n ≠ head := fun he => hn (by simp [he])
  have hnp : n ≠ l.prev head := fun he => hn (he ▸ h.prev_mem (by simp))
  refine ⟨linked_append.2 ⟨?_,?_⟩,?_⟩
  · rcases List.eq_nil_or_concat' xs with rfl | ⟨ys,y,rfl⟩
    · have hhead := h.linked.2
      simp [Linked, Links.add, hhead, hne]
    -- the last node is linked to the new one instead of the head
    obtain ⟨hinit,-,hy⟩ := linked_append.1 h.linked
    have hnodup : ((head :: ys) ++ [y]).Nodup := h.nodup
    have hlast : y ∉ head :: ys := (nodup_concat_iff.1 hnodup).2
    have hhead : head ∉ ys ++ [y] := (List.nodup_cons.1 h.nodup).1
    refine linked_append.2 ⟨hinit.congr ?_ ?_,?_⟩
    · intro x hx
      have hxn : x ≠ n := fun he => hn (by rw [← he]; exact List.mem_append_left [y] hx)
      have hxy : x ≠ y := fun he => hlast (he ▸ hx)
      simp [Links.add, hy, hxn, hxy]
    · intro x hx
      have hxn : x ≠ n := fun he => hn (by rw [← he]; exact List.mem_cons_of_mem _ hx)
      have hxh : x ≠ head := fun he => hhead (he ▸ hx)
      simp [Links.add, hxn, hxh]
    · simp [Linked, Links.add, hy, hne]
  · simp [Linked, Links.add, hnp]
  · rw [← List.cons_append]
    exact nodup_concat_iff.2 ⟨h.nodup,hn⟩

/-- Another ring is not touched by `list_add`. -/
theorem Ring.add_other {other : N} {zs : List N} (h : l.Ring head xs) (ho : l.Ring other zs)
    (hhead : head ∉ other :: zs) (hn : n ∉ other :: zs) : (l.add head n).Ring other zs := by
  have hprev : l.prev head ∉ other :: zs := fun hmem => by
    have hnext := ho.next_mem hmem
    rw [h.next_prev (by simp)] at hnext
    exact hhead hnext
  have hne {x y : N} (hx : x ∈ other :: zs) (hy : y ∉ other :: zs) : x ≠ y :=
    fun he => hy (he ▸ hx)
  refine ho.congr (fun x hx => ?_) fun x hx => ?_
  · simp [Links.add, hne hx hn, hne hx hprev]
  · simp [Links.add, hne hx hn, hne hx hhead]

theorem Ring.rem (h : l.Ring head (xs ++ n :: ys)) : (l.rem n).Ring head (xs ++ ys) := by
  obtain ⟨hxs,hys⟩ := linked_append.1 h.linked
  have hnd := h.nodup
  rw [← List.cons_append, List.nodup_append'] at hnd
  obtain ⟨hndx,hndn,hdisj⟩ := hnd
  obtain ⟨hn,hndy⟩ := List.nodup_cons.1 hndn
  have hprev : l.prev n ∈ head :: xs := hxs.prev_mem n (by simp)
  have hne {x : N} (hx : x ∈ head :: xs) : x ≠ n := fun he => hdisj hx (by simp [he])
  have hnodup : (head :: (xs ++ ys)).Nodup := by
    rw [← List.cons_append, List.nodup_append']
    exact ⟨hndx,hndy,fun x hx hy => hdisj hx (List.mem_cons_of_mem _ hy)⟩
  refine ⟨?_,hnodup⟩
  cases ys with
  | nil =>
    obtain ⟨hnext,-⟩ := hys
    rw [List.append_nil]
    refine hxs.redirect hndx (fun x hx hxp => ?_) (fun x hx => ?_) ?_ ?_
    · simp [Links.rem, hne hx, hxp]
    · have hxh : x ≠ head := fun he => (List.nodup_cons.1 hndx).1 (he ▸ hx)
      simp [Links.rem, hnext, hne (List.mem_cons_of_mem _ hx), hxh]
    · simp [Links.rem, hnext, hne hprev]
    · simp [Links.rem, hnext, hne (by simp : head ∈ head :: xs)]
  | cons y ys =>
    obtain ⟨hnext,-,htail⟩ := hys
    have hyn : y ≠ n := fun he => hn (by simp [he])
    have hother {x : N} (hx : x ∈ head :: xs) {z : N} (hz : z ∈ y :: ys) : x ≠ z :=
      fun he => hdisj hx (he ▸ List.mem_cons_of_mem _ hz)
    refine linked_append.2 ⟨?_,htail.congr (fun z hz => ?_) fun z hz => ?_⟩
    · refine hxs.redirect hndx (fun x hx hxp => ?_) (fun x hx => ?_) ?_ ?_
      · simp [Links.rem, hne hx, hxp]
      · have hx' := List.mem_cons_of_mem head hx
        simp [Links.rem, hnext, hne hx', hother hx' (List.mem_cons_self (a := y))]
      · simp [Links.rem, hnext, hne hprev]
      · simp [Links.rem, hnext, hyn]
    · have hzn : z ≠ n := fun he => hn (he ▸ hz)
      simp [Links.rem, hzn, (hother hprev hz).symm]
    · have hzy : z ≠ y ∧ z ≠ n := by
        rcases List.mem_append.1 hz with hz | hz
        · refine ⟨fun he => (List.nodup_cons.1 hndy).1 (he ▸ hz),fun he => hn ?_⟩
          rw [← he]
          exact List.mem_cons_of_mem _ hz
        · rw [List.mem_singleton] at hz
          rw [hz]
          exact ⟨hother (by simp) (by simp),hne (by simp)⟩
      simp [Links.rem, hnext, hzy.1, hzy.2]

/-- Another ring is not touched by `list_rem`. -/
theorem Ring.rem_other {other : N} {zs : List N} (h : l.Ring head xs) (hmem : n ∈ head :: xs)
    (ho : l.Ring other zs) (hn : n ∉ other :: zs) : (l.rem n).Ring other zs := by
  have hprev : l.prev n ∉ other :: zs := fun hp => by
    have hback := ho.next_mem hp
    rw [h.next_prev hmem] at hback
    exact hn hback
  have hnext : l.next n ∉ other :: zs := fun hp => by
    have hback := ho.prev_mem hp
    rw [h.prev_next hmem] at hback
    exact hn hback
  have hne {x y : N} (hx : x ∈ other :: zs) (hy : y ∉ other :: zs) : x ≠ y :=
    fun he => hy (he ▸ hx)
  refine ho.congr (fun x hx => ?_) fun x hx => ?_
  · simp [Links.rem, hne hx hn, hne hx hprev]
  · simp [Links.rem, hne hx hn, hne hx hnext]

theorem Single.rem (h : l.Single n) : l.rem n = l := by
  ext x
  · simp [Links.rem, h.next, h.prev, Function.update_apply]
    rintro rfl
    exact h.next.symm
  · simp [Links.rem, h.next, h.prev, Function.update_apply]
    rintro rfl
    exact h.prev.symm

end Links
end EmOdp.Lib
