import EmOdp.Lib.TransitionSystem
import Mathlib.Data.List.Nodup
import Mathlib.Order.Nat

/-! Iterations over a table that changes between two reads of it. The thread keeps an index from
one call to the next. -/
namespace EmOdp.Lib

/-- The states of a run at the reads of one thread. -/
structure System.Sampled {S L : Type*} (M : System S L) (allowed : S → L → S → Prop) (w : Nat → S) :
    Prop where
  start : M.ReachableVia allowed (w 0)
  next : ∀ k, Relation.ReflTransGen (fun s t => ∃ l, M.step s l t ∧ allowed s l t) (w k) (w (k+1))

theorem System.Sampled.reachable {S L : Type*} {M : System S L} {allowed : S → L → S → Prop}
    {w : Nat → S} (h : M.Sampled allowed w) (k : Nat) : M.ReachableVia allowed (w k) := by
  induction k with
  | zero => exact h.start
  | succ k ih =>
    have hpath := h.next k
    generalize w (k+1) = t at hpath ⊢
    induction hpath with
    | refl => exact ih
    | tail _ hst ih =>
      obtain ⟨l,hst,hl⟩ := hst
      exact .step ih hst hl

/-- The index of an iteration, and the number of reads that its thread has made. -/
structure Cursor where
  idx : Nat
  reads : Nat
  deriving DecidableEq, Repr

namespace Cursor
variable {S : Type*} (w : Nat → S) (hit : S → Nat → Bool) (size : Nat)

/-- Entries are read from the index on until one is a hit; `left` more follow the index. -/
def find : Nat → Cursor → Option Nat × Cursor
  | 0, c =>
    if hit (w c.reads) c.idx then (some c.idx,⟨c.idx,c.reads+1⟩) else (none,⟨c.idx+1,c.reads+1⟩)
  | left+1, c =>
    if hit (w c.reads) c.idx then (some c.idx,⟨c.idx,c.reads+1⟩) else find left ⟨c.idx+1,c.reads+1⟩

/-- Starts anew, if the table is not empty by its count. -/
def first (count : S → Nat) (c : Cursor) : Option Nat × Cursor :=
  if count (w c.reads) = 0 then (none,⟨size,c.reads+1⟩) else find w hit (size-1) ⟨0,c.reads+1⟩

def next (c : Cursor) : Option Nat × Cursor :=
  if size ≤ c.idx+1 then (none,c) else find w hit (size-1-(c.idx+1)) ⟨c.idx+1,c.reads⟩

/-- A loop that calls `next` until there is no hit. The visited entries are listed with the
numbers of the reads that found them; there is no result after more than `fuel` entries. -/
def visits (body : Nat → Cursor → Cursor) :
    Nat → Option Nat × Cursor → Option (List (Nat × Nat) × Cursor)
  | _, (none,c) => some ([],c)
  | 0, (some _,_) => none
  | fuel+1, (some i,c) =>
    (visits body fuel (next w hit size (body i c))).map fun r => ((i,c.reads-1) :: r.1,r.2)

/-- `for (e = first(); e != UNDEF; e = next()) body(e)` -/
def loop (count : S → Nat) (body : Nat → Cursor → Cursor) (c : Cursor) :
    Option (List (Nat × Nat) × Cursor) :=
  visits w hit size body size (first w hit size count c)

variable {w hit size} {c d : Cursor} {left i j k : Nat}

/-- The entry was no hit at one of the reads from `m` to `n-1`. -/
def Missed (w : Nat → S) (hit : S → Nat → Bool) (m n j : Nat) : Prop :=
  ∃ k, m ≤ k ∧ k < n ∧ hit (w k) j = false

theorem Missed.mono {m n m' n' : Nat} (h : Missed w hit m n j) (hm : m' ≤ m) (hn : n ≤ n') :
    Missed w hit m' n' j := by
  obtain ⟨k,hmk,hkn,hk⟩ := h
  exact ⟨k,hm.trans hmk,hkn.trans_le hn,hk⟩

/-- Where a search that began at `c` has ended. -/
structure Finds (w : Nat → S) (hit : S → Nat → Bool) (c : Cursor) (last : Nat)
    (r : Option Nat × Cursor) : Prop where
  reads : c.reads < r.2.reads
  found : ∀ i, r.1 = some i → r.2.idx = i ∧ c.idx ≤ i ∧ i ≤ last ∧ hit (w (r.2.reads-1)) i = true
  none : r.1 = none → r.2.idx = last+1
  missed : ∀ j, c.idx ≤ j → j < r.2.idx → Missed w hit c.reads r.2.reads j

variable (w hit) in
theorem find_finds (c : Cursor) (left : Nat) : Finds w hit c (c.idx+left) (find w hit left c) := by
  induction left generalizing c with
  | zero =>
    rw [find]
    split
    · rename_i h
      refine ⟨Nat.lt_succ_self _,?_,fun h => (by cases h),fun j hj hlt => absurd hlt (Nat.not_lt.2 hj)⟩
      rintro i ⟨⟩
      exact ⟨rfl,Nat.le_refl _,Nat.le_refl _,h⟩
    · rename_i h
      refine ⟨Nat.lt_succ_self _,fun i hi => (by cases hi),fun _ => rfl,fun j hj hlt => ?_⟩
      obtain rfl : j = c.idx := Nat.le_antisymm (Nat.le_of_lt_succ hlt) hj
      exact ⟨c.reads,Nat.le_refl _,Nat.lt_succ_self _,by simpa using h⟩
  | succ left ih =>
    rw [find]
    split
    · rename_i h
      refine ⟨Nat.lt_succ_self _,?_,fun h => (by cases h),fun j hj hlt => absurd hlt (Nat.not_lt.2 hj)⟩
      rintro i ⟨⟩
      exact ⟨rfl,Nat.le_refl _,Nat.le_add_right _ _,h⟩
    · rename_i h
      have hrest := ih ⟨c.idx+1,c.reads+1⟩
      rw [Nat.add_right_comm] at hrest
      refine ⟨(Nat.lt_succ_self _).trans hrest.reads,fun i hi => ?_,hrest.none,fun j hj hlt => ?_⟩
      · obtain ⟨hidx,hle,hlast,hhit⟩ := hrest.found i hi
        exact ⟨hidx,Nat.le_of_succ_le hle,hlast,hhit⟩
      · rcases Nat.eq_or_lt_of_le hj with rfl | hj
        · exact ⟨c.reads,Nat.le_refl _,(Nat.lt_succ_self _).trans hrest.reads,by simpa using h⟩
        · exact (hrest.missed j hj hlt).mono (Nat.le_succ _) (Nat.le_refl _)

/-- What the visits of a loop have been that was at `c` after its last read, and ended at `d`. -/
structure Visited (w : Nat → S) (hit : S → Nat → Bool) (size : Nat) (c : Cursor)
    (l : List (Nat × Nat)) (d : Cursor) : Prop where
  reads : c.reads ≤ d.reads
  sorted : l.Pairwise fun a b => a.1 < b.1 ∧ a.2 < b.2
  hits : ∀ a ∈ l, c.idx < a.1 ∧ a.1 < size ∧ c.reads ≤ a.2 ∧ a.2 < d.reads ∧ hit (w a.2) a.1 = true
  complete : ∀ j, c.idx < j → j < size → j ∈ l.map Prod.fst ∨ Missed w hit c.reads d.reads j
  ended : size ≤ d.idx+1

theorem visits_none {body : Nat → Cursor → Cursor} (fuel : Nat) :
    visits w hit size body fuel (none,c) = some ([],c) := by
  cases fuel <;> rfl

theorem next_ended (h : size ≤ d.idx+1) : next w hit size d = (none,d) := if_pos h

variable (w hit) in
theorem next_finds (h : ¬size ≤ c.idx+1) :
    Finds w hit ⟨c.idx+1,c.reads⟩ (size-1) (next w hit size c) := by
  have hfind := find_finds w hit ⟨c.idx+1,c.reads⟩ (size-1-(c.idx+1))
  rw [next, if_neg h]
  rwa [show c.idx+1+(size-1-(c.idx+1)) = size-1 by omega] at hfind

/-- The body leaves the iteration alone and may read. -/
def Keeps (body : Nat → Cursor → Cursor) : Prop :=
  ∀ i c, (body i c).idx = c.idx ∧ c.reads ≤ (body i c).reads

/-- What a search has found that began at the entry `i`. -/
structure Seeks (w : Nat → S) (hit : S → Nat → Bool) (size i : Nat) (c : Cursor) (r : Option Nat × Cursor) :
    Prop where
  reads : c.reads ≤ r.2.reads
  found : ∀ k, r.1 = some k →
    r.2.idx = k ∧ i ≤ k ∧ k < size ∧ c.reads < r.2.reads ∧ hit (w (r.2.reads-1)) k = true
  ended : r.1 = none → size ≤ r.2.idx+1
  missed : ∀ j, i ≤ j → j < size → (∀ k, r.1 = some k → j < k) → Missed w hit c.reads r.2.reads j

section
variable {ι : Type*} {cur : ι → Cursor} {next : ι → Option Nat × ι} {body : Nat → ι → ι} {P : ι → Prop}

variable (cur next body) in
/-- The loop with any `next`, over a state that holds a cursor -/
def visitsWith : Nat → Option Nat × ι → Option (List (Nat × Nat) × ι)
  | _, (none,c) => some ([],c)
  | 0, (some _,_) => none
  | fuel+1, (some i,c) =>
    (visitsWith fuel (next (body i c))).map fun r => ((i,(cur c).reads-1) :: r.1,r.2)

theorem visitsWith_none (fuel : Nat) (c : ι) : visitsWith cur next body fuel (none,c) = some ([],c) := by
  cases fuel <;> rfl

variable (w hit cur next P) in
/-- The entry that the loop is at is visited, and then those after it. -/
theorem visitsWith_some (hnext : ∀ c, P c → P (next c).2 ∧
      Seeks w hit size ((cur c).idx+1) (cur c) ((next c).1,cur (next c).2))
    (hbody : ∀ i c, P c → P (body i c) ∧ (cur (body i c)).idx = (cur c).idx ∧
      (cur c).reads ≤ (cur (body i c)).reads) {fuel : Nat} {r : Option Nat × ι} (hP : P r.2)
    (hr : r.1 = some i) (hidx : (cur r.2).idx = i) (hi : i < size) (hfuel : size-i ≤ fuel) :
    ∃ l d, visitsWith cur next body fuel r = some ((i,(cur r.2).reads-1) :: l,d) ∧ P d ∧
      Visited w hit size (cur r.2) l (cur d) := by
  induction fuel generalizing i r with
  | zero => omega
  | succ fuel ih =>
    obtain ⟨o,c⟩ := r
    obtain rfl : o = some i := hr
    obtain ⟨hPb,hb,hreads⟩ := hbody i c hP
    obtain ⟨hPn,hs⟩ := hnext (body i c) hPb
    dsimp only at hidx ⊢
    rw [visitsWith]
    generalize next (body i c) = n at hPn hs ⊢
    obtain ⟨o,e⟩ := n
    have hr : (cur (body i c)).reads ≤ (cur e).reads := hs.reads
    cases o with
    | none =>
      refine ⟨[],e,by rw [visitsWith_none]; rfl,hPn,hreads.trans hr,.nil,
        fun a ha => absurd ha List.not_mem_nil,fun j hj hlt => .inr ?_,hs.ended rfl⟩
      exact (hs.missed j (by omega) hlt fun k hk => by cases hk).mono hreads (Nat.le_refl _)
    | some k =>
      obtain ⟨hk,hle,hlt,hrlt,hhit⟩ := hs.found k rfl
      dsimp only at hk hrlt hhit
      obtain ⟨l,d,hl,hPd,hv⟩ := ih (r := (some k,e)) hPn rfl hk hlt (by omega)
      have hdr : (cur e).reads ≤ (cur d).reads := hv.reads
      rw [hl]
      refine ⟨_,d,rfl,hPd,hreads.trans (hr.trans hdr),?_,?_,fun j hj hlt => ?_,hv.ended⟩
      · refine List.pairwise_cons.2 ⟨fun a ha => ?_,hv.sorted⟩
        obtain ⟨hka,-,hra,-⟩ := hv.hits a ha
        dsimp only at hka hra ⊢
        omega
      · refine List.forall_mem_cons.2 ⟨?_,fun a ha => ?_⟩
        · exact ⟨by dsimp only; omega,hlt,by dsimp only; omega,by dsimp only; omega,hhit⟩
        · obtain ⟨hka,hlt,hra,hrd,hahit⟩ := hv.hits a ha
          dsimp only at hka hra
          exact ⟨by omega,hlt,by omega,hrd,hahit⟩
      · rw [List.map_cons, List.mem_cons]
        rcases Nat.lt_trichotomy j k with hjk | rfl | hjk
        · refine .inr ((hs.missed j (by omega) hlt ?_).mono hreads hdr)
          rintro k' ⟨⟩
          exact hjk
        · exact .inl (.inl rfl)
        · refine (hv.complete j (by dsimp only; omega) hlt).imp .inr fun hm => ?_
          exact hm.mono (hreads.trans hr) (Nat.le_refl _)

end

variable {body : Nat → Cursor → Cursor} {r : Option Nat × Cursor} {fuel : Nat}

theorem visits_eq : visits w hit size body fuel r = visitsWith id (next w hit size) body fuel r := by
  induction fuel generalizing r with
  | zero => obtain ⟨_ | i,c⟩ := r <;> rfl
  | succ fuel ih =>
    obtain ⟨_ | i,c⟩ := r
    · rfl
    · rw [visits, visitsWith, ih]
      rfl

variable (w hit size c) in
theorem next_seeks : Seeks w hit size (c.idx+1) c (next w hit size c) := by
  by_cases hend : size ≤ c.idx+1
  · rw [next_ended hend]
    exact ⟨Nat.le_refl _,fun k hk => (by cases hk),fun _ => hend,fun j hj hlt => (by omega)⟩
  · have hfinds := next_finds w hit hend
    refine ⟨hfinds.reads.le,fun k hk => ?_,fun hn => ?_,fun j hj hlt hbefore => ?_⟩
    · obtain ⟨hidx,hle,hlast,hhit⟩ := hfinds.found k hk
      exact ⟨hidx,hle,by omega,hfinds.reads,hhit⟩
    · rw [hfinds.none hn]
      omega
    · refine hfinds.missed j hj ?_
      cases hn : (next w hit size c).1 with
      | none =>
        rw [hfinds.none hn]
        omega
      | some k =>
        rw [(hfinds.found k hn).1]
        exact hbefore k hn

variable (w hit) in
/-- The entry that the loop is at is visited, and then those after it. -/
theorem visits_some (hbody : Keeps body) (hr : r.1 = some i) (hidx : r.2.idx = i) (hi : i < size)
    (hfuel : size-i ≤ fuel) : ∃ l d, visits w hit size body fuel r = some ((i,r.2.reads-1) :: l,d) ∧
      Visited w hit size r.2 l d := by
  obtain ⟨l,d,hl,-,hv⟩ := visitsWith_some w hit id (next w hit size) (fun _ => True)
    (fun c _ => ⟨trivial,next_seeks w hit size c⟩) (fun i c _ => ⟨trivial,hbody i c⟩) trivial hr hidx hi hfuel
  exact ⟨l,d,visits_eq.trans hl,hv⟩

/-- A loop visits entries in the order of the table, each one a hit when it is found. Entries that
are not visited have been no hit at some read, unless the count was zero. -/
structure Looped (w : Nat → S) (hit : S → Nat → Bool) (size : Nat) (count : S → Nat) (c : Cursor)
    (l : List (Nat × Nat)) (d : Cursor) : Prop where
  reads : c.reads < d.reads
  sorted : l.Pairwise fun a b => a.1 < b.1 ∧ a.2 < b.2
  hits : ∀ a ∈ l, a.1 < size ∧ c.reads < a.2 ∧ a.2 < d.reads ∧ hit (w a.2) a.1 = true
  complete : count (w c.reads) ≠ 0 → ∀ j < size,
    j ∈ l.map Prod.fst ∨ Missed w hit (c.reads+1) d.reads j
  ended : size ≤ d.idx+1

variable (w hit) in
theorem loop_looped (count : S → Nat) (hsize : 0 < size) (hbody : Keeps body) (c : Cursor) :
    ∃ l d, loop w hit size count body c = some (l,d) ∧ Looped w hit size count c l d := by
  rw [loop, first]
  split
  · rename_i hzero
    exact ⟨[],_,visits_none size,Nat.lt_succ_self _,.nil,fun a ha => absurd ha List.not_mem_nil,
      fun h => absurd hzero h,Nat.le_succ _⟩
  · have hfinds := find_finds w hit ⟨0,c.reads+1⟩ (size-1)
    generalize find w hit (size-1) ⟨0,c.reads+1⟩ = n at hfinds ⊢
    obtain ⟨o,e⟩ := n
    have hr : c.reads+1 < e.reads := hfinds.reads
    cases o with
    | none =>
      have hlast : e.idx = 0+(size-1)+1 := hfinds.none rfl
      refine ⟨[],e,visits_none size,Nat.lt_of_succ_lt hr,.nil,fun a ha => absurd ha List.not_mem_nil,
        fun _ j hj => .inr ?_,by omega⟩
      exact hfinds.missed j (Nat.zero_le _) (by dsimp only; omega)
    | some i =>
      obtain ⟨hi,-,hlast,hhit⟩ := hfinds.found i rfl
      dsimp only at hi hlast hhit
      obtain ⟨l,d,hl,hv⟩ := visits_some w hit (r := (some i,e)) hbody rfl hi
        (by omega) (Nat.sub_le size i)
      have hdr : e.reads ≤ d.reads := hv.reads
      refine ⟨_,d,hl,by omega,?_,?_,fun _ j hj => ?_,hv.ended⟩
      · refine List.pairwise_cons.2 ⟨fun a ha => ?_,hv.sorted⟩
        obtain ⟨hia,-,hra,-⟩ := hv.hits a ha
        dsimp only at hia hra ⊢
        omega
      · refine List.forall_mem_cons.2 ⟨?_,fun a ha => ?_⟩
        · exact ⟨by dsimp only; omega,by dsimp only; omega,by dsimp only; omega,hhit⟩
        · obtain ⟨-,hlt,hra,hrd,hahit⟩ := hv.hits a ha
          dsimp only at hra
          exact ⟨hlt,by omega,hrd,hahit⟩
      · rw [List.map_cons, List.mem_cons]
        rcases Nat.lt_trichotomy j i with hji | rfl | hji
        · exact .inr ((hfinds.missed j (Nat.zero_le _) (by dsimp only; omega)).mono (Nat.le_refl _) hdr)
        · exact .inl (.inl rfl)
        · refine (hv.complete j (by dsimp only; omega) hj).imp .inr fun hm => ?_
          exact hm.mono hr.le (Nat.le_refl _)

/-- An entry that is a hit at every read is visited. -/
theorem Looped.mem {count : S → Nat} {l : List (Nat × Nat)} (h : Looped w hit size count c l d)
    (hcount : count (w c.reads) ≠ 0) (hj : j < size)
    (hall : ∀ k, c.reads < k → k < d.reads → hit (w k) j = true) : j ∈ l.map Prod.fst := by
  refine (h.complete hcount j hj).resolve_right ?_
  rintro ⟨k,hk,hkd,hmiss⟩
  rw [hall k hk hkd] at hmiss
  cases hmiss

theorem Looped.nodup {count : S → Nat} {l : List (Nat × Nat)} (h : Looped w hit size count c l d) :
    (l.map Prod.fst).Nodup :=
  List.pairwise_map.2 (h.sorted.imp fun hab => hab.1.ne)

end Cursor
end EmOdp.Lib
