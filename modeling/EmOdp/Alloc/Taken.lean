import EmOdp.Alloc.Machine

/-! The elements that allocations take from the subpools, and what the loops over the subpools make of them. -/
namespace EmOdp.Alloc
open EventState Pool

variable {cfg : Config} {pool : MpoolElem} {size num m n : Nat} {type : EmEventType} {subpools : List Subpool}

/-- As many elements as there are, the first subpools are emptied first. -/
def takeFree : Nat → List Subpool → List OdpElem × List Subpool
  | _, [] => ([],[])
  | num, subpool :: subpools =>
    let rest := takeFree (num - subpool.free.length) subpools
    (subpool.free.take num ++ rest.1,{ subpool with free := subpool.free.drop num } :: rest.2)

theorem takeFree_zero (subpools : List Subpool) : takeFree 0 subpools = ([],subpools) := by
  induction subpools with
  | nil => rfl
  | cons subpool subpools ih =>
    rw [takeFree, Nat.zero_sub, ih]
    rfl

/-- What is taken in two steps is what is taken in one. -/
theorem takeFree_add (m n : Nat) (subpools : List Subpool) : takeFree (m+n) subpools =
    ((takeFree m subpools).1 ++ (takeFree n (takeFree m subpools).2).1,(takeFree n (takeFree m subpools).2).2) := by
  induction subpools generalizing m n with
  | nil => rfl
  | cons subpool subpools ih =>
    simp only [takeFree, List.length_drop, List.drop_drop]
    rcases Nat.le_total m subpool.free.length with hle | hle
    · have hrest : m - subpool.free.length = 0 := Nat.sub_eq_zero_of_le hle
      have hsub : m + n - subpool.free.length = n - (subpool.free.length - m) := by omega
      rw [hrest, takeFree_zero, hsub, List.append_nil, List.take_add, List.append_assoc]
    · have hnil : List.drop m subpool.free = [] := List.drop_eq_nil_of_le hle
      have htake : List.take (m+n) subpool.free = List.take m subpool.free := by
        rw [List.take_of_length_le hle, List.take_of_length_le (by omega)]
      have hsub : m + n - subpool.free.length = (m - subpool.free.length) + n := by omega
      have hzero : n - (subpool.free.length - m) = n := by omega
      rw [hsub, ih, htake, hnil, hzero, List.take_nil, List.nil_append, List.append_assoc]

theorem takeFree_map {β : Type*} (f : Subpool → β) (hf : ∀ subpool free, f { subpool with free } = f subpool) (num : Nat)
    (subpools : List Subpool) : (takeFree num subpools).2.map f = subpools.map f := by
  induction subpools generalizing num with
  | nil => rfl
  | cons subpool subpools ih => rw [takeFree, List.map_cons, List.map_cons, ih, hf]

theorem takeFree_mem (num : Nat) (subpools : List Subpool) :
    (∀ elem ∈ (takeFree num subpools).1, ∃ subpool ∈ subpools, elem ∈ subpool.free) ∧
    ∀ subpool' ∈ (takeFree num subpools).2, ∀ elem ∈ subpool'.free, ∃ subpool ∈ subpools, elem ∈ subpool.free := by
  induction subpools generalizing num with
  | nil => exact ⟨fun _ h => absurd h List.not_mem_nil,fun _ h => absurd h List.not_mem_nil⟩
  | cons subpool subpools ih =>
    obtain ⟨htaken,hleft⟩ := ih (num - subpool.free.length)
    constructor
    · intro elem helem
      rcases List.mem_append.1 helem with helem | helem
      · exact ⟨subpool,List.mem_cons_self,List.mem_of_mem_take helem⟩
      · obtain ⟨sp,hsp,hfree⟩ := htaken elem helem
        exact ⟨sp,List.mem_cons_of_mem _ hsp,hfree⟩
    · intro subpool' hmem elem helem
      rcases List.mem_cons.1 hmem with rfl | hmem
      · exact ⟨subpool,List.mem_cons_self,List.mem_of_mem_drop helem⟩
      · obtain ⟨sp,hsp,hfree⟩ := hleft subpool' hmem elem helem
        exact ⟨sp,List.mem_cons_of_mem _ hsp,hfree⟩

section Loops

/-- A single allocation takes the first element there is. -/
theorem allocLoop_eq (hvalid : ∀ subpool ∈ subpools, subpool.invalid cfg = false) :
    (allocLoop cfg subpools = none ∧ takeFree 1 subpools = ([],subpools)) ∨
      ∃ elem rest, allocLoop cfg subpools = some (elem,rest) ∧ takeFree 1 subpools = ([elem],rest) := by
  induction subpools with
  | nil => exact .inl ⟨rfl,rfl⟩
  | cons subpool subpools ih =>
    obtain ⟨hhead,hrest⟩ := List.forall_mem_cons.1 hvalid
    obtain ⟨spSize,valid,free⟩ := subpool
    rw [allocLoop, if_neg (by rw [hhead]; decide), takeFree]
    cases free with
    | nil =>
      rcases ih hrest with ⟨hloop,htake⟩ | ⟨elem,rest,hloop,htake⟩
      · exact .inl ⟨by rw [Subpool.alloc, hloop]; rfl,by rw [List.length_nil, Nat.sub_zero, htake]; rfl⟩
      · exact .inr ⟨elem,_,by rw [Subpool.alloc, hloop]; rfl,by rw [List.length_nil, Nat.sub_zero, htake]; rfl⟩
    | cons elem free =>
      refine .inr ⟨elem,_,rfl,?_⟩
      rw [List.length_cons, Nat.sub_eq_zero_of_le (Nat.le_add_left 1 _), takeFree_zero]
      rfl

/-- Where the elements of a subpool come prepared by `prepare`, the loop prepares all that are taken. -/
theorem allocMultiLoop_eq {alloc : Nat → Subpool → List OdpElem × Subpool} {init : OdpElem → Option (EvHdl × OdpElem)}
    {prepare : OdpElem → OdpElem} {events : List (EvHdl × OdpElem)}
    (hvalid : ∀ subpool ∈ subpools, subpool.invalid cfg = false)
    (halloc : ∀ num, ∀ subpool ∈ subpools, alloc num subpool =
      ((subpool.free.take num).map prepare,{ subpool with free := subpool.free.drop num })) :
    allocMultiLoop cfg alloc init events num subpools =
      ((takeFree num subpools).1.mapM (init ∘ prepare)).map fun new => (events ++ new,(takeFree num subpools).2) := by
  induction subpools generalizing events num with
  | nil => exact congrArg some (congrArg (·,[]) (List.append_nil _).symm)
  | cons subpool subpools ih =>
    obtain ⟨hhead,hrest⟩ := List.forall_mem_cons.1 hvalid
    have ih' (events : List (EvHdl × OdpElem)) (num : Nat) := @ih num events hrest fun num sp hsp =>
      halloc num sp (List.mem_cons_of_mem _ hsp)
    rw [allocMultiLoop, if_neg (by rw [hhead]; decide), halloc num subpool List.mem_cons_self, takeFree]
    dsimp only
    rw [List.length_map, List.length_take, List.mapM_map, List.mapM_append]
    by_cases hzero : min num subpool.free.length = 0
    · -- nothing to be had from this subpool
      have htake : subpool.free.take num = [] := by
        rw [← List.length_eq_zero_iff, List.length_take]
        exact hzero
      have hsub : num - subpool.free.length = num := by omega
      rw [if_pos hzero, ih', htake, hsub, List.mapM_nil]
      cases (takeFree num subpools).1.mapM (init ∘ prepare) <;> rfl
    rw [if_neg hzero]
    refine Eq.trans (Option.bind_congr fun new _ => ?_) (Option.map_bind ..).symm
    by_cases hall : min num subpool.free.length = num
    · have hsub : num - subpool.free.length = 0 := by omega
      rw [if_pos hall, Function.comp_apply, hsub, takeFree_zero, List.mapM_nil]
      exact congrArg (fun new => some (events ++ new,_)) (List.append_nil new).symm
    · have hsub : num - min num subpool.free.length = num - subpool.free.length := by omega
      rw [if_neg hall, Function.comp_apply, hsub, ih']
      cases (takeFree (num - subpool.free.length) subpools).1.mapM (init ∘ prepare) with
      | none => rfl
      | some last => exact congrArg (fun new => some (new,_)) (List.append_assoc ..)

end Loops

section Pool

/-- The first subpool that is tried -/
def firstTried (pool : MpoolElem) (size : Nat) : Nat :=
  (poolFindSubpool size (pool.subpools.map Subpool.size)).getD pool.subpools.length

/-- The elements that are taken for `num` events, and the pool without them -/
def takeEvents (num : Nat) (pool : MpoolElem) (size : Nat) : List OdpElem × MpoolElem :=
  let i := firstTried pool size
  let r := takeFree num (pool.subpools.drop i)
  (r.1,{ pool with subpools := pool.subpools.take i ++ r.2 })

theorem firstTried_some {i : Nat} (hi : poolFindSubpool size (pool.subpools.map Subpool.size) = some i) :
    firstTried pool size = i := by
  rw [firstTried, hi]
  rfl

/-- No subpool has large enough elements. -/
theorem takeEvents_none (hi : poolFindSubpool size (pool.subpools.map Subpool.size) = none) :
    takeEvents num pool size = ([],pool) := by
  have hfirst : firstTried pool size = pool.subpools.length := by
    rw [firstTried, hi]
    rfl
  rw [takeEvents, hfirst, List.drop_length, takeFree, List.take_length, List.append_nil]

theorem firstTried_le (pool : MpoolElem) (size : Nat) : firstTried pool size ≤ pool.subpools.length := by
  rw [firstTried]
  cases hi : poolFindSubpool size (pool.subpools.map Subpool.size) with
  | none => exact Nat.le_refl _
  | some i =>
    obtain ⟨hlt,-⟩ := List.findIdx?_eq_some_iff_getElem.1 hi
    rw [List.length_map] at hlt
    exact Nat.le_of_lt hlt

theorem takeEvents_map {β : Type*} (f : Subpool → β) (hf : ∀ subpool free, f { subpool with free } = f subpool) :
    (takeEvents num pool size).2.subpools.map f = pool.subpools.map f := by
  rw [takeEvents]
  dsimp only
  rw [List.map_append, takeFree_map f hf, ← List.map_append, List.take_append_drop]

theorem takeEvents_firstTried : firstTried (takeEvents num pool size).2 size = firstTried pool size := by
  have hsizes := @takeEvents_map pool size num _ Subpool.size fun _ _ => rfl
  have hlength := congrArg List.length hsizes
  rw [List.length_map, List.length_map] at hlength
  rw [firstTried, hsizes, hlength, ← firstTried]

theorem takeEvents_add : takeEvents (m+n) pool size =
    ((takeEvents m pool size).1 ++ (takeEvents n (takeEvents m pool size).2 size).1,
      (takeEvents n (takeEvents m pool size).2 size).2) := by
  have hlength : (pool.subpools.take (firstTried pool size)).length = firstTried pool size :=
    List.length_take_of_le (firstTried_le pool size)
  rw [takeEvents.eq_1 n, takeEvents_firstTried]
  simp only [takeEvents, List.drop_left' hlength, List.take_left' hlength, takeFree_add m n]

theorem takeEvents_zero : takeEvents 0 pool size = ([],pool) := by
  simp only [takeEvents, takeFree_zero, List.take_append_drop]

/-- A pool as `em_pool_create` makes it: sorted subpools, all of which exist, and a headroom of the packets for
the offset. -/
structure Created (pool : MpoolElem) : Prop where
  sorted : ∃ poolCfg, pool.subpools.map Subpool.size = (sortPoolCfg poolCfg).map Pool.Subpool.size
  valid : ∀ subpool ∈ pool.subpools, subpool.valid = true
  alignOffset : pool.alignOffset ≤ alignOffsetMax
  headroom : pool.eventType = .packet → ∀ subpool ∈ pool.subpools, ∀ elem ∈ subpool.free,
    pool.alignOffset ≤ elem.pkt.headroom

theorem Created.tried_valid (h : Created pool) : ∀ subpool ∈ pool.subpools.drop (firstTried pool size),
    subpool.invalid cfg = false := by
  intro subpool hmem
  rw [Subpool.invalid, h.valid subpool (List.mem_of_mem_drop hmem), Bool.not_true, Bool.and_false]

theorem Created.without (h : Created pool) (num size : Nat) : Created (takeEvents num pool size).2 := by
  have hfrom : ∀ subpool' ∈ (takeEvents num pool size).2.subpools, ∀ elem ∈ subpool'.free,
      ∃ subpool ∈ pool.subpools, elem ∈ subpool.free := by
    intro subpool' hmem elem helem
    rcases List.mem_append.1 hmem with hmem | hmem
    · exact ⟨subpool',List.mem_of_mem_take hmem,helem⟩
    · obtain ⟨subpool,hsub,hfree⟩ := (takeFree_mem num _).2 subpool' hmem elem helem
      exact ⟨subpool,List.mem_of_mem_drop hsub,hfree⟩
  refine ⟨?_,?_,h.alignOffset,fun hpacket subpool' hmem elem helem => ?_⟩
  · rw [takeEvents_map Subpool.size fun _ _ => rfl]
    exact h.sorted
  · have hvalid := @takeEvents_map pool size num _ Subpool.valid fun _ _ => rfl
    intro subpool hmem
    have hin := List.mem_map_of_mem (f := Subpool.valid) hmem
    rw [hvalid] at hin
    obtain ⟨sp,hsp,heq⟩ := List.mem_map.1 hin
    rw [← heq]
    exact h.valid sp hsp
  · obtain ⟨subpool,hsub,hfree⟩ := hfrom subpool' hmem elem helem
    exact h.headroom hpacket subpool hsub elem hfree

/-- A single allocation, where no preparation fails -/
theorem allocElem_eq {prepare : OdpElem → Option OdpElem} {prepared : OdpElem → OdpElem} (h : Created pool)
    (hprepare : ∀ subpool ∈ pool.subpools, ∀ elem ∈ subpool.free, prepare elem = some (prepared elem)) :
    (allocElem cfg pool size prepare = none ∧ takeEvents 1 pool size = ([],pool)) ∨
      ∃ elem pool', allocElem cfg pool size prepare = some (prepared elem,pool') ∧
        takeEvents 1 pool size = ([elem],pool') := by
  have htried := @Created.tried_valid cfg pool size h
  rw [allocElem]
  cases hi : poolFindSubpool size (pool.subpools.map Subpool.size) with
  | none => exact .inl ⟨rfl,takeEvents_none hi⟩
  | some i =>
    rw [firstTried_some hi] at htried
    rw [takeEvents, firstTried_some hi]
    rcases allocLoop_eq htried with ⟨hloop,htake⟩ | ⟨elem,rest,hloop,htake⟩
    · refine .inl ⟨by rw [Option.bind_eq_bind, Option.bind_some, hloop]; rfl,?_⟩
      rw [htake, List.take_append_drop]
    · have helem : elem ∈ (takeFree 1 (pool.subpools.drop i)).1 := by
        rw [htake]
        exact List.mem_singleton_self elem
      obtain ⟨subpool,hsub,hfree⟩ := (takeFree_mem 1 _).1 elem helem
      refine .inr ⟨elem,{ pool with subpools := pool.subpools.take i ++ rest },?_,?_⟩
      · rw [Option.bind_eq_bind, Option.bind_some, hloop, Option.bind_eq_bind, Option.bind_some]
        dsimp only
        rw [hprepare subpool (List.mem_of_mem_drop hsub) elem hfree]
        rfl
      · rw [htake]

theorem allocMultiElems_eq {alloc : Nat → Subpool → List OdpElem × Subpool} {init : OdpElem → Option (EvHdl × OdpElem)}
    {prepare : OdpElem → OdpElem} (h : Created pool) (halloc : ∀ num, ∀ subpool ∈ pool.subpools,
      alloc num subpool = ((subpool.free.take num).map prepare,{ subpool with free := subpool.free.drop num })) :
    allocMultiElems cfg num pool size alloc init =
      ((takeEvents num pool size).1.mapM (init ∘ prepare)).map fun events => (events,(takeEvents num pool size).2) := by
  have htried := @Created.tried_valid cfg pool size h
  rw [allocMultiElems]
  cases hi : poolFindSubpool size (pool.subpools.map Subpool.size) with
  | none =>
    rw [takeEvents_none hi]
    rfl
  | some i =>
    rw [firstTried_some hi] at htried
    rw [takeEvents, firstTried_some hi]
    dsimp only
    rw [allocMultiLoop_eq htried fun num subpool hsub => halloc num subpool (List.mem_of_mem_drop hsub), Option.map_map]
    rfl

end Pool

end EmOdp.Alloc
