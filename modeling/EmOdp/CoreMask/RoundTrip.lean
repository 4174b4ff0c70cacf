import EmOdp.CoreMask.Bits

/-! A core mask that is written to words and read back, and words that are read and written back. -/
namespace EmOdp.CoreMask
open Lib Lib.WordArray
variable {size : Nat} {mask : OdpCpumask size} {bits : List (BitVec 64)}

/-- Once the bits below are done, a word adds the cores of the bits that it still has. -/
theorem setWord_spec {i n : Nat} {mask64 : BitVec 64} (hlow : ∀ b < 64 - n, mask64.getLsbD b = false)
    (hn : n ≤ 64) :
    (∀ c < size, (setWord i n mask64 mask).1.isset c =
      (mask.isset c || (decide (c/64 = i) && mask64.getLsbD (c%64)))) ∧
    ((setWord i n mask64 mask).2 = false → size ≤ 64*(i+1)) := by
  induction n generalizing mask64 mask with
  | zero =>
    refine ⟨fun c _ => ?_,fun h => by cases h⟩
    rw [setWord, hlow (c%64) (Nat.mod_lt _ (by decide)), Bool.and_false, Bool.or_false]
  | succ n ih =>
    rw [setWord]
    by_cases hzero : mask64 = 0
    · rw [if_pos hzero, hzero]
      refine ⟨fun c _ => ?_,fun h => by cases h⟩
      simp
    rw [if_neg hzero]
    dsimp only
    by_cases hend : (size : Int) - 1 < (i*64 + (63-n) : Nat)
    · -- the cores that are left are above the last one
      rw [if_pos hend]
      refine ⟨fun c hc => ?_,fun _ => by omega⟩
      by_cases hword : c/64 = i
      · rw [hlow (c%64) (by omega), Bool.and_false, Bool.or_false]
      · rw [decide_eq_false hword, Bool.false_and, Bool.or_false]
    rw [if_neg hend]
    have hbit : mask64 &&& (1#64 <<< (63-n)) ≠ 0 ↔ mask64.getLsbD (63-n) = true :=
      and_shiftLeft_ne_zero (by omega)
    by_cases hset : mask64.getLsbD (63-n) = true
    · rw [if_pos (hbit.2 hset)]
      have hclear := getLsbD_clearLowest hset fun b hb => hlow b (by omega)
      obtain ⟨hcores,hret⟩ := @ih (mask.set (i*64 + (63-n))) (mask64 &&& (mask64-1)) (fun b hb => by
        rw [hclear]
        by_cases hb' : b = 63-n
        · simp [hb']
        · rw [hlow b (by omega), Bool.false_and]) (by omega)
      refine ⟨fun c hc => ?_,hret⟩
      rw [hcores c hc, OdpCpumask.isset_set, hclear]
      by_cases hcpu : c = i*64 + (63-n)
      · have hmod : c%64 = 63-n := by omega
        have hdiv : c/64 = i := by omega
        simp [hmod, hdiv, hset, hc, hcpu.symm]
      · by_cases hword : c/64 = i
        · have hmod : c%64 ≠ 63-n := by omega
          simp [hcpu, hword, hmod]
        · simp [hcpu, hword]
    · rw [if_neg fun h => hset (hbit.1 h)]
      refine ih (fun b hb => ?_) (by omega)
      by_cases hb' : b = 63-n
      · rw [hb']
        exact Bool.eq_false_iff.2 hset
      · exact hlow b (by omega)

theorem setWords_spec {i k : Nat} {c : Nat} (hc : c < size) :
    (setWords bits (List.range' i k) mask).isset c =
      (mask.isset c || (decide (i ≤ c/64 ∧ c/64 < i+k) && bitAt bits c)) := by
  induction k generalizing i mask with
  | zero =>
    have hno : ¬(i ≤ c/64 ∧ c/64 < i+0) := by omega
    rw [List.range'_zero, setWords, decide_eq_false hno, Bool.false_and, Bool.or_false]
  | succ k ih =>
    obtain ⟨hcores,hret⟩ := @setWord_spec size mask i 64 (bits.getD i 0) (fun b hb => by omega) (Nat.le_refl _)
    have hbit : (decide (c/64 = i) && (bits.getD i 0).getLsbD (c%64)) = (decide (c/64 = i) && bitAt bits c) := by
      by_cases hword : c/64 = i
      · rw [bitAt, hword]
      · simp [hword]
    have hword := hcores c hc
    rw [hbit] at hword
    rw [List.range'_succ, setWords]
    generalize setWord i 64 (bits.getD i 0) mask = r at *
    obtain ⟨mask',more⟩ := r
    cases more with
    | true =>
      dsimp only at hword ⊢
      rw [ih, hword, Bool.or_assoc, ← Bool.and_or_distrib_right, ← Bool.decide_or]
      congr 3
      exact propext ⟨fun h => by omega,fun h => by omega⟩
    | false =>
      have hend := hret rfl
      dsimp only at hword ⊢
      rw [hword]
      congr 3
      exact propext ⟨fun h => by omega,fun h => by omega⟩

/-- The bits of the first `len` words that are cores are added. -/
theorem isset_emCoreMaskSetBits {len c : Nat} (hc : c < size) :
    (emCoreMaskSetBits bits len mask).isset c = (mask.isset c || (decide (c < 64*len) && bitAt bits c)) := by
  rw [emCoreMaskSetBits, List.range_eq_range', setWords_spec hc]
  congr 3
  refine propext ⟨fun h => ?_,fun h => ?_⟩
  · split at h <;> omega
  · split <;> omega

private theorem zero_words {k : Nat} (hk : k ≤ bits.length) :
    (List.range k).foldl (fun bits i => bits.set i 0) bits = List.replicate k 0 ++ bits.drop k := by
  induction k with
  | zero => rfl
  | succ k ih =>
    rw [List.range_succ, List.foldl_concat, ih (by omega), List.replicate_succ', List.append_assoc,
      List.set_append_right _ _ (by rw [List.length_replicate]), List.length_replicate, Nat.sub_self,
      List.drop_eq_getElem_cons (by omega)]
    rfl

/-- The cores up to the current one are in the words. -/
structure Walked (mask : OdpCpumask size) (maxcpu : Int) (len : Nat) (w : Walk) : Prop where
  cpu : w.cpu = -1 ∨ ∃ c : Nat, w.cpu = c ∧ mask.isset c = true
  length : w.bits.length = len
  bits : ∀ d : Nat, bitAt w.bits d = (mask.isset d && decide (w.cpu = -1 ∨ d < w.cpu))
  bound : ∀ d : Nat, bitAt w.bits d = true → d ≤ maxcpu
  words : ∀ d : Nat, bitAt w.bits d = true → (d/64 : Nat) ≤ w.i
  last : w.i = -1 ∨ ∃ d : Nat, bitAt w.bits d = true ∧ w.i = (d/64 : Nat)

variable {maxcpu : Int} {len : Nat} {w : Walk}

theorem walked_first : Walked mask maxcpu len ⟨mask.first,-1,List.replicate len 0⟩ := by
  refine ⟨?_,List.length_replicate ..,fun d => ?_,fun d h => ?_,fun d h => ?_,.inl rfl⟩
  · rcases mask.next_spec (-1) with ⟨hc,-⟩ | ⟨c,hc,-,hset,-⟩
    · exact .inl hc
    · exact .inr ⟨c,hc,hset⟩
  · rw [bitAt_replicate]
    rcases mask.next_spec (-1) with ⟨-,hno⟩ | ⟨c,hc,-,-,hno⟩
    · rw [hno d (by omega), Bool.false_and]
    · rw [OdpCpumask.first, hc]
      by_cases hd : d < c
      · rw [hno d (by omega) hd, Bool.false_and]
      · simp [hd]
  · rw [bitAt_replicate] at h
    cases h
  · rw [bitAt_replicate] at h
    cases h

/-- The cpus that the walk may still come to -/
def Walk.left (size : Nat) (w : Walk) : Nat := if 0 ≤ w.cpu then ((size : Int) - w.cpu).toNat else 0

theorem Walked.step (h : Walked mask maxcpu len w) (hlen : maxcpu < 64*len) (h0 : 0 ≤ w.cpu)
    (hmax : w.cpu ≤ maxcpu) : Walked mask maxcpu len (w.step mask) ∧ (w.step mask).left size < w.left size := by
  obtain ⟨c,hc,hset⟩ := h.cpu.resolve_left (by omega)
  have hlt := mask.lt_of_isset hset
  have hbits (d : Nat) : bitAt (w.step mask).bits d = (mask.isset d && decide (d ≤ c)) := by
    have hcpu : w.cpu.toNat = c := by omega
    rw [Walk.step, hcpu, bitAt_setBit (by rw [h.length]; omega), h.bits, hc]
    by_cases hd : d = c
    · simp [hd, hset]
    · rw [decide_eq_false hd, Bool.or_false]
      congr 2
      exact propext ⟨fun h => by omega,fun h => by omega⟩
  have hvisited {d : Nat} (hd : bitAt (w.step mask).bits d = true) : d ≤ c := by
    rw [hbits, Bool.and_eq_true, decide_eq_true_eq] at hd
    exact hd.2
  have hi : (w.step mask).i = (c/64 : Nat) := by
    rw [Walk.step, hc]
    rfl
  refine ⟨⟨?_,?_,fun d => ?_,fun d hd => ?_,fun d hd => ?_,.inr ⟨c,?_,hi⟩⟩,?_⟩
  · rcases mask.next_spec w.cpu with ⟨hn,-⟩ | ⟨n,hn,-,hnset,-⟩
    · exact .inl hn
    · exact .inr ⟨n,hn,hnset⟩
  · rw [Walk.step, length_setBit]
    exact h.length
  · rw [hbits]
    cases hd : mask.isset d with
    | false => rfl
    | true =>
      rw [Walk.step, Bool.true_and, Bool.true_and, hc]
      rcases mask.next_spec c with ⟨hn,hno⟩ | ⟨n,hn,hcn,-,hno⟩
      · have hdc : d ≤ c := Nat.le_of_not_lt fun hcd =>
          Bool.false_ne_true ((hno d (by omega)).symm.trans hd)
        rw [hn]
        simp [hdc]
      · have hiff : d ≤ c ↔ (d : Int) < n := by
          refine ⟨fun hle => by omega,fun hlt' => Nat.le_of_not_lt fun hcd => ?_⟩
          exact Bool.false_ne_true ((hno d (by omega) (by omega)).symm.trans hd)
        rw [hn]
        dsimp only
        congr 1
        exact propext ⟨fun hle => .inr (hiff.1 hle),fun hn' => hiff.2 (hn'.resolve_left (by omega))⟩
  · have hdc := hvisited hd
    omega
  · have hdc := hvisited hd
    rw [hi]
    omega
  · rw [hbits, hset]
    simp
  · rw [Walk.left, Walk.left, if_pos h0, Walk.step, hc]
    dsimp only
    rcases mask.next_spec c with ⟨hn,-⟩ | ⟨n,hn,hcn,hnset,-⟩
    · rw [hn]
      simp only [Int.reduceNeg, Int.neg_nonneg, show ¬(1 : Int) ≤ 0 by decide, if_false]
      omega
    · have hnlt := mask.lt_of_isset hnset
      rw [hn]
      split <;> omega

/-- Where the number of bits of the array does not overflow an `int`: the words have the cores below it, and
the last one that is counted is not zero. -/
theorem emCoreMaskBits_spec (hlen : 0 < len) (hint : 64*len < 2^31) (hbits : bits.length = len) :
    ∃ out n, emCoreMaskBits bits len mask = some (out,n) ∧ out.length = len ∧
      (∀ d : Nat, bitAt out d = (mask.isset d && decide (d < 64*len))) ∧
      (∀ d : Nat, bitAt out d = true → (d/64 : Nat) < n) ∧
      (n = 0 ∨ ∃ d : Nat, bitAt out d = true ∧ n = (d/64 : Nat) + 1) := by
  have hcpus : int (len * 64) = some ((len : Int) * 64) := if_pos (by omega)
  have hzero : (List.range len).foldl (fun bits i => bits.set i 0) bits = List.replicate len 0 := by
    rw [zero_words (by omega), List.drop_eq_nil_of_le (by omega), List.append_nil]
  rw [emCoreMaskBits, if_neg (by omega), hcpus, hzero]
  generalize hmax : (if (size : Int) - 1 ≥ len * 64 then (len * 64 : Int) - 1 else size - 1) = maxcpu
  have hfirst : Walk.left size ⟨mask.first,-1,List.replicate len 0⟩ < size + 1 := by
    rw [Walk.left]
    split <;> omega
  have hlt : maxcpu < 64*len := by
    split at hmax <;> omega
  obtain ⟨k,w,hloop,hw,hend⟩ : ∃ k w, whileLoop (fun w : Walk => decide (0 ≤ w.cpu ∧ w.cpu ≤ maxcpu))
      (fun _ w => Walk.step mask w) (size+1) 0 ⟨mask.first,-1,List.replicate len 0⟩ = some (k,w) ∧
      Walked mask maxcpu len w ∧ decide (0 ≤ w.cpu ∧ w.cpu ≤ maxcpu) = false :=
    whileLoop_ends (Walk.left size) (fun _ w hw hc => hw.step hlt (of_decide_eq_true hc).1 (of_decide_eq_true hc).2)
      walked_first hfirst
  refine ⟨w.bits,w.i+1,?_,hw.length,fun d => ?_,fun d hd => ?_,?_⟩
  · rw [Option.bind_eq_bind, Option.bind_some]
    dsimp only
    rw [hmax, hloop]
    rfl
  · rw [hw.bits]
    cases hd : mask.isset d with
    | false => rfl
    | true =>
      have hdlt := mask.lt_of_isset hd
      have hbit := hw.bits d
      rw [hd, Bool.true_and] at hbit
      have hiff : (w.cpu = -1 ∨ (d : Int) < w.cpu) ↔ d < 64*len := by
        refine ⟨fun hseen => ?_,fun hlt' => ?_⟩
        · rw [decide_eq_true hseen] at hbit
          have hle := hw.bound d hbit
          omega
        · have hle : (d : Int) ≤ maxcpu := by
            split at hmax <;> omega
          have hcpu := of_decide_eq_false hend
          rcases hw.cpu with hc | ⟨c,hc,-⟩
          · exact .inl hc
          · exact .inr (by omega)
      rw [Bool.true_and, Bool.true_and, decide_eq_decide]
      exact hiff
  · have hle := hw.words d hd
    omega
  · rcases hw.last with hi | ⟨d,hd,hi⟩
    · exact .inl (by omega)
    · exact .inr ⟨d,hd,by omega⟩

/-- What is read from a mask and what is written to one agree, for arrays of `len` words. -/
structure RoundTrips (size len : Nat) : Prop where
  bits : ∀ (mask : OdpCpumask size) (bits : List (BitVec 64)), bits.length = len →
    ∃ (out : List (BitVec 64)) (n : Nat), emCoreMaskBits bits len mask = some (out,(n : Int)) ∧ n ≤ len ∧
      (∀ k, n ≤ k → k < len → out[k]? = some 0) ∧ (0 < n → ∃ word, out[n-1]? = some word ∧ word ≠ 0) ∧
      ∀ c < size, (emCoreMaskSetBits out n (OdpCpumask.zero : OdpCpumask size)).isset c =
        (mask.isset c && decide (c < min (64*len) size))
  setBits : ∀ bits out : List (BitVec 64), bits.length = len → out.length = len →
    ∃ (out' : List (BitVec 64)) (n : Int),
      emCoreMaskBits out len (emCoreMaskSetBits bits len (OdpCpumask.zero : OdpCpumask size)) = some (out',n) ∧
      out'.length = len ∧ ∀ d < 64*len, bitAt out' d = (decide (d < size) && bitAt bits d)

private theorem word_getElem {out : List (BitVec 64)} {k : Nat} (hk : k < out.length) :
    out[k]? = some (out.getD k 0) := by
  rw [List.getD_eq_getElem?_getD, List.getElem?_eq_getElem hk, Option.getD_some]

private theorem roundTrips (hlen : 0 < len) (hint : 64*len < 2^31) : RoundTrips size len := by
  constructor
  · intro mask bits hbits
    obtain ⟨out,n,hrun,hlength,hout,hwords,hlast⟩ := @emCoreMaskBits_spec size mask bits len hlen hint hbits
    have hmem {d : Nat} (hd : bitAt out d = true) : d < 64*len := by
      rw [hout, Bool.and_eq_true, decide_eq_true_eq] at hd
      exact hd.2
    have h0 : 0 ≤ n := by
      rcases hlast with rfl | ⟨d,-,rfl⟩ <;> omega
    obtain ⟨n,rfl⟩ := Int.eq_ofNat_of_zero_le h0
    have hle : n ≤ len := by
      rcases hlast with hn | ⟨d,hd,hn⟩
      · omega
      · have hlt := hmem hd
        omega
    refine ⟨out,n,hrun,hle,fun k hnk hk => ?_,fun hn => ?_,fun c hc => ?_⟩
    · rw [word_getElem (by omega), word_eq_zero fun j hj => Bool.eq_false_iff.2 fun hd => ?_]
      have hlt := hwords _ hd
      omega
    · obtain ⟨d,hd,hn'⟩ := hlast.resolve_left (by omega)
      refine ⟨_,word_getElem (by omega),?_⟩
      rw [show n-1 = d/64 by omega]
      exact word_ne_zero hd
    · rw [isset_emCoreMaskSetBits hc, OdpCpumask.isset_zero, Bool.false_or, hout]
      cases hset : mask.isset c with
      | false => simp
      | true =>
        by_cases hlt : c < 64*len
        · have hn := hwords c (by rw [hout, hset]; simp [hlt])
          simp [hlt, hc, show c < 64*n by omega]
        · simp [hlt]
  · intro bits out hbits hout
    obtain ⟨out',n,hrun,hlength,hout',-⟩ := @emCoreMaskBits_spec size
      (emCoreMaskSetBits bits len OdpCpumask.zero) out len hlen hint hout
    refine ⟨out',n,hrun,hlength,fun d hd => ?_⟩
    rw [hout', decide_eq_true hd, Bool.and_true]
    by_cases hsize : d < size
    · rw [isset_emCoreMaskSetBits hsize, OdpCpumask.isset_zero, decide_eq_true hd, decide_eq_true hsize,
        Bool.false_or]
    · rw [decide_eq_false hsize, Bool.false_and]
      exact Bool.eq_false_iff.2 fun h => hsize (OdpCpumask.lt_of_isset _ h)

/-- `len * 64` overflows for larger arrays. -/
theorem emCoreMaskBits_overflow (hint : 2^31 ≤ 64*len) : emCoreMaskBits bits len mask = none := by
  have hcpus : int (len * 64) = none := if_neg (by omega)
  rw [emCoreMaskBits, if_neg (by omega), hcpus]
  rfl

private theorem not_roundTrips (hint : 2^31 ≤ 64*len) : ¬RoundTrips size len := by
  intro h
  obtain ⟨out,n,hrun,-⟩ := h.bits OdpCpumask.zero (List.replicate len 0) (List.length_replicate ..)
  rw [emCoreMaskBits_overflow hint] at hrun
  cases hrun

theorem core_mask_round_trip_iff (hlen : 0 < len) : RoundTrips size len ↔ 64*len < 2^31 :=
  ⟨fun h => Nat.lt_of_not_le fun hint => not_roundTrips hint h,roundTrips hlen⟩

theorem core_mask_round_trip_words : RoundTrips 1000 16 := (core_mask_round_trip_iff (by decide)).2 (by decide)

/-- An array of 2^25 words -/
theorem large_array_overflows : ¬RoundTrips 1024 (2^25) := not_roundTrips (by decide)

end EmOdp.CoreMask
