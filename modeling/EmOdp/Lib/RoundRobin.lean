import Mathlib.Data.Fintype.EquivFin
import Mathlib.Data.Nat.ModEq

/-! Round-robin searches over `n` places from any number on. The number of a round is counted modulo
`m`, and its place is the remainder modulo `n`. -/
namespace EmOdp.Lib.RoundRobin
variable {m n start i j : Nat}

def place (m n start i : Nat) : Nat := (start+i) % m % n

/-- A search that never wraps comes to every place. -/
theorem exists_round (start : Nat) (hj : j < n) : ∃ i < n, (start+i) % n = j := by
  have hn : 0 < n := Nat.zero_lt_of_lt hj
  refine ⟨(j + (n - start % n)) % n,Nat.mod_lt _ hn,?_⟩
  have hstart := Nat.mod_lt start hn
  rw [Nat.add_mod_mod, ← Nat.mod_add_mod, show start % n + (j + (n - start % n)) = j + n by omega,
    Nat.add_mod_right, Nat.mod_eq_of_lt hj]

/-- Two rounds with one place leave a place out. -/
private theorem not_covers (hi : i < n) (hj : j < n) (hij : i ≠ j)
    (h : place m n start i = place m n start j) : ¬∀ k < n, ∃ i < n, place m n start i = k := by
  intro hall
  have hn : 0 < n := Nat.zero_lt_of_lt hi
  let f (i : Fin n) : Fin n := ⟨place m n start i,Nat.mod_lt _ hn⟩
  have hsurj : Function.Surjective f := fun k => by
    obtain ⟨i,hi,hk⟩ := hall k k.2
    exact ⟨⟨i,hi⟩,Fin.ext hk⟩
  have hinj := Finite.injective_iff_surjective.2 hsurj
  exact hij (congrArg Fin.val (@hinj ⟨i,hi⟩ ⟨j,hj⟩ (Fin.ext h)))

/-- Before it wraps -/
private theorem place_of_lt (h : start+i < m) : place m n start i = (start+i) % n := by
  rw [place, Nat.mod_eq_of_lt h]

/-- After it has wrapped -/
private theorem place_of_le (hstart : start < m) (hn : n ≤ m) (hi : i < n) (h : m ≤ start+i) :
    place m n start i = (start+i-m) % n := by
  have hlt : start+i-m < m := by omega
  rw [place, Nat.mod_eq_sub_mod h, Nat.mod_eq_of_lt hlt]

/-- A search comes to every place if and only if it does not wrap, or the places go on where it does. -/
theorem covers_iff (hstart : start < m) (hn : 0 < n) (hnm : n ≤ m) :
    (∀ j < n, ∃ i < n, place m n start i = j) ↔ start+n ≤ m ∨ n ∣ m := by
  constructor
  · intro hall
    by_contra hno
    obtain ⟨hwraps,hdvd⟩ := not_or.1 hno
    have hrem : 0 < m % n := Nat.pos_of_ne_zero fun hc => hdvd (Nat.dvd_of_mod_eq_zero hc)
    have hlt := Nat.mod_lt m hn
    have hdiv := Nat.div_add_mod m n
    by_cases hk : m - start ≤ m % n
    · -- the first round, and one after the wrap
      refine not_covers (i := 0) (j := m % n) hn hlt (Nat.ne_of_lt hrem) ?_ hall
      have hbefore : start + 0 = n * (m/n) + (m % n - (m-start)) := by omega
      rw [place_of_lt (by omega), place_of_le hstart hnm hlt (by omega), hbefore, Nat.mul_add_mod,
        show start + m % n - m = m % n - (m-start) by omega]
    · -- the round at the last multiple of `n`, and the first one after the wrap
      refine not_covers (i := m-start - m % n) (j := m-start) (by omega) (by omega) (by omega) ?_ hall
      have hbefore : start + (m-start - m % n) = n * (m/n) := by omega
      rw [place_of_lt (by omega), place_of_le hstart hnm (by omega) (by omega), hbefore,
        Nat.mul_mod_right, show start + (m-start) - m = 0 by omega, Nat.zero_mod]
  · intro h j hj
    obtain ⟨i,hi,hij⟩ := exists_round start hj
    refine ⟨i,hi,?_⟩
    rcases h with h | h
    · rw [place_of_lt (by omega), hij]
    · rw [place, Nat.mod_mod_of_dvd _ h, hij]

end EmOdp.Lib.RoundRobin
