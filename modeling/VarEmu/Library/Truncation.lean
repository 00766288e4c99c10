import Mathlib.Data.NNRat.Floor
import Mathlib.Algebra.Order.BigOperators.Ring.Finset
import Mathlib.Algebra.BigOperators.Fin
import Mathlib.Data.UInt

namespace VarEmu.Library.Truncation

open scoped BigOperators

/-- The conversion of a number to an unsigned 64-bit word: it drops the fractional part, and
is undefined unless the result fits. -/
def truncate (q : ℚ) : Option UInt64 :=
  if -1 < q ∧ q < 2 ^ 64 then some (UInt64.ofNat ⌊q⌋₊) else none

theorem toNat_ofNat_floor {q : ℚ} (h : q < 2 ^ 64) : (UInt64.ofNat ⌊q⌋₊).toNat = ⌊q⌋₊ := by
  apply UInt64.toNat_ofNat_of_lt'
  rcases lt_or_ge q 0 with hq | hq
  · rw [Nat.floor_of_nonpos hq.le]
    decide
  · rw [Nat.floor_lt hq]
    norm_num at h ⊢
    exact h

theorem truncate_toNat {q : ℚ} {u : UInt64} (h : truncate q = some u) : u.toNat = ⌊q⌋₊ := by
  unfold truncate at h
  split_ifs at h with hq
  cases h
  exact toNat_ofNat_floor hq.2

theorem truncate_eq_some {x : ℚ≥0} {u : UInt64} :
    truncate (x : ℚ) = some u ↔ u.toNat = ⌊x⌋₊ := by
  constructor
  · intro h
    rw [truncate_toNat h, NNRat.floor_coe]
  · intro h
    have hneg : (-1 : ℚ) < x := by linarith [x.coe_nonneg]
    have hlt : (x : ℚ) < 2 ^ 64 := by
      have hf : ⌊(x : ℚ)⌋₊ < 2 ^ 64 := by
        rw [NNRat.floor_coe, ← h]
        exact u.toNat_lt
      exact_mod_cast (Nat.floor_lt x.coe_nonneg).mp hf
    rw [truncate, if_pos ⟨hneg, hlt⟩, NNRat.floor_coe, ← h, UInt64.ofNat_toNat]

section FloorSum

variable {ι R : Type} [Semiring R] [LinearOrder R] [IsStrictOrderedRing R] [FloorSemiring R]

theorem sum_floor_le (s : Finset ι) (f : ι → R) (hf : ∀ i ∈ s, 0 ≤ f i) :
    ∑ i ∈ s, ⌊f i⌋₊ ≤ ⌊∑ i ∈ s, f i⌋₊ := by
  apply Nat.le_floor
  rw [Nat.cast_sum]
  exact Finset.sum_le_sum fun i hi ↦ Nat.floor_le (hf i hi)

theorem floor_sum_lt (s : Finset ι) (f : ι → R) (hf : ∀ i ∈ s, 0 ≤ f i) (hs : s.Nonempty) :
    ⌊∑ i ∈ s, f i⌋₊ < ∑ i ∈ s, ⌊f i⌋₊ + s.card := by
  have hcard : ∑ i ∈ s, ⌊f i⌋₊ + s.card = ∑ i ∈ s, (⌊f i⌋₊ + 1) := by
    rw [Finset.sum_add_distrib, Finset.card_eq_sum_ones]
  rw [hcard, Nat.floor_lt (Finset.sum_nonneg hf), Nat.cast_sum]
  apply Finset.sum_lt_sum_of_nonempty hs
  intro i _
  rw [Nat.cast_add_one]
  exact Nat.lt_floor_add_one (f i)

end FloorSum

end VarEmu.Library.Truncation
