import Mathlib.Data.Nat.Bitwise
import Mathlib.Data.UInt
import Mathlib.Tactic.NormNum

namespace VarEmu.Library.Bits

theorem and_lt (x : UInt32) {m : UInt32} {n : ℕ} (hm : m.toNat < n) : (x &&& m).toNat < n := by
  rw [UInt32.toNat_and]
  exact lt_of_le_of_lt Nat.and_le_right hm

theorem shift_toNat (x : UInt32) (k : ℕ) {m : UInt32} (hm : m.toNat = k) (hk : k < 32) :
    (x >>> m).toNat = x.toNat / 2 ^ k := by
  rw [UInt32.toNat_shiftRight, hm, Nat.mod_eq_of_lt hk, Nat.shiftRight_eq_div_pow]

/-- A field of a word: `n` bits from bit `k` on. -/
theorem field_toNat (x : UInt32) (k n : ℕ) {m mask : UInt32} (hm : m.toNat = k)
    (hmask : mask.toNat = 2 ^ n - 1) (hk : k < 32) :
    ((x >>> m) &&& mask).toNat = x.toNat / 2 ^ k % 2 ^ n := by
  rw [UInt32.toNat_and, hmask, Nat.and_two_pow_sub_one_eq_mod, shift_toNat x k hm hk]

theorem and_bit_eq_zero (x : UInt32) (k : ℕ) {m : UInt32} (hm : m.toNat = 2 ^ k) :
    x &&& m = 0 ↔ x.toNat / 2 ^ k % 2 = 0 := by
  rw [← UInt32.toNat_inj, UInt32.toNat_and, hm, Nat.and_two_pow, Nat.testBit_eq_decide_div_mod_eq]
  rcases Nat.mod_two_eq_zero_or_one (x.toNat / 2 ^ k) with h | h
  · simp [h]
  · simp [h]

theorem halfword_bit (hw : UInt16) (k : ℕ) {mask : UInt32} (hmask : mask.toNat = 2 ^ k) :
    hw.toUInt32 &&& mask = 0 ↔ hw.toNat / 2 ^ k % 2 = 0 := by
  rw [and_bit_eq_zero _ k hmask, UInt16.toNat_toUInt32]

theorem halfword_nibble (hw : UInt16) (n : UInt32) :
    hw.toUInt32 >>> 12 = n ↔ hw.toNat / 2 ^ 12 = n.toNat := by
  rw [← UInt32.toNat_inj, shift_toNat _ 12 rfl (by norm_num), UInt16.toNat_toUInt32]

theorem concat_toNat {n : ℕ} {x y : UInt32} (hn : n + 4 ≤ 32) (hx : x.toNat < 2 ^ n)
    (hy : y.toNat < 2 ^ 4) : ((x <<< 4) ||| y).toNat = x.toNat * 16 + y.toNat := by
  have hfour : (4 : UInt32).toNat % 32 = 4 := rfl
  have hlt : x.toNat * 2 ^ 4 < 2 ^ 32 :=
    calc x.toNat * 2 ^ 4 < 2 ^ n * 2 ^ 4 := Nat.mul_lt_mul_of_pos_right hx (by norm_num)
      _ = 2 ^ (n + 4) := (pow_add 2 n 4).symm
      _ ≤ 2 ^ 32 := Nat.pow_le_pow_right Nat.two_pos hn
  rw [UInt32.toNat_or, UInt32.toNat_shiftLeft, hfour, Nat.shiftLeft_eq, Nat.mod_eq_of_lt hlt,
    mul_comm, ← Nat.two_pow_add_eq_or_of_lt hy, mul_comm]

theorem word_and_or (x a b : UInt32) : x &&& (a ||| b) = (x &&& a) ||| (x &&& b) :=
  UInt32.toBitVec_inj.mp BitVec.and_or_distrib_left

theorem word_or_and (x a b : UInt32) : (a ||| b) &&& x = (a &&& x) ||| (b &&& x) :=
  UInt32.toBitVec_inj.mp BitVec.and_or_distrib_right

/-- A field taken down and put back. -/
theorem field_up (x mask s : UInt32) : ((x >>> s) &&& mask) <<< s = x &&& (mask <<< s) := by
  rw [UInt32.shiftLeft_and, ← UInt32.toBitVec_inj]
  simp only [UInt32.toBitVec_shiftLeft, UInt32.toBitVec_and, UInt32.toBitVec_shiftRight]
  generalize s.toBitVec % 32#32 = t
  ext i hi
  by_cases h : i < t.toNat
  · simp [h]
  · simp [h, Nat.add_sub_cancel' (not_lt.mp h), BitVec.getLsbD_eq_getElem hi]

theorem field_down (x mask s : UInt32) : ((x <<< s) &&& mask) >>> s = x &&& (mask >>> s) := by
  rw [← UInt32.toBitVec_inj]
  simp only [UInt32.toBitVec_shiftLeft, UInt32.toBitVec_and, UInt32.toBitVec_shiftRight]
  generalize s.toBitVec % 32#32 = t
  ext i hi
  by_cases h : t.toNat + i < 32
  · have hge : ¬t.toNat + i < t.toNat := by omega
    simp [h, hge]
  · simp [BitVec.getLsbD_of_ge _ _ (not_lt.mp h)]

theorem and_bit_ne_zero (x : UInt32) (k : ℕ) {m : UInt32} (hm : m.toNat = 2 ^ k) :
    x &&& m ≠ 0 ↔ x.toNat.testBit k = true := by
  rw [ne_eq, and_bit_eq_zero x k hm, Nat.testBit_eq_decide_div_mod_eq, decide_eq_true_eq]
  omega

theorem flag_up (x : UInt32) (k : ℕ) {m s : UInt32} (hm : m.toNat = 2 ^ k) (hs : s.toNat = k)
    (hk : k < 32) : (if x &&& m ≠ 0 then 1 else 0 : UInt32) <<< s = x &&& m := by
  have hpow : 2 ^ k < 2 ^ 32 := Nat.pow_lt_pow_right (by norm_num) hk
  have hbit := and_bit_ne_zero x k hm
  rw [← UInt32.toNat_inj, UInt32.toNat_shiftLeft, hs, Nat.mod_eq_of_lt hk, Nat.shiftLeft_eq,
    UInt32.toNat_and, hm, Nat.and_two_pow]
  by_cases h : x.toNat.testBit k = true
  · rw [if_pos (hbit.mpr h), h]
    change 1 * 2 ^ k % 2 ^ 32 = 1 * 2 ^ k
    rw [one_mul, Nat.mod_eq_of_lt hpow]
  · rw [if_neg (fun hne ↦ h (hbit.mp hne)), Bool.eq_false_iff.mpr h]
    simp

theorem and_bit_eq (x : UInt32) (k : ℕ) {m : UInt32} (hm : m.toNat = 2 ^ k) (h : x &&& m ≠ 0) :
    x &&& m = m := by
  have hbit : x.toNat.testBit k = true := (and_bit_ne_zero x k hm).mp h
  rw [← UInt32.toNat_inj, UInt32.toNat_and, hm, Nat.and_two_pow, hbit]
  exact Nat.one_mul _

theorem word_split (x m : UInt32) : (x &&& m) ||| (x &&& ~~~m) = x := by
  rw [← word_and_or, UInt32.or_not_self, UInt32.and_neg_one]

theorem word_and_not {x m : UInt32} (h : x &&& m = 0) : x &&& ~~~m = x := by
  have hsplit := word_split x m
  rwa [h, UInt32.zero_or] at hsplit

/-- Bits that are set can be taken off and put back. -/
theorem word_sub_or {x m : UInt32} (h : x &&& m = m) : (x - m) ||| m = x := by
  have hsplit : m ||| (x &&& ~~~m) = x := by
    have hsplit := word_split x m
    rwa [h] at hsplit
  have hdisjoint : m &&& (x &&& ~~~m) = 0 := by
    rw [UInt32.and_comm, UInt32.and_assoc, UInt32.not_and_self, UInt32.and_zero]
  have hadd : m + (x &&& ~~~m) = m ||| (x &&& ~~~m) :=
    UInt32.toBitVec_inj.mp
      (BitVec.add_eq_or_of_and_eq_zero _ _ (congrArg UInt32.toBitVec hdisjoint))
  have hsub : x - m = x &&& ~~~m := by
    rw [sub_eq_iff_eq_add', hadd, hsplit]
  rw [hsub, UInt32.or_comm, hsplit]

abbrev bit (x : UInt32) (i : ℕ) : Bool := x.toBitVec.getLsbD i

theorem eq_of_bits {x y : UInt32} (h : ∀ i < 32, bit x i = bit y i) : x = y :=
  UInt32.toBitVec_inj.mp (BitVec.eq_of_getLsbD_eq h)

theorem bit_of_lt {x : UInt32} {k i : ℕ} (h : x.toNat < 2 ^ k) (hi : k ≤ i) : bit x i = false :=
  Nat.testBit_lt_two_pow (h.trans_le (Nat.pow_le_pow_right Nat.two_pos hi))

theorem bit_of_and_eq_zero {x m : UInt32} (h : x &&& m = 0) {i : ℕ} (hm : bit m i = true) :
    bit x i = false := by
  have hi := congrArg (bit · i) h
  simpa [bit, hm] using hi

theorem and_eq_zero_of_bits {x m : UInt32} (h : ∀ i < 32, bit m i = true → bit x i = false) :
    x &&& m = 0 := by
  refine eq_of_bits fun i hi ↦ ?_
  cases hm : bit m i
  · simp_all [bit]
  · simp_all [bit]

/-- A mask that holds all of a group of bits or none of it holds any of them as a whole. -/
theorem group_bit {x m : UInt32} (h : x &&& m = 0 ∨ x &&& m = m) {i : ℕ} (hm : bit m i = true) :
    x &&& m ≠ 0 ↔ bit x i = true := by
  rcases h with h | h
  · simp [h, bit_of_and_eq_zero h hm]
  · have hi := congrArg (bit · i) h
    have hx : bit x i = true := by simpa [bit, hm] using hi
    refine iff_of_true (fun h0 ↦ ?_) hx
    rw [bit_of_and_eq_zero h0 hm] at hx
    exact absurd hx Bool.false_ne_true

end VarEmu.Library.Bits
