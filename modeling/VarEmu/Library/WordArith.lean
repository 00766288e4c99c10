import Mathlib.Data.Nat.Bitwise
import Mathlib.Tactic.Ring
import Mathlib.Tactic.NormNum

namespace VarEmu.Library.WordArith

variable {w : ℕ}

def bitWord (w : ℕ) (b : Bool) : BitVec w := BitVec.ofNat w b.toNat

structure Sum (w : ℕ) where
  result : BitVec w
  carry : Bool
  overflow : Bool

/-- The sum of two words and a carry. The carry out and the overflow say whether the result is
the sum of the words as unsigned and as signed numbers. -/
def addWithCarry (x y : BitVec w) (c : Bool) : Sum w :=
  let r := BitVec.ofNat w (x.toNat + y.toNat + c.toNat)
  { result := r
    carry := r.toNat ≠ x.toNat + y.toNat + c.toNat
    overflow := r.toInt ≠ x.toInt + y.toInt + c.toNat }

theorem signed_cases {n : ℕ} (z : BitVec (n + 1)) :
    z.msb = false ∧ z.toNat < 2 ^ n ∧ z.toInt = z.toNat ∨
      z.msb = true ∧ 2 ^ n ≤ z.toNat ∧ z.toInt = (z.toNat : ℤ) - (2 * 2 ^ n : ℕ) := by
  rw [BitVec.toInt_eq_msb_cond, ← pow_succ']
  cases hm : z.msb
  · rw [BitVec.msb_eq_decide, decide_eq_false_iff_not, not_le] at hm
    exact .inl ⟨rfl, hm, if_neg Bool.false_ne_true⟩
  · rw [BitVec.msb_eq_decide, decide_eq_true_iff] at hm
    exact .inr ⟨rfl, hm, if_pos rfl⟩

section Sums

variable (x y : BitVec w) (c : Bool)

theorem add_result : (addWithCarry x y c).result = x + y + bitWord w c := by
  apply BitVec.eq_of_toNat_eq
  simp [addWithCarry, bitWord, Nat.add_mod]

theorem add_carry :
    (addWithCarry x y c).carry = decide (2 ^ w ≤ x.toNat + y.toNat + c.toNat) := by
  have hlt : x.toNat + y.toNat + c.toNat < 2 ^ w ↔
      (x.toNat + y.toNat + c.toNat) % 2 ^ w = x.toNat + y.toNat + c.toNat :=
    ⟨Nat.mod_eq_of_lt, fun h ↦ h ▸ Nat.mod_lt _ (Nat.two_pow_pos w)⟩
  simp only [addWithCarry, BitVec.toNat_ofNat, ne_eq, ← hlt, not_lt]

/-- A signed sum overflows if the words have one sign and the result has the other. -/
theorem add_overflow (hw : 0 < w) :
    (addWithCarry x y c).overflow =
      (((addWithCarry x y c).result ^^^ x) &&& ~~~(x ^^^ y)).msb := by
  obtain ⟨n, rfl⟩ := Nat.exists_eq_succ_of_ne_zero hw.ne'
  have hpow : 2 ^ (n + 1) = 2 * 2 ^ n := pow_succ' 2 n
  have hlt (z : BitVec (n + 1)) : z.toNat < 2 * 2 ^ n := hpow ▸ z.isLt
  have hx := hlt x
  have hy := hlt y
  have hc : c.toNat ≤ 1 := Bool.toNat_le c
  have hr : (addWithCarry x y c).result.toNat = (x.toNat + y.toNat + c.toNat) % 2 ^ (n + 1) :=
    BitVec.toNat_ofNat _ _
  generalize hrdef : (addWithCarry x y c).result = r at hr
  have hover : (addWithCarry x y c).overflow =
      decide (r.toInt ≠ x.toInt + y.toInt + c.toNat) := by rw [← hrdef]; rfl
  have hmod : r.toNat = x.toNat + y.toNat + c.toNat ∨
      r.toNat + 2 ^ (n + 1) = x.toNat + y.toNat + c.toNat := by
    by_cases hlt : x.toNat + y.toNat + c.toNat < 2 ^ (n + 1)
    · exact .inl (hr.trans (Nat.mod_eq_of_lt hlt))
    · rw [Nat.mod_eq_sub_mod (not_lt.mp hlt), Nat.mod_eq_of_lt (by omega)] at hr
      omega
  have hz := hlt r
  rw [hover, BitVec.msb_and, BitVec.msb_not, BitVec.msb_xor, BitVec.msb_xor, Bool.eq_iff_iff,
    decide_eq_true_iff]
  have hsx := signed_cases x
  have hsy := signed_cases y
  have hsr := signed_cases r
  rw [hpow] at hmod
  generalize 2 ^ n = p at hmod hsx hsy hsr hx hy hz
  rcases hsx with ⟨hxm, hx', hxi⟩ | ⟨hxm, hx', hxi⟩ <;>
    rcases hsy with ⟨hym, hy', hyi⟩ | ⟨hym, hy', hyi⟩ <;>
      rcases hsr with ⟨hrm, hr', hri⟩ | ⟨hrm, hr', hri⟩ <;>
        rw [hxm, hym, hrm, hxi, hyi, hri, decide_eq_true hw] <;> simp <;> omega

theorem sub_result : (addWithCarry x (~~~y) true).result = x - y := by
  rw [add_result, BitVec.sub_eq_add_neg, BitVec.neg_eq_not_add, BitVec.add_assoc]
  rfl

theorem sub_result_carry :
    (addWithCarry x (~~~y) c).result = x - y + bitWord w c - 1#w := by
  rw [add_result, BitVec.not_eq_neg_add]
  simp only [BitVec.sub_eq_add_neg]
  ac_rfl

theorem sub_carry : (addWithCarry x (~~~y) true).carry = decide (y.toNat ≤ x.toNat) := by
  have hy := y.isLt
  rw [add_carry, BitVec.toNat_not, Bool.toNat_true, decide_eq_decide]
  omega

theorem sub_overflow (hw : 0 < w) :
    (addWithCarry x (~~~y) true).overflow = (((x - y) ^^^ x) &&& (x ^^^ y)).msb := by
  have hnot : ~~~(x ^^^ ~~~y) = x ^^^ y := by
    ext i hi
    simp
  rw [add_overflow x (~~~y) true hw, sub_result, hnot]

theorem sub_zero_iff : (addWithCarry x (~~~y) true).result = 0#w ↔ x = y := by
  rw [sub_result]
  refine ⟨fun h ↦ ?_, fun h ↦ by rw [h, BitVec.sub_self]⟩
  rw [← BitVec.sub_add_cancel x y, h, BitVec.zero_add]

/-- A difference has the sign that its overflow flag says if the first word is not the smaller
one, as signed numbers. -/
theorem sub_sign (hw : 0 < w) :
    ((addWithCarry x (~~~y) true).result.msb == (addWithCarry x (~~~y) true).overflow) =
      decide (y.toInt ≤ x.toInt) := by
  obtain ⟨n, rfl⟩ := Nat.exists_eq_succ_of_ne_zero hw.ne'
  have hpow : 2 ^ (n + 1) = 2 * 2 ^ n := pow_succ' 2 n
  have hsub : (x - y).toNat = (2 ^ (n + 1) - y.toNat + x.toNat) % 2 ^ (n + 1) :=
    BitVec.toNat_sub x y
  have hx := x.isLt
  have hy := y.isLt
  have hr := (x - y).isLt
  have hmod : (x - y).toNat + y.toNat = x.toNat ∨
      (x - y).toNat + y.toNat = x.toNat + 2 ^ (n + 1) := by
    rw [hsub]
    by_cases h : y.toNat ≤ x.toNat
    · rw [Nat.mod_eq_sub_mod (by omega), Nat.mod_eq_of_lt (by omega)]
      omega
    · rw [Nat.mod_eq_of_lt (by omega)]
      omega
  rw [sub_result, sub_overflow x y hw, BitVec.msb_and, BitVec.msb_xor, BitVec.msb_xor,
    Bool.eq_iff_iff, decide_eq_true_iff]
  have hsx := signed_cases x
  have hsy := signed_cases y
  have hsr := signed_cases (x - y)
  clear hsub
  rw [hpow] at hmod hx hy hr
  generalize 2 ^ n = p at hmod hsx hsy hsr hx hy hr
  rcases hsx with ⟨hxm, hx', hxi⟩ | ⟨hxm, hx', hxi⟩ <;>
    rcases hsy with ⟨hym, hy', hyi⟩ | ⟨hym, hy', hyi⟩ <;>
      rcases hsr with ⟨hrm, hr', hri⟩ | ⟨hrm, hr', hri⟩ <;>
        rw [hxm, hym, hrm, hxi, hyi] <;> first
          | exact iff_of_true rfl (by omega)
          | exact iff_of_false (by decide) (by omega)

theorem toInt_complement (hw : 0 < w) : (~~~y).toInt = -y.toInt - 1 := by
  obtain ⟨n, rfl⟩ := Nat.exists_eq_succ_of_ne_zero hw.ne'
  have hy := y.isLt
  have hnot : (~~~y).toNat = 2 ^ (n + 1) - 1 - y.toNat := BitVec.toNat_not
  have hsy := signed_cases y
  have hsn := signed_cases (~~~y)
  have hpow : 2 ^ (n + 1) = 2 * 2 ^ n := pow_succ' 2 n
  rw [hpow] at hy hnot
  generalize 2 ^ n = p at hy hnot hsy hsn
  omega

theorem sub_overflow_iff (hw : 0 < w) :
    (addWithCarry x (~~~y) true).overflow = decide ((x - y).toInt ≠ x.toInt - y.toInt) := by
  have hover : (addWithCarry x (~~~y) true).overflow =
      decide ((addWithCarry x (~~~y) true).result.toInt ≠ x.toInt + (~~~y).toInt + 1) := rfl
  rw [hover, sub_result, toInt_complement y hw,
    show x.toInt + (-y.toInt - 1) + 1 = x.toInt - y.toInt by omega]

/-- A sum in a wider word has the result in its lower part and the carry above it. -/
theorem split_result {n : ℕ} {t : BitVec n} (ht : t.toNat = x.toNat + y.toNat + c.toNat) :
    t.setWidth w = (addWithCarry x y c).result := by
  apply BitVec.eq_of_toNat_eq
  rw [BitVec.toNat_setWidth, ht]
  exact (BitVec.toNat_ofNat _ _).symm

theorem split_carry {n : ℕ} {t : BitVec n} (ht : t.toNat = x.toNat + y.toNat + c.toNat) :
    (t >>> w).setWidth w = bitWord w (addWithCarry x y c).carry := by
  have hx := x.isLt
  have hy := y.isLt
  have hc : c.toNat ≤ 1 := Bool.toNat_le c
  have hdiv : t.toNat / 2 ^ w = (addWithCarry x y c).carry.toNat := by
    rw [add_carry, ht]
    by_cases h : 2 ^ w ≤ x.toNat + y.toNat + c.toNat
    · rw [decide_eq_true h, Bool.toNat_true]
      exact Nat.div_eq_of_lt_le (by omega) (by omega)
    · rw [decide_eq_false h, Bool.toNat_false]
      exact Nat.div_eq_of_lt (not_le.mp h)
  apply BitVec.eq_of_toNat_eq
  rw [BitVec.toNat_setWidth, BitVec.toNat_ushiftRight, Nat.shiftRight_eq_div_pow, hdiv]
  exact (BitVec.toNat_ofNat _ _).symm

end Sums

inductive Shift
  | lsl
  | lsr
  | asr
  | ror
  deriving DecidableEq, Repr

/-- A shift together with the last bit that it moves out. -/
def shiftC (x : BitVec w) (k : ℕ) (c : Bool) (type : Shift) : BitVec w × Bool :=
  if k = 0 then (x, c)
  else match type with
    | .lsl => (x <<< k, (x.toNat <<< k).testBit w)
    | .lsr => (x >>> k, x.toNat.testBit (k - 1))
    | .asr => (x.sshiftRight k, (x.sshiftRight (k - 1)).getLsbD 0)
    | .ror => (x.rotateRight k, (x.rotateRight k).msb)

/-- A rotation by one place through the carry. -/
def rrxC (x : BitVec w) (c : Bool) : BitVec w × Bool :=
  ((x >>> 1) ||| (bitWord w c <<< (w - 1)), x.getLsbD 0)

section Shifts

variable (x : BitVec w) (c : Bool) {k : ℕ}

theorem shift_zero (type : Shift) : shiftC x 0 c type = (x, c) := if_pos rfl

theorem getLsbD_bit_word (b : Bool) (i : ℕ) :
    (bitWord w b).getLsbD i = (decide (i < w) && decide (i = 0) && b) := by
  cases b
  · simp [bitWord]
  · cases i <;> simp [bitWord]

theorem bit_word_eq (j : ℕ) : (x >>> j) &&& 1#w = bitWord w (x.getLsbD j) := by
  apply BitVec.eq_of_getLsbD_eq
  intro i hi
  rw [getLsbD_bit_word, BitVec.getLsbD_and, BitVec.getLsbD_ushiftRight, BitVec.getLsbD_one]
  by_cases h0 : i = 0
  · simp [h0, Bool.and_comm]
  · simp [h0]

theorem lsl_small (hk : k ≠ 0) (hw : k ≤ w) :
    shiftC x k c .lsl = (x <<< k, x.getLsbD (w - k)) := by
  have hbit : (x.toNat <<< k).testBit w = x.getLsbD (w - k) := by
    rw [Nat.testBit_shiftLeft, decide_eq_true hw, Bool.true_and]
    rfl
  rw [shiftC, if_neg hk, hbit]

theorem lsl_large (hw : w < k) : shiftC x k c .lsl = (0, false) := by
  have hbit : (x.toNat <<< k).testBit w = false := by
    rw [Nat.testBit_shiftLeft, decide_eq_false (not_le.mpr hw), Bool.false_and]
  rw [shiftC, if_neg (Nat.ne_of_gt (Nat.zero_lt_of_lt hw)), hbit, BitVec.shiftLeft_eq_zero hw.le]
  rfl

theorem lsr_nonzero (hk : k ≠ 0) : shiftC x k c .lsr = (x >>> k, x.getLsbD (k - 1)) := if_neg hk

theorem lsr_large (hw : w < k) : shiftC x k c .lsr = (0, false) := by
  rw [lsr_nonzero x c (Nat.ne_of_gt (Nat.zero_lt_of_lt hw)), BitVec.ushiftRight_eq_zero hw.le,
    BitVec.getLsbD_of_ge _ _ (Nat.le_sub_one_of_lt hw)]
  rfl

theorem asr_small (hk : k ≠ 0) (hw : k ≤ w) :
    shiftC x k c .asr = (x.sshiftRight k, x.getLsbD (k - 1)) := by
  have hlt : k - 1 + 0 < w := by omega
  have hpos : ¬w ≤ 0 := by omega
  have hbit : (x.sshiftRight (k - 1)).getLsbD 0 = x.getLsbD (k - 1) := by
    rw [BitVec.getLsbD_sshiftRight, decide_eq_false hpos, if_pos hlt]
    rfl
  rw [shiftC, if_neg hk, hbit]

theorem asr_large (hpos : 0 < w) (hw : w ≤ k) :
    shiftC x k c .asr = (x.sshiftRight (w - 1), x.msb) := by
  have hresult : x.sshiftRight k = x.sshiftRight (w - 1) := by
    apply BitVec.eq_of_getLsbD_eq
    intro i hi
    rw [BitVec.getLsbD_sshiftRight, BitVec.getLsbD_sshiftRight, if_neg (by omega)]
    split_ifs with h
    · rw [show w - 1 + i = w - 1 by omega, BitVec.msb_eq_getLsbD_last]
    · rfl
  have hbit : (x.sshiftRight (k - 1)).getLsbD 0 = x.msb := by
    rw [BitVec.getLsbD_sshiftRight, decide_eq_false (not_le.mpr hpos)]
    split_ifs with h
    · rw [show k - 1 + 0 = w - 1 by omega, BitVec.msb_eq_getLsbD_last]
      rfl
    · rfl
  rw [shiftC, if_neg (Nat.ne_of_gt (hpos.trans_le hw)), hresult, hbit]

theorem ror_small (hk : k ≠ 0) (hw : k < w) :
    shiftC x k c .ror = (x.rotateRight k, x.getLsbD (k - 1)) := by
  have hbit : (x.rotateRight k).msb = x.getLsbD (k - 1) := by
    rw [BitVec.msb_eq_getLsbD_last, BitVec.getLsbD_rotateRight, Nat.mod_eq_of_lt hw,
      decide_eq_false (by omega), decide_eq_true (by omega), show w - 1 - (w - k) = k - 1 by omega]
    rfl
  rw [shiftC, if_neg hk, hbit]

theorem rotate_zero : x.rotateRight 0 = x := by
  apply BitVec.eq_of_getLsbD_eq
  intro i hi
  rw [BitVec.getLsbD_rotateRight]
  simp [hi]

theorem ror_mod (hk : k ≠ 0) :
    shiftC x k c .ror = if k % w = 0 then (x, x.msb) else shiftC x (k % w) c .ror := by
  have hrot : x.rotateRight k = x.rotateRight (k % w) :=
    BitVec.rotateRight_mod_eq_rotateRight.symm
  rw [shiftC, if_neg hk, hrot]
  split_ifs with h
  · rw [h, rotate_zero]
  · rw [shiftC, if_neg h]

end Shifts

end VarEmu.Library.WordArith
