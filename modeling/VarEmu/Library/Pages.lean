import Mathlib.Data.Nat.Bitwise

namespace VarEmu.Library.Pages

variable {w v k : ℕ}

/-- The lowest `k` bits. -/
def low (w k : ℕ) : BitVec w := BitVec.ofNat w (2 ^ k - 1)

@[simp] theorem getLsbD_low (i : ℕ) : (low w k).getLsbD i = (decide (i < w) && decide (i < k)) := by
  simp [low, BitVec.getLsbD_ofNat, Nat.testBit_two_pow_sub_one]

@[simp] theorem getElem_low {i : ℕ} (hi : i < w) : (low w k)[i] = decide (i < k) := by
  rw [← BitVec.getLsbD_eq_getElem, getLsbD_low, decide_eq_true hi, Bool.true_and]

/-- The addresses agree but for their lowest `k` bits. -/
def SamePage (k : ℕ) (a b : BitVec w) : Prop := a >>> k = b >>> k

instance (a b : BitVec w) : Decidable (SamePage k a b) := inferInstanceAs (Decidable (_ = _))

variable {a b : BitVec w}

theorem samePage_iff_getLsbD :
    SamePage k a b ↔ ∀ i, k ≤ i → a.getLsbD i = b.getLsbD i := by
  constructor
  · intro h i hi
    have := congrArg (·.getLsbD (i - k)) h
    simpa [Nat.add_sub_cancel' hi] using this
  · intro h
    apply BitVec.eq_of_getLsbD_eq
    intro i _
    simpa using h (k + i) (Nat.le_add_right k i)

theorem SamePage.rfl : SamePage k a a := Eq.refl _

theorem SamePage.symm (h : SamePage k a b) : SamePage k b a := Eq.symm h

theorem samePage_iff_div : SamePage k a b ↔ a.toNat / 2 ^ k = b.toNat / 2 ^ k := by
  rw [SamePage, ← BitVec.toNat_inj, BitVec.toNat_ushiftRight, BitVec.toNat_ushiftRight,
    Nat.shiftRight_eq_div_pow, Nat.shiftRight_eq_div_pow]

theorem getLsbD_of_clear {m : BitVec w} (hm : m &&& low w k = 0#w) {i : ℕ} (hi : i < k) :
    m.getLsbD i = false := by
  by_cases hw : i < w
  · have hbit := congrArg (·.getLsbD i) hm
    simpa only [BitVec.getLsbD_and, getLsbD_low, hi, hw, decide_true, Bool.and_true,
      BitVec.getLsbD_zero] using hbit
  · exact BitVec.getLsbD_of_ge m i (not_lt.mp hw)

theorem getLsbD_of_full {m : BitVec w} (hm : m &&& low w k = low w k) {i : ℕ} (hi : i < k)
    (hw : i < w) : m.getLsbD i = true := by
  have hbit := congrArg (·.getLsbD i) hm
  simpa only [BitVec.getLsbD_and, getLsbD_low, hi, hw, decide_true, Bool.and_true] using hbit

/-- A field above the lowest `k` bits is the same for the whole page. -/
theorem SamePage.field (h : SamePage k a b) {s : ℕ} {m : BitVec w}
    (hm : m &&& low w (k - s) = 0#w) : (a >>> s) &&& m = (b >>> s) &&& m := by
  apply BitVec.eq_of_getLsbD_eq
  intro i _
  simp only [BitVec.getLsbD_and, BitVec.getLsbD_ushiftRight]
  by_cases hi : i < k - s
  · rw [getLsbD_of_clear hm hi, Bool.and_false, Bool.and_false]
  · rw [samePage_iff_getLsbD.mp h (s + i) (by omega)]

theorem SamePage.and (h : SamePage k a b) {m : BitVec w} (hm : m &&& low w k = 0#w) :
    a &&& m = b &&& m := by
  simpa using h.field (s := 0) hm

theorem SamePage.masked (h : SamePage k a b) (m : BitVec w) : SamePage k (a &&& m) (b &&& m) := by
  rw [samePage_iff_getLsbD] at h ⊢
  intro i hi
  simp [h i hi]

theorem SamePage.setWidth (h : SamePage k a b) : SamePage k (a.setWidth v) (b.setWidth v) := by
  rw [samePage_iff_getLsbD] at h ⊢
  intro i hi
  simp only [BitVec.getLsbD_setWidth, h i hi]

theorem SamePage.not (h : SamePage k a b) : SamePage k (~~~a) (~~~b) := by
  rw [samePage_iff_getLsbD] at h ⊢
  intro i hi
  simp only [BitVec.getLsbD_not, h i hi]

theorem and_low_toNat (a : BitVec w) (hk : k ≤ w) : (a &&& low w k).toNat = a.toNat % 2 ^ k := by
  have hlow : (low w k).toNat = 2 ^ k - 1 := by
    rw [low, BitVec.toNat_ofNat]
    have := Nat.pow_le_pow_right Nat.two_pos hk
    have := Nat.two_pow_pos k
    exact Nat.mod_eq_of_lt (by omega)
  rw [BitVec.toNat_and, hlow, Nat.and_two_pow_sub_one_eq_mod]

theorem clear_iff_dvd {c : BitVec w} (hk : k ≤ w) : c &&& low w k = 0#w ↔ 2 ^ k ∣ c.toNat := by
  rw [← BitVec.toNat_inj, and_low_toNat c hk, Nat.dvd_iff_mod_eq_zero]
  simp

theorem xor_above_eq_zero_iff : (a ^^^ b) &&& ~~~low w k = 0#w ↔ SamePage k a b := by
  rw [samePage_iff_getLsbD]
  constructor
  · intro h i hi
    by_cases hw : i < w
    · have hbit := congrArg (·.getLsbD i) h
      simpa only [BitVec.getLsbD_and, BitVec.getLsbD_xor, BitVec.getLsbD_not, getLsbD_low, hw,
        not_lt.mpr hi, decide_true, decide_false, Bool.and_false, Bool.not_false, Bool.and_true,
        BitVec.getLsbD_zero, bne_eq_false_iff_eq] using hbit
    · rw [BitVec.getLsbD_of_ge _ i (not_lt.mp hw), BitVec.getLsbD_of_ge _ i (not_lt.mp hw)]
  · intro h
    apply BitVec.eq_of_getLsbD_eq
    intro i hw
    simp only [BitVec.getLsbD_and, BitVec.getLsbD_xor, BitVec.getLsbD_not, getLsbD_low,
      BitVec.getLsbD_zero]
    by_cases hi : i < k
    · simp [hw, hi]
    · simp [h i (not_lt.mp hi)]

/-- Adding a multiple of the page size moves whole pages. -/
theorem SamePage.add (h : SamePage k a b) {c : BitVec w} (hk : k ≤ w) (hc : c &&& low w k = 0#w) :
    SamePage k (a + c) (b + c) := by
  obtain ⟨q, hq⟩ := (clear_iff_dvd hk).mp hc
  have hpow : 2 ^ w = 2 ^ k * 2 ^ (w - k) := by rw [← pow_add, Nat.add_sub_cancel' hk]
  have hk : 0 < 2 ^ k := Nat.two_pow_pos k
  rw [samePage_iff_div] at h ⊢
  rw [BitVec.toNat_add, BitVec.toNat_add, hpow, Nat.mod_mul_right_div_self,
    Nat.mod_mul_right_div_self, hq, Nat.add_mul_div_left _ _ hk, Nat.add_mul_div_left _ _ hk, h]

theorem add_and_low (a : BitVec w) {c : BitVec w} (hk : k ≤ w) (hc : c &&& low w k = 0#w) :
    (a + c) &&& low w k = a &&& low w k := by
  obtain ⟨q, hq⟩ := (clear_iff_dvd hk).mp hc
  rw [← BitVec.toNat_inj, and_low_toNat _ hk, and_low_toNat _ hk, BitVec.toNat_add,
    Nat.mod_mod_of_dvd _ (pow_dvd_pow 2 hk), hq, Nat.add_mul_mod_self_left]

/-- The address with the offset of `a` into the page of `x`. -/
def relocate (k : ℕ) (x a : BitVec w) : BitVec w := (x &&& ~~~low w k) ||| (a &&& low w k)

theorem getLsbD_relocate (x a : BitVec w) (i : ℕ) :
    (relocate k x a).getLsbD i = if i < k then a.getLsbD i else x.getLsbD i := by
  simp only [relocate, BitVec.getLsbD_or, BitVec.getLsbD_and, BitVec.getLsbD_not, getLsbD_low]
  by_cases hw : i < w
  · by_cases hi : i < k
    · simp [hw, hi]
    · simp [hw, hi]
  · simp [BitVec.getLsbD_of_ge _ i (not_lt.mp hw)]

/-- A frame combined with an offset that reaches past the page. -/
theorem SamePage.frame (h : SamePage k a b) {x o : BitVec w} (hx : x &&& low w k = 0#w)
    (ho : o &&& low w k = low w k) : x ||| (b &&& o) = relocate k (x ||| (a &&& o)) b := by
  apply BitVec.eq_of_getLsbD_eq
  intro i hw
  rw [getLsbD_relocate]
  simp only [BitVec.getLsbD_or, BitVec.getLsbD_and]
  split_ifs with hi
  · rw [getLsbD_of_clear hx hi, getLsbD_of_full ho hi hw, Bool.and_true, Bool.false_or]
  · rw [samePage_iff_getLsbD.mp h i (not_lt.mp hi)]

theorem samePage_base (a : BitVec w) : SamePage k (a &&& ~~~low w k) a := by
  rw [samePage_iff_getLsbD]
  intro i hi
  by_cases hw : i < w
  · simp [hw, not_lt.mpr hi]
  · rw [BitVec.getLsbD_of_ge _ i (not_lt.mp hw), BitVec.getLsbD_of_ge _ i (not_lt.mp hw)]

theorem base_and_low (a : BitVec w) : a &&& ~~~low w k &&& low w k = 0#w := by
  have hnone : ~~~low w k &&& low w k = 0#w := by rw [BitVec.and_comm, BitVec.and_not_self]; rfl
  rw [BitVec.and_assoc, hnone, BitVec.and_zero]

theorem relocate_base (x : BitVec w) (h : a &&& low w k = 0#w) :
    relocate k x a = x &&& ~~~low w k := by
  rw [relocate, h, BitVec.or_zero]

theorem relocate_eq_or {x : BitVec w} (h : x &&& ~~~low w k = x) (a : BitVec w) :
    relocate k x a = x ||| (a &&& low w k) := by
  rw [relocate, h]

theorem SamePage.relocate_self (h : SamePage k a b) : relocate k a b = b := by
  apply BitVec.eq_of_getLsbD_eq
  intro i _
  rw [getLsbD_relocate]
  split_ifs with hi
  · rfl
  · exact samePage_iff_getLsbD.mp h i (not_lt.mp hi)

theorem relocate_congr (x : BitVec w) (h : a &&& low w k = b &&& low w k) :
    relocate k x a = relocate k x b := by
  rw [relocate, h, relocate]

theorem setWidth_and_low (hk : k ≤ w) (h : a &&& low w k = b &&& low w k) :
    a.setWidth v &&& low v k = b.setWidth v &&& low v k := by
  have hlow : low v k = (low w k).setWidth v := by
    apply BitVec.eq_of_getLsbD_eq
    intro i hi
    simp only [getLsbD_low, BitVec.getLsbD_setWidth, hi, decide_true, Bool.true_and]
    by_cases hik : i < k
    · simp [hik, hik.trans_le hk]
    · simp [hik]
  rw [hlow, ← BitVec.setWidth_and, ← BitVec.setWidth_and, h]

theorem relocate_masked (x a : BitVec w) {m : BitVec w} (hm : m &&& low w k = low w k) :
    relocate k x (a &&& m) = relocate k x a :=
  relocate_congr x (by rw [BitVec.and_assoc, hm])

theorem relocate_setWidth (x a : BitVec w) :
    (relocate k x a).setWidth v = relocate k (x.setWidth v) (a.setWidth v) := by
  apply BitVec.eq_of_getLsbD_eq
  intro i _
  simp only [BitVec.getLsbD_setWidth, getLsbD_relocate]
  split_ifs with hi
  · rfl
  · rfl

end VarEmu.Library.Pages
