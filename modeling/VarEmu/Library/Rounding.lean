import Mathlib.Algebra.Order.Field.Power
import Mathlib.Algebra.Order.Floor.Semifield
import Mathlib.Data.Int.Log
import Mathlib.Data.Rat.Floor
import Mathlib.Tactic.Linarith
import Mathlib.Tactic.Positivity
import Mathlib.Tactic.FieldSimp

namespace VarEmu.Library.Rounding

/-- The nearest natural number, and of two the even one. -/
def roundHalfEven (q : ℚ) : ℕ :=
  let n := ⌊q⌋₊
  if q - n < 1 / 2 then n
  else if 1 / 2 < q - n then n + 1
  else if n % 2 = 0 then n else n + 1

section HalfEven

variable {x : ℚ} {n : ℕ}

theorem round_half_even_natCast (n : ℕ) : roundHalfEven n = n := by
  simp [roundHalfEven]

theorem floor_le_round_half_even (x : ℚ) : ⌊x⌋₊ ≤ roundHalfEven x := by
  unfold roundHalfEven
  dsimp only
  split_ifs <;> omega

theorem round_half_even_le (x : ℚ) : roundHalfEven x ≤ ⌊x⌋₊ + 1 := by
  unfold roundHalfEven
  dsimp only
  split_ifs <;> omega

theorem le_round_half_even (hx : (n : ℚ) ≤ x) : n ≤ roundHalfEven x :=
  (Nat.le_floor hx).trans (floor_le_round_half_even x)

theorem round_half_even_le_of_le (hx : x ≤ n) : roundHalfEven x ≤ n := by
  rcases hx.lt_or_eq with hlt | rfl
  · rcases n.eq_zero_or_pos with rfl | hn
    · have hfloor : ⌊x⌋₊ = 0 := Nat.floor_of_nonpos hx
      have hneg : x < 0 := by exact_mod_cast hlt
      rw [roundHalfEven, hfloor, if_pos (by push_cast; linarith)]
    · exact (round_half_even_le x).trans ((Nat.floor_lt' hn.ne').mpr hlt)
  · exact (round_half_even_natCast n).le

theorem round_half_even_error (hx : 0 ≤ x) : |(roundHalfEven x : ℚ) - x| ≤ 1 / 2 := by
  have hlow : (⌊x⌋₊ : ℚ) ≤ x := Nat.floor_le hx
  have hhigh : x < ⌊x⌋₊ + 1 := Nat.lt_floor_add_one x
  unfold roundHalfEven
  dsimp only
  rw [abs_le]
  split_ifs <;> push_cast <;> constructor <;> linarith

theorem round_half_even_nearest (hx : 0 ≤ x) (k : ℤ) :
    |(roundHalfEven x : ℚ) - x| ≤ |(k : ℚ) - x| := by
  by_cases hk : (roundHalfEven x : ℤ) = k
  · rw [← hk, Int.cast_natCast]
  have happart : (1 : ℚ) ≤ |(roundHalfEven x : ℚ) - k| := by
    exact_mod_cast Int.one_le_abs (sub_ne_zero.mpr hk)
  have htriangle : |(roundHalfEven x : ℚ) - k| ≤ |(roundHalfEven x : ℚ) - x| + |(k : ℚ) - x| := by
    rw [abs_sub_comm (k : ℚ) x]
    exact abs_sub_le _ _ _
  linarith [round_half_even_error hx]

/-- Below the middle before an even number it is not reached, and from the middle on it is. -/
theorem round_half_even_lt_iff (hx : 0 ≤ x) (hn : n % 2 = 0) :
    roundHalfEven x < n ↔ x < n - 1 / 2 := by
  have hlow : (⌊x⌋₊ : ℚ) ≤ x := Nat.floor_le hx
  have hhigh : x < ⌊x⌋₊ + 1 := Nat.lt_floor_add_one x
  have hcases : ⌊x⌋₊ + 1 < n ∨ n = ⌊x⌋₊ + 1 ∨ n ≤ ⌊x⌋₊ := by omega
  rcases hcases with h | rfl | h
  · have hcast : (⌊x⌋₊ : ℚ) + 2 ≤ n := by exact_mod_cast h
    exact iff_of_true ((round_half_even_le x).trans_lt h) (by linarith)
  · have hodd : ¬⌊x⌋₊ % 2 = 0 := by omega
    rw [roundHalfEven]
    push_cast
    split_ifs with hlt hgt
    · exact iff_of_true (Nat.lt_succ_self _) (by linarith)
    · exact iff_of_false (lt_irrefl _) (by linarith)
    · exact iff_of_false (lt_irrefl _) (by linarith)
  · have hcast : (n : ℚ) ≤ ⌊x⌋₊ := by exact_mod_cast h
    exact iff_of_false (h.trans (floor_le_round_half_even x)).not_gt (by linarith)

end HalfEven

/-- The binary exponent of a number. -/
def exponent (q : ℚ) : ℤ := Int.log 2 |q|

section Exponent

variable {q : ℚ} {e : ℤ}

theorem pow_exponent_le (hq : q ≠ 0) : (2 : ℚ) ^ exponent q ≤ |q| := by
  exact_mod_cast Int.zpow_log_le_self one_lt_two (abs_pos.mpr hq)

theorem lt_pow_exponent (q : ℚ) : |q| < 2 ^ (exponent q + 1) := by
  exact_mod_cast Int.lt_zpow_succ_log_self one_lt_two |q|

theorem exponent_lt (hq : q ≠ 0) (h : |q| < 2 ^ e) : exponent q < e :=
  (Int.lt_zpow_iff_log_lt one_lt_two (abs_pos.mpr hq)).mp (by exact_mod_cast h)

theorem le_exponent (hq : q ≠ 0) (h : (2 : ℚ) ^ e ≤ |q|) : e ≤ exponent q :=
  (Int.zpow_le_iff_le_log one_lt_two (abs_pos.mpr hq)).mp (by exact_mod_cast h)

end Exponent

/-- A binary floating-point format with gradual underflow: its numbers are the multiples of
`2 ^ minExponent` below `2 ^ maxExponent` that have at most `precision` significant bits. -/
structure Format where
  precision : ℕ
  minExponent : ℤ
  maxExponent : ℤ
  precision_pos : 0 < precision
  room : minExponent + precision ≤ maxExponent

namespace Format

variable (F : Format)

def Representable (v : ℚ) : Prop :=
  ∃ m e : ℤ, v = m * 2 ^ e ∧ |m| < 2 ^ F.precision ∧ F.minExponent ≤ e ∧
    e + F.precision ≤ F.maxExponent

/-- The exponent of the last place of the numbers next to `v`. -/
def lastPlace (v : ℚ) : ℤ := max (exponent v + 1 - F.precision) F.minExponent

def magnitude (v : ℚ) : ℚ := roundHalfEven (|v| / 2 ^ F.lastPlace v) * 2 ^ F.lastPlace v

/-- The nearest number of the format, and none where that would be beyond its range. -/
def round (v : ℚ) : Option ℚ :=
  if F.magnitude v < 2 ^ F.maxExponent then
    some (if v < 0 then -F.magnitude v else F.magnitude v)
  else none

def leastNormal : ℚ := 2 ^ (F.minExponent + F.precision - 1)

/-- From here on, rounding leaves the range. -/
def overflowThreshold : ℚ := 2 ^ F.maxExponent - 2 ^ (F.maxExponent - F.precision - 1)

/-- Numbers the format has to its full precision: those of the normal range, and below it those
that happen to be close to a multiple of the least positive number. -/
def Resolves (v : ℚ) : Prop :=
  F.leastNormal ≤ |v| ∧ |v| < F.overflowThreshold ∨
  |v| < F.leastNormal ∧ ∃ k : ℤ, |k * 2 ^ F.minExponent - v| ≤ |v| / 2 ^ F.precision

section Magnitude

variable {F} {v : ℚ}

theorem magnitude_zero : F.magnitude 0 = 0 := by
  simp [magnitude, roundHalfEven]

theorem exponent_le_last_place (v : ℚ) : exponent v + 1 ≤ F.lastPlace v + F.precision := by
  unfold lastPlace
  omega

theorem scaled_nonneg : 0 ≤ |v| / 2 ^ F.lastPlace v := by positivity

theorem error_scaled (a : ℚ) :
    |a * 2 ^ F.lastPlace v - abs v| =
      |a - abs v / 2 ^ F.lastPlace v| * 2 ^ F.lastPlace v := by
  have hpos : (0 : ℚ) < 2 ^ F.lastPlace v := by positivity
  rw [← abs_of_pos hpos, ← abs_mul, abs_of_pos hpos, sub_mul, div_mul_cancel₀ _ hpos.ne']

theorem magnitude_nearest (v : ℚ) (k : ℤ) :
    |F.magnitude v - abs v| ≤ |k * 2 ^ F.lastPlace v - abs v| := by
  rw [magnitude, error_scaled, error_scaled]
  exact mul_le_mul_of_nonneg_right (round_half_even_nearest scaled_nonneg k) (by positivity)

theorem magnitude_error (v : ℚ) : |F.magnitude v - abs v| ≤ 2 ^ F.lastPlace v / 2 := by
  have hscaled := mul_le_mul_of_nonneg_right
    (round_half_even_error (scaled_nonneg (F := F) (v := v)))
    (show (0 : ℚ) ≤ 2 ^ F.lastPlace v by positivity)
  rw [magnitude, error_scaled]
  linarith

theorem magnitude_of_multiple {n : ℕ} (h : |v| = n * 2 ^ F.lastPlace v) : F.magnitude v = |v| := by
  have hpos : (2 : ℚ) ^ F.lastPlace v ≠ 0 := by positivity
  have hscaled : |v| / 2 ^ F.lastPlace v = n := by rw [h, mul_div_cancel_right₀ _ hpos]
  rw [magnitude, hscaled, round_half_even_natCast, h]

variable (F) in
theorem abs_lt_precision (v : ℚ) : |v| < 2 ^ (F.lastPlace v + F.precision) :=
  (lt_pow_exponent v).trans_le (zpow_le_zpow_right₀ one_le_two (exponent_le_last_place v))

theorem places_mul (n : ℕ) (e : ℤ) : ((2 ^ n : ℕ) : ℚ) * 2 ^ e = 2 ^ (e + n) := by
  rw [zpow_add₀ two_ne_zero, zpow_natCast, mul_comm]
  norm_cast

theorem magnitude_le (v : ℚ) : F.magnitude v ≤ 2 ^ (F.lastPlace v + F.precision) := by
  have hpos : (0 : ℚ) < 2 ^ F.lastPlace v := by positivity
  have hscaled : |v| / 2 ^ F.lastPlace v ≤ (2 ^ F.precision : ℕ) := by
    rw [div_le_iff₀ hpos, places_mul]
    exact (abs_lt_precision F v).le
  have hround : (roundHalfEven (|v| / 2 ^ F.lastPlace v) : ℚ) ≤ (2 ^ F.precision : ℕ) := by
    exact_mod_cast round_half_even_le_of_le hscaled
  rw [magnitude, ← places_mul]
  exact mul_le_mul_of_nonneg_right hround hpos.le

theorem magnitude_lt_iff_of_last (hlast : F.lastPlace v + F.precision = F.maxExponent) :
    F.magnitude v < 2 ^ F.maxExponent ↔ |v| < F.overflowThreshold := by
  have hpos : (0 : ℚ) < 2 ^ F.lastPlace v := by positivity
  have heven : 2 ^ F.precision % 2 = 0 :=
    Nat.mod_eq_zero_of_dvd (dvd_pow_self 2 F.precision_pos.ne')
  have hthreshold : F.overflowThreshold =
      (((2 ^ F.precision : ℕ) : ℚ) - 1 / 2) * 2 ^ F.lastPlace v := by
    have hlow : F.maxExponent - F.precision - 1 = F.lastPlace v - 1 := by omega
    rw [overflowThreshold, hlow, ← hlast, sub_mul, places_mul, zpow_sub_one₀ two_ne_zero]
    ring
  rw [magnitude, hthreshold, ← hlast, ← places_mul, mul_lt_mul_iff_left₀ hpos, Nat.cast_lt,
    round_half_even_lt_iff scaled_nonneg heven, div_lt_iff₀ hpos]

theorem overflow_threshold_lt : F.overflowThreshold < 2 ^ F.maxExponent := by
  have hpos : (0 : ℚ) < 2 ^ (F.maxExponent - F.precision - 1) := by positivity
  rw [overflowThreshold]
  linarith

theorem le_overflow_threshold : 2 ^ (F.maxExponent - 1) ≤ F.overflowThreshold := by
  have hdouble : (2 : ℚ) ^ F.maxExponent = 2 ^ (F.maxExponent - 1) * 2 := by
    rw [← zpow_add_one₀ two_ne_zero, sub_add_cancel]
  have hless : (2 : ℚ) ^ (F.maxExponent - F.precision - 1) ≤ 2 ^ (F.maxExponent - 1) :=
    zpow_le_zpow_right₀ one_le_two (by omega)
  rw [overflowThreshold]
  linarith

/-- Rounding stays in the range below the middle between the greatest number and the one that
would follow it. -/
theorem magnitude_lt_iff (hv : v ≠ 0) :
    F.magnitude v < 2 ^ F.maxExponent ↔ |v| < F.overflowThreshold := by
  rcases lt_trichotomy (F.lastPlace v + F.precision) F.maxExponent with hlt | heq | hgt
  · have hbelow : |v| < 2 ^ (F.maxExponent - 1) :=
      (abs_lt_precision F v).trans_le (zpow_le_zpow_right₀ one_le_two (by omega))
    have hmagnitude : F.magnitude v < 2 ^ F.maxExponent :=
      (magnitude_le v).trans_lt (zpow_lt_zpow_right₀ one_lt_two hlt)
    exact iff_of_true hmagnitude (hbelow.trans_le le_overflow_threshold)
  · exact magnitude_lt_iff_of_last heq
  · have hroom := F.room
    have hlast : F.lastPlace v = exponent v + 1 - F.precision := by
      unfold lastPlace at hgt ⊢
      omega
    have hlarge : (2 : ℚ) ^ F.maxExponent ≤ 2 ^ exponent v :=
      zpow_le_zpow_right₀ one_le_two (by omega)
    have hleading : ((2 ^ (F.precision - 1) : ℕ) : ℚ) * 2 ^ F.lastPlace v = 2 ^ exponent v := by
      have hpos := F.precision_pos
      rw [places_mul, hlast]
      congr 1
      omega
    have hmagnitude : (2 : ℚ) ^ exponent v ≤ F.magnitude v := by
      have hpos : (0 : ℚ) < 2 ^ F.lastPlace v := by positivity
      have hscaled : ((2 ^ (F.precision - 1) : ℕ) : ℚ) ≤ |v| / 2 ^ F.lastPlace v := by
        rw [le_div_iff₀ hpos, hleading]
        exact pow_exponent_le hv
      rw [← hleading, magnitude]
      exact mul_le_mul_of_nonneg_right (Nat.cast_le.mpr (le_round_half_even hscaled)) hpos.le
    exact iff_of_false (hlarge.trans hmagnitude).not_gt
      (overflow_threshold_lt.le.trans (hlarge.trans (pow_exponent_le hv))).not_gt

end Magnitude

section Round

variable {F} {v q : ℚ}

theorem round_eq_some : F.round v = some q ↔ F.magnitude v < 2 ^ F.maxExponent ∧
    (if v < 0 then -F.magnitude v else F.magnitude v) = q := by
  by_cases h : F.magnitude v < 2 ^ F.maxExponent <;> simp [round, h]

theorem signed_abs (v : ℚ) : (if v < 0 then -abs v else abs v) = v := by
  split_ifs with h
  · rw [abs_of_neg h, neg_neg]
  · exact abs_of_nonneg (not_lt.mp h)

theorem signed_error (v r : ℚ) : |(if v < 0 then -r else r) - v| = |r - abs v| := by
  split_ifs with h
  · rw [abs_of_neg h, ← abs_neg]
    congr 1
    ring
  · rw [abs_of_nonneg (not_lt.mp h)]

theorem round_nonneg (hv : 0 ≤ v) (h : F.round v = some q) : 0 ≤ q := by
  obtain ⟨-, rfl⟩ := round_eq_some.mp h
  rw [if_neg hv.not_gt, magnitude]
  positivity

theorem round_zero : F.round 0 = some 0 := by
  rw [round_eq_some, magnitude_zero]
  exact ⟨by positivity, by simp⟩

theorem round_of_representable (h : F.Representable v) : F.round v = some v := by
  by_cases hv : v = 0
  · rw [hv, round_zero]
  obtain ⟨m, e, hvalue, hm, hmin, hmax⟩ := h
  have habs : |v| = m.natAbs * 2 ^ e := by
    rw [hvalue, abs_mul, abs_of_pos (show (0 : ℚ) < 2 ^ e by positivity), Nat.cast_natAbs,
      Int.cast_abs]
  have hlt : |v| < 2 ^ (e + F.precision) := by
    have hcast : (m.natAbs : ℚ) < (2 ^ F.precision : ℕ) := by
      have hnat : m.natAbs < 2 ^ F.precision := by
        zify
        exact hm
      exact_mod_cast hnat
    rw [habs, ← places_mul]
    exact mul_lt_mul_of_pos_right hcast (by positivity)
  have hlast : F.lastPlace v ≤ e := by
    have hexp := exponent_lt hv hlt
    unfold lastPlace
    omega
  have hmultiple : |v| = (m.natAbs * 2 ^ (e - F.lastPlace v).toNat : ℕ) * 2 ^ F.lastPlace v := by
    rw [Nat.cast_mul, mul_assoc, places_mul, habs]
    congr 2
    omega
  rw [round_eq_some, magnitude_of_multiple hmultiple]
  exact ⟨hlt.trans_le (zpow_le_zpow_right₀ one_le_two hmax), signed_abs v⟩

theorem representable_of_round (h : F.round v = some v) : F.Representable v := by
  have hroom := F.room
  by_cases hv : v = 0
  · exact ⟨0, F.minExponent, by simp [hv], by positivity, le_rfl, hroom⟩
  obtain ⟨hrange, hsigned⟩ := round_eq_some.mp h
  have habs : |v| = roundHalfEven (|v| / 2 ^ F.lastPlace v) * 2 ^ F.lastPlace v := by
    have herror := signed_error v (F.magnitude v)
    rw [hsigned, sub_self, abs_zero] at herror
    exact (sub_eq_zero.mp (abs_eq_zero.mp herror.symm)).symm
  set n := roundHalfEven (|v| / 2 ^ F.lastPlace v)
  refine ⟨if v < 0 then -n else n, F.lastPlace v, ?_, ?_, le_max_right _ _, ?_⟩
  · conv_lhs => rw [← signed_abs v, habs]
    split_ifs <;> simp
  · have hlt : (n : ℚ) * 2 ^ F.lastPlace v < (2 ^ F.precision : ℕ) * 2 ^ F.lastPlace v := by
      rw [places_mul, ← habs]
      exact abs_lt_precision F v
    have hn : n < 2 ^ F.precision := by
      exact_mod_cast lt_of_mul_lt_mul_right hlt (by positivity)
    have hmagnitude : |if v < 0 then -(n : ℤ) else n| = n := by
      split_ifs <;> simp
    rw [hmagnitude]
    exact_mod_cast hn
  · have hexp : exponent v < F.maxExponent := by
      apply exponent_lt hv
      rw [habs]
      exact hrange
    unfold lastPlace
    omega

theorem round_eq_self_iff : F.round v = some v ↔ F.Representable v :=
  ⟨representable_of_round, round_of_representable⟩

theorem exists_round_iff {bound : ℚ} :
    (∃ q, F.round v = some q ∧ |q - v| ≤ bound) ↔
      F.magnitude v < 2 ^ F.maxExponent ∧ |F.magnitude v - abs v| ≤ bound := by
  constructor
  · rintro ⟨q, hq, herror⟩
    obtain ⟨hrange, rfl⟩ := round_eq_some.mp hq
    rw [signed_error] at herror
    exact ⟨hrange, herror⟩
  · rintro ⟨hrange, herror⟩
    exact ⟨_, round_eq_some.mpr ⟨hrange, rfl⟩, (signed_error v _).trans_le herror⟩

theorem least_normal_pos : 0 < F.leastNormal := by
  unfold leastNormal
  positivity

theorem normal_error (h : F.leastNormal ≤ |v|) :
    |F.magnitude v - abs v| ≤ |v| / 2 ^ F.precision := by
  have hv : v ≠ 0 := abs_pos.mp (least_normal_pos.trans_le h)
  have hexp : F.minExponent + F.precision - 1 ≤ exponent v := le_exponent hv h
  have hlast : F.lastPlace v = exponent v + 1 - F.precision := by
    unfold lastPlace
    omega
  calc |F.magnitude v - abs v| ≤ 2 ^ F.lastPlace v / 2 := magnitude_error v
    _ = 2 ^ exponent v / 2 ^ F.precision := by
        rw [hlast, zpow_sub₀ two_ne_zero, zpow_add_one₀ two_ne_zero, zpow_natCast]
        ring
    _ ≤ |v| / 2 ^ F.precision := by
        gcongr
        exact pow_exponent_le hv

theorem last_place_subnormal (hv : v ≠ 0) (h : |v| < F.leastNormal) :
    F.lastPlace v = F.minExponent := by
  have hexp : exponent v < F.minExponent + F.precision - 1 := exponent_lt hv h
  unfold lastPlace
  omega

theorem subnormal_in_range (h : |v| < F.leastNormal) : |v| < F.overflowThreshold := by
  have hroom := F.room
  refine h.trans_le (le_trans ?_ le_overflow_threshold)
  exact zpow_le_zpow_right₀ one_le_two (by omega)

/-- Below the normal range nothing is lost but what the distance to the nearest multiple of the
least positive number takes. -/
theorem subnormal_error_iff (hv : v ≠ 0) (h : |v| < F.leastNormal) {bound : ℚ} :
    |F.magnitude v - abs v| ≤ bound ↔ ∃ k : ℤ, |k * 2 ^ F.minExponent - v| ≤ bound := by
  have hlast := last_place_subnormal hv h
  constructor
  · intro herror
    refine ⟨if v < 0 then -roundHalfEven (|v| / 2 ^ F.lastPlace v)
      else roundHalfEven (|v| / 2 ^ F.lastPlace v), le_of_eq_of_le ?_ herror⟩
    rw [← signed_error v, magnitude, hlast]
    split_ifs <;> simp
  · rintro ⟨k, hk⟩
    refine (magnitude_nearest v (if v < 0 then -k else k)).trans (le_of_eq_of_le ?_ hk)
    rw [hlast, ← signed_error v]
    split_ifs <;> simp

/-- Rounding loses no more than the precision of the format exactly on what it resolves. -/
theorem round_close_iff :
    (∃ q, F.round v = some q ∧ |q - v| ≤ |v| / 2 ^ F.precision) ↔ F.Resolves v := by
  by_cases hv : v = 0
  · refine iff_of_true ⟨0, by rw [hv, round_zero], by simp [hv]⟩ (.inr ⟨?_, 0, by simp [hv]⟩)
    simpa [hv] using least_normal_pos
  rw [exists_round_iff, magnitude_lt_iff hv, Resolves]
  rcases le_or_gt F.leastNormal |v| with h | h
  · simp [h, h.not_gt, normal_error h]
  · simp [h, h.not_ge, subnormal_in_range h, subnormal_error_iff hv h]

end Round

end Format

end VarEmu.Library.Rounding
