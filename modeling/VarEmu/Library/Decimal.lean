import Mathlib.Data.Nat.Log
import Mathlib.Data.Rat.Floor
import Mathlib.Tactic.FieldSimp
import Mathlib.Tactic.Linarith
import VarEmu.Library.Rounding

namespace VarEmu.Library.Decimal

open Rounding

def digitChar (d : Fin 10) : Char := Char.ofNat (48 + d.val)

/-- Horner's rule, most significant digit first. -/
def horner : ℕ → List (Fin 10) → ℕ := List.foldl fun acc d ↦ acc * 10 + d.val

inductive Sign
  | absent
  | plus
  | minus
  deriving DecidableEq

namespace Sign

def text : Sign → List Char
  | absent => []
  | plus => ['+']
  | minus => ['-']

def apply {α : Type} [Neg α] (x : α) : Sign → α
  | absent | plus => x
  | minus => -x

end Sign

structure IntegerText where
  sign : Sign
  digits : List (Fin 10)
  digits_ne : digits ≠ []

namespace IntegerText

def text (n : IntegerText) : List Char := n.sign.text ++ n.digits.map digitChar

def value (n : IntegerText) : ℤ := n.sign.apply (horner 0 n.digits : ℤ)

end IntegerText

/-- Decimal notation: digits with at most one point, and an exponent whose mark may be a capital. -/
structure DecimalText where
  sign : Sign
  int : List (Fin 10)
  fraction : Option (List (Fin 10))
  exponent : Option (Bool × IntegerText)
  digits_ne : int ++ fraction.getD [] ≠ []

namespace DecimalText

variable (d : DecimalText)

def fractionText : List Char := d.fraction.elim [] fun ds ↦ '.' :: ds.map digitChar

def exponentText : List Char :=
  d.exponent.elim [] fun (capital, n) ↦ (if capital then 'E' else 'e') :: n.text

def unsigned : List Char := d.int.map digitChar ++ (d.fractionText ++ d.exponentText)

def text : List Char := d.sign.text ++ d.unsigned

def places : ℕ := (d.fraction.getD []).length

def power : ℤ := d.exponent.elim 0 fun (_, n) ↦ n.value

def magnitude : ℚ := horner 0 (d.int ++ d.fraction.getD []) / 10 ^ d.places * 10 ^ d.power

def value : ℚ := d.sign.apply d.magnitude

end DecimalText

theorem horner_append (acc : ℕ) (ds es : List (Fin 10)) :
    horner acc (ds ++ es) = horner (horner acc ds) es :=
  List.foldl_append

def leadingChars : List Char := ['0', '1', '2', '3', '4', '5', '6', '7', '8', '9', '.']

def numeralChars : List Char := leadingChars ++ ['e', 'E', '+', '-']

theorem digit_char_mem (d : Fin 10) : digitChar d ∈ leadingChars := by
  decide +revert

theorem mem_numeral_chars {c : Char} (h : c ∈ leadingChars) : c ∈ numeralChars :=
  List.mem_append_left _ h

theorem digits_mem {ds : List (Fin 10)} {c : Char} (h : c ∈ ds.map digitChar) :
    c ∈ leadingChars := by
  obtain ⟨d, -, rfl⟩ := List.mem_map.mp h
  exact digit_char_mem d

theorem Sign.text_mem {sign : Sign} {c : Char} (h : c ∈ sign.text) : c ∈ numeralChars := by
  cases sign with
  | absent => cases h
  | plus | minus =>
    rw [List.mem_singleton.mp h]
    decide

theorem IntegerText.text_mem {n : IntegerText} {c : Char} (h : c ∈ n.text) : c ∈ numeralChars := by
  rcases List.mem_append.mp h with h | h
  · exact Sign.text_mem h
  · exact mem_numeral_chars (digits_mem h)

theorem DecimalText.unsigned_mem {d : DecimalText} {c : Char} (h : c ∈ d.unsigned) :
    c ∈ numeralChars := by
  rcases List.mem_append.mp h with h | h
  · exact mem_numeral_chars (digits_mem h)
  rcases List.mem_append.mp h with h | h
  · unfold fractionText at h
    cases hf : d.fraction with
    | none => simp [hf] at h
    | some ds =>
      rw [hf] at h
      rcases List.mem_cons.mp h with rfl | h
      · decide
      · exact mem_numeral_chars (digits_mem h)
  · unfold exponentText at h
    cases he : d.exponent with
    | none => simp [he] at h
    | some e =>
      rw [he] at h
      rcases List.mem_cons.mp h with rfl | h
      · split_ifs <;> decide
      · exact IntegerText.text_mem h

theorem DecimalText.text_mem {d : DecimalText} {c : Char} (h : c ∈ d.text) :
    c ∈ numeralChars := by
  rcases List.mem_append.mp h with h | h
  · exact Sign.text_mem h
  · exact unsigned_mem h

theorem DecimalText.unsigned_head (d : DecimalText) :
    ∃ c cs, d.unsigned = c :: cs ∧ c ∈ leadingChars := by
  unfold unsigned fractionText
  cases hi : d.int with
  | cons x ds => exact ⟨_, _, rfl, digit_char_mem x⟩
  | nil =>
    cases hf : d.fraction with
    | none =>
      have hne := d.digits_ne
      simp [hi, hf] at hne
    | some ds => exact ⟨'.', _, rfl, by decide⟩

section Printing

def lowDigits : ℕ → ℕ → List (Fin 10)
  | 0, _ => []
  | k + 1, n => lowDigits k (n / 10) ++ [Fin.ofNat 10 n]

def natDigits (n : ℕ) : List (Fin 10) := lowDigits (Nat.log 10 n + 1) n

theorem length_low_digits (k n : ℕ) : (lowDigits k n).length = k := by
  induction k generalizing n with
  | zero => rfl
  | succ k ih => rw [lowDigits, List.length_append, ih, List.length_singleton]

theorem horner_low_digits (k acc n : ℕ) :
    horner acc (lowDigits k n) = acc * 10 ^ k + n % 10 ^ k := by
  induction k generalizing n with
  | zero => simp [lowDigits, horner, Nat.mod_one]
  | succ k ih =>
    have hlast : n % 10 ^ (k + 1) = n / 10 % 10 ^ k * 10 + n % 10 := by
      rw [pow_succ' 10 k, Nat.mod_mul]
      ring
    have hhorner : horner acc (lowDigits (k + 1) n) =
        horner acc (lowDigits k (n / 10)) * 10 + n % 10 := by
      rw [lowDigits, horner_append]
      rfl
    rw [hhorner, ih, hlast]
    ring

theorem horner_nat_digits (n : ℕ) : horner 0 (natDigits n) = n := by
  rw [natDigits, horner_low_digits, Nat.mod_eq_of_lt (Nat.lt_pow_succ_log_self (by norm_num) n)]
  ring

/-- Fixed notation with so many places, as `%f` has six. -/
def fixed (places : ℕ) (q : ℚ) : DecimalText where
  sign := if q < 0 then .minus else .absent
  int := natDigits (roundHalfEven (|q| * 10 ^ places) / 10 ^ places)
  fraction := some (lowDigits places (roundHalfEven (|q| * 10 ^ places)))
  exponent := none
  digits_ne := by simp [natDigits, lowDigits]

def rounded (places : ℕ) (q : ℚ) : ℚ :=
  (if q < 0 then -1 else 1) * (roundHalfEven (|q| * 10 ^ places) / 10 ^ places)

theorem fixed_value (places : ℕ) (q : ℚ) : (fixed places q).value = rounded places q := by
  have hdigits : horner 0 ((fixed places q).int ++ (fixed places q).fraction.getD []) =
      roundHalfEven (|q| * 10 ^ places) := by
    change horner 0 (natDigits _ ++ lowDigits places _) = _
    rw [horner_append, horner_nat_digits, horner_low_digits, Nat.mul_comm, Nat.div_add_mod]
  have hplaces : (fixed places q).places = places := length_low_digits places _
  have hpower : (fixed places q).power = 0 := rfl
  rw [DecimalText.value, DecimalText.magnitude, hdigits, hplaces, hpower, rounded]
  change (if q < 0 then Sign.minus else Sign.absent).apply _ = _
  split_ifs <;> simp [Sign.apply]

theorem rounded_intCast (places : ℕ) (z : ℤ) : rounded places z = z := by
  have hpow : (10 : ℚ) ^ places ≠ 0 := by positivity
  have habs : |(z : ℚ)| * 10 ^ places = (z.natAbs * 10 ^ places : ℕ) := by
    push_cast
    rw [Nat.cast_natAbs, Int.cast_abs]
  rw [rounded, habs, round_half_even_natCast]
  push_cast
  rw [mul_div_assoc, div_self hpow, mul_one, Nat.cast_natAbs, Int.cast_abs]
  split_ifs with hz
  · rw [abs_of_neg hz]
    ring
  · rw [abs_of_nonneg (not_lt.mp hz)]
    ring

/-- A number with at most so many digits before the point is printed with few characters. -/
theorem length_fixed_le {places k : ℕ} {q : ℚ} (h : |q| < 10 ^ k) :
    (fixed places q).text.length ≤ places + k + 3 := by
  set n := roundHalfEven (|q| * 10 ^ places) with hn
  have hscaled : |q| * 10 ^ places < (10 ^ k * 10 ^ places : ℕ) := by
    push_cast
    exact mul_lt_mul_of_pos_right h (by positivity)
  have hfloor : ⌊|q| * 10 ^ places⌋₊ < 10 ^ k * 10 ^ places :=
    (Nat.floor_lt (by positivity)).mpr hscaled
  have hle : n ≤ 10 ^ k * 10 ^ places := (round_half_even_le _).trans hfloor
  have hint : n / 10 ^ places ≤ 10 ^ k :=
    Nat.div_le_of_le_mul (hle.trans_eq (Nat.mul_comm _ _))
  have hlog : Nat.log 10 (n / 10 ^ places) ≤ k := by
    calc Nat.log 10 (n / 10 ^ places) ≤ Nat.log 10 (10 ^ k) := Nat.log_mono_right hint
      _ = k := Nat.log_pow (by norm_num) k
  have hsign : (fixed places q).sign.text.length ≤ 1 := by
    cases (fixed places q).sign <;> simp [Sign.text]
  have hunsigned : (fixed places q).unsigned.length =
      Nat.log 10 (n / 10 ^ places) + 1 + (places + 1) := by
    simp [DecimalText.unsigned, DecimalText.fractionText, DecimalText.exponentText, fixed,
      natDigits, length_low_digits, hn]
  rw [DecimalText.text, List.length_append, hunsigned]
  omega

end Printing

end VarEmu.Library.Decimal
