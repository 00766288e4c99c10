import Mathlib.Data.Bool.AllAny
import VarEmu.Library.Decimal
import VarEmu.Emulator.Monitor

namespace VarEmu.Emulator.Numerals

open State Monitor Library.Decimal

theorem digit_value_digit_char (d : Fin 10) : digitValue (digitChar d) = d.val := by
  decide +revert

theorem take_digits_append (acc n : ℕ) (ds : List (Fin 10)) {rest : List Char}
    (hrest : ∀ c ∈ rest.head?, ¬digitValue c < 10) :
    takeDigits 10 acc n (ds.map digitChar ++ rest) = (horner acc ds, n + ds.length, rest) := by
  induction ds generalizing acc n with
  | nil =>
    cases rest with
    | nil => rfl
    | cons c cs => exact if_neg (hrest c rfl)
  | cons d ds ih =>
    have hd : digitValue (digitChar d) < 10 := by
      rw [digit_value_digit_char]
      exact d.isLt
    rw [List.map_cons, List.cons_append, takeDigits, if_pos hd, digit_value_digit_char, ih,
      List.length_cons, Nat.add_right_comm, Nat.add_assoc]
    rfl

theorem take_sign_text (sign : Sign) {cs : List Char}
    (hcs : ∀ c ∈ cs.head?, c ≠ '-' ∧ c ≠ '+') :
    takeSign (sign.text ++ cs) = (decide (sign = .minus), cs) := by
  cases sign with
  | absent =>
    cases cs with
    | nil => rfl
    | cons c cs =>
      obtain ⟨hminus, hplus⟩ := hcs c rfl
      simp [Sign.text, takeSign, hminus, hplus]
  | plus => rfl
  | minus => rfl

theorem apply_sign {α : Type} [Neg α] (sign : Sign) (x : α) :
    (if decide (sign = .minus) = true then -x else x) = sign.apply x := by
  cases sign <;> rfl

theorem drop_space {s : List Char} (h : ∀ c ∈ s.head?, isSpace c = false) :
    s.dropWhile isSpace = s := by
  cases s with
  | nil => rfl
  | cons c cs => rw [List.dropWhile_cons_of_neg (by simp [h c rfl])]

theorem leading_no_sign {c : Char} (h : c ∈ leadingChars) : c ≠ '-' ∧ c ≠ '+' := by
  have hall : ∀ c ∈ leadingChars, c ≠ '-' ∧ c ≠ '+' := List.all_iff_forall_prop.mp (by decide)
  exact hall c h

theorem numeral_no_space {c : Char} (h : c ∈ numeralChars) : isSpace c = false := by
  have hall : ∀ c ∈ numeralChars, isSpace c = false := List.all_iff_forall_prop.mp (by decide)
  exact hall c h

theorem leading_lower {c : Char} (h : c ∈ leadingChars) : c.toLower ≠ 'i' ∧ c.toLower ≠ 'n' := by
  have hall : ∀ c ∈ leadingChars, c.toLower ≠ 'i' ∧ c.toLower ≠ 'n' :=
    List.all_iff_forall_prop.mp (by decide)
  exact hall c h

theorem numeral_no_hex {c : Char} (h : c ∈ numeralChars) : isMark 'x' c = false := by
  have hall : ∀ c ∈ numeralChars, isMark 'x' c = false := List.all_iff_forall_prop.mp (by decide)
  exact hall c h

theorem take_digits_text (ds : List (Fin 10)) :
    takeDigits 10 0 0 (ds.map digitChar) = (horner 0 ds, ds.length, []) := by
  have h : takeDigits 10 0 0 (ds.map digitChar ++ []) = _ := take_digits_append 0 0 ds nofun
  rwa [List.append_nil, Nat.zero_add] at h

theorem integer_sign (n : IntegerText) :
    takeSign n.text = (decide (n.sign = .minus), n.digits.map digitChar) := by
  apply take_sign_text
  intro c hc
  exact leading_no_sign (digits_mem (List.mem_of_mem_head? hc))

theorem strtol_text (n : IntegerText) :
    strtol n.text = max (-2 ^ 63) (min (2 ^ 63 - 1) n.value) := by
  have hspace : n.text.dropWhile isSpace = n.text :=
    drop_space fun c hc ↦ numeral_no_space (n.text_mem (List.mem_of_mem_head? hc))
  rw [strtol, hspace, integer_sign]
  simp only [take_digits_text, apply_sign]
  rfl

theorem take_exponent_text (d : DecimalText) : takeExponent 'e' d.exponentText = d.power := by
  unfold DecimalText.exponentText DecimalText.power
  cases d.exponent with
  | none => rfl
  | some e =>
    obtain ⟨capital, n⟩ := e
    have hmark : isMark 'e' (if capital then 'E' else 'e') = true := by
      cases capital <;> decide
    simp only [Option.elim_some, takeExponent, hmark, if_true, integer_sign, take_digits_text,
      apply_sign]
    rfl

theorem exponent_no_digit (d : DecimalText) : ∀ c ∈ d.exponentText.head?, ¬digitValue c < 10 := by
  unfold DecimalText.exponentText
  cases d.exponent with
  | none => exact nofun
  | some e =>
    obtain ⟨capital, n⟩ := e
    intro c hc
    obtain rfl : (if capital then 'E' else 'e') = c := by simpa using hc
    cases capital <;> decide

theorem exponent_no_point (d : DecimalText) (cs : List Char) : d.exponentText ≠ '.' :: cs := by
  unfold DecimalText.exponentText
  cases d.exponent with
  | none => exact nofun
  | some e =>
    obtain ⟨capital, n⟩ := e
    cases capital <;> simp

theorem take_number_text (d : DecimalText) :
    takeNumber 10 10 'e' d.unsigned = some d.magnitude := by
  have hne := d.digits_ne
  have hexp := take_exponent_text d
  have hstop := exponent_no_digit d
  unfold DecimalText.magnitude DecimalText.places DecimalText.unsigned DecimalText.fractionText
  cases hf : d.fraction with
  | none =>
    have hpos : d.int.length ≠ 0 := by simpa [hf] using hne
    have hpoint := exponent_no_point d
    rw [takeNumber, Option.elim_none, List.nil_append, take_digits_append 0 0 d.int hstop]
    simp [hpos, hexp]
  | some ds =>
    have hpos : ¬(d.int = [] ∧ ds = []) := by simpa [hf] using hne
    have hdot : ∀ c ∈ ('.' :: ds.map digitChar ++ d.exponentText).head?, ¬digitValue c < 10 := by
      intro c hc
      cases hc
      decide
    rw [takeNumber, Option.elim_some, take_digits_append 0 0 d.int hdot]
    simp [take_digits_append _ _ ds hstop, hpos, hexp, horner_append]

theorem read_number_text (d : DecimalText) : readNumber d.text = some d.value := by
  obtain ⟨c, cs, hu, hc⟩ := d.unsigned_head
  have hspace : d.text.dropWhile isSpace = d.text :=
    drop_space fun c hc ↦ numeral_no_space (d.text_mem (List.mem_of_mem_head? hc))
  have hsign : takeSign d.text = (decide (d.sign = .minus), d.unsigned) := by
    apply take_sign_text
    intro c' hc'
    rw [hu] at hc'
    cases hc'
    exact leading_no_sign hc
  have hword : ¬((d.unsigned.take 3).map Char.toLower = ['i', 'n', 'f'] ∨
      (d.unsigned.take 3).map Char.toLower = ['n', 'a', 'n']) := by
    obtain ⟨hi, hn⟩ := leading_lower hc
    rw [hu]
    simp [hi, hn]
  rw [readNumber, hspace, hsign]
  simp only [if_neg hword, take_number_text, Option.getD_some, apply_sign]
  split
  · rename_i x digits heq
    have hx : x ∈ d.unsigned := by simp [heq]
    rw [numeral_no_hex (d.unsigned_mem hx)]
    rfl
  · rfl

/-- The value of a decimal notation is read to the nearest double. -/
theorem strtod_text (d : DecimalText) : strtod d.text = .nearest d.value := by
  rw [strtod, read_number_text]
  rfl

end VarEmu.Emulator.Numerals
