import Mathlib.Data.Nat.Digits.Lemmas
import Mathlib.Data.UInt

namespace VarEmu.Library.Bytes

/-- The low `n` bytes of a number, the lowest first. -/
def leBytes : ℕ → ℕ → List UInt8
  | 0, _ => []
  | n + 1, x => UInt8.ofNat x :: leBytes n (x / 256)

def ofBytes (bytes : List UInt8) : ℕ := Nat.ofDigits 256 (bytes.map UInt8.toNat)

theorem length_le_bytes (n x : ℕ) : (leBytes n x).length = n := by
  induction n generalizing x with
  | zero => rfl
  | succ n ih => rw [leBytes, List.length_cons, ih]

theorem of_bytes_cons (b : UInt8) (bytes : List UInt8) :
    ofBytes (b :: bytes) = b.toNat + 256 * ofBytes bytes := by
  rw [ofBytes, List.map_cons, Nat.ofDigits_cons]
  rfl

theorem of_bytes_le_bytes (n x : ℕ) : ofBytes (leBytes n x) = x % 256 ^ n := by
  induction n generalizing x with
  | zero => exact (Nat.mod_one x).symm
  | succ n ih =>
    rw [leBytes, of_bytes_cons, ih, UInt8.toNat_ofNat', pow_succ' 256 n, Nat.mod_mul]

/-- The bytes of a number depend on its rest only, so what stands above them does not matter. -/
theorem le_bytes_of_bytes (bytes : List UInt8) (x : ℕ) :
    leBytes bytes.length (ofBytes bytes + x * 256 ^ bytes.length) = bytes := by
  induction bytes generalizing x with
  | nil => rfl
  | cons b bytes ih =>
    have hb : b.toNat < 256 := b.toNat_lt
    have hsplit : ofBytes (b :: bytes) + x * 256 ^ (b :: bytes).length =
        b.toNat + 256 * (ofBytes bytes + x * 256 ^ bytes.length) := by
      rw [of_bytes_cons, List.length_cons, pow_succ]
      ring
    have hlow : (b.toNat + 256 * (ofBytes bytes + x * 256 ^ bytes.length)) / 256 =
        ofBytes bytes + x * 256 ^ bytes.length := by omega
    have hbyte : UInt8.ofNat (b.toNat + 256 * (ofBytes bytes + x * 256 ^ bytes.length)) = b := by
      rw [← UInt8.toNat_inj, UInt8.toNat_ofNat']
      omega
    rw [hsplit, List.length_cons, leBytes, hlow, hbyte, ih]

theorem get_le_bytes (n x : ℕ) {k : ℕ} (hk : k < n) :
    (leBytes n x)[k]? = some (UInt8.ofNat (x / 256 ^ k)) := by
  induction n generalizing x k with
  | zero => exact absurd hk (Nat.not_lt_zero k)
  | succ n ih =>
    cases k with
    | zero => simp [leBytes]
    | succ k =>
      rw [leBytes, List.getElem?_cons_succ, ih (x / 256) (Nat.lt_of_succ_lt_succ hk),
        Nat.div_div_eq_div_mul, ← pow_succ']

theorem le_bytes_eq_map (n x : ℕ) :
    leBytes n x = (List.range n).map fun k ↦ UInt8.ofNat (x / 256 ^ k) := by
  apply List.ext_getElem?
  intro k
  by_cases hk : k < n
  · rw [get_le_bytes n x hk, List.getElem?_map, List.getElem?_range hk, Option.map_some]
  · rw [List.getElem?_eq_none (by rw [length_le_bytes]; omega),
      List.getElem?_eq_none (by rw [List.length_map, List.length_range]; omega)]

theorem le_bytes_mod (x : ℕ) {n m : ℕ} (hn : n ≤ m) : leBytes n (x % 256 ^ m) = leBytes n x := by
  induction n generalizing x m with
  | zero => rfl
  | succ n ih =>
    obtain ⟨m, rfl⟩ := Nat.exists_eq_add_one.mpr (Nat.zero_lt_of_lt hn)
    have hlow : UInt8.ofNat (x % 256 ^ (m + 1)) = UInt8.ofNat x := by
      rw [← UInt8.toNat_inj, UInt8.toNat_ofNat', UInt8.toNat_ofNat', pow_succ' 256 m]
      exact Nat.mod_mul_right_mod x 256 (256 ^ m)
    have hhigh : x % 256 ^ (m + 1) / 256 = x / 256 % 256 ^ m := by
      rw [pow_succ' 256 m, Nat.mod_mul_right_div_self]
    rw [leBytes, leBytes, hlow, hhigh, ih (x / 256) (Nat.le_of_succ_le_succ hn)]

end VarEmu.Library.Bytes
