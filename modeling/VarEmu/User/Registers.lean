import Mathlib.Tactic.FieldSimp
import Mathlib.Tactic.Linarith
import Mathlib.Tactic.NormNum
import VarEmu.Kernel.Driver

namespace VarEmu.User.Registers

open Emulator.State
open Kernel.Driver (vemuAddDelta)

abbrev nShown : ℕ := vemuStateNVars - 1

abbrev nFields : ℕ := maxInstrClasses * 3 + 6

scoped instance (priority := 2000) : NeZero nShown := ⟨by decide⟩

scoped instance (priority := 2000) : NeZero nFields := ⟨by decide⟩

def vemuDelta (target new old : VemuState) : VemuState := fun i ↦
  if i.val < vemuStateNVars - 1 then new i - old i else target i

theorem add_delta_eq_delta (target new old : VemuState) {i : Fin vemuStateNVars}
    (hi : i.val < vemuStateNVars - 3) :
    vemuAddDelta target new old i = target i + vemuDelta target new old i := by
  rw [vemuAddDelta, vemuDelta, if_pos hi, if_pos (by omega)]

/-- The kernel leaves the last three registers alone, the library only the last: from a zeroed
target they agree exactly when neither fault status nor frequency has moved. -/
theorem deltas_agree_iff (new old : VemuState) :
    vemuAddDelta (fun _ ↦ 0) new old = vemuDelta (fun _ ↦ 0) new old ↔
      VemuState.faultStatus new = VemuState.faultStatus old ∧
      VemuState.frequency new = VemuState.frequency old := by
  constructor
  · intro h
    have hfaults : 0 = new 17 - old 17 := congrFun h 17
    have hfrequency : 0 = new 18 - old 18 := congrFun h 18
    exact ⟨sub_eq_zero.mp hfaults.symm, sub_eq_zero.mp hfrequency.symm⟩
  · rintro ⟨hfaults, hfrequency⟩
    funext i
    by_cases hcounter : i.val < vemuStateNVars - 3
    · rw [add_delta_eq_delta _ _ _ hcounter, UInt64.zero_add]
    · have hlast : i.val = 17 ∨ i.val = 18 ∨ i.val = 19 := by
        have hlt : i.val < 20 := i.isLt
        have hge : 17 ≤ i.val := not_lt.mp hcounter
        omega
      rcases hlast with hi | hi | hi
      · obtain rfl : i = 17 := Fin.ext hi
        exact (sub_eq_zero.mpr hfaults).symm
      · obtain rfl : i = 18 := Fin.ext hi
        exact (sub_eq_zero.mpr hfrequency).symm
      · obtain rfl : i = 19 := Fin.ext hi
        rfl

def atFrequency (f : UInt64) : VemuState := Function.update (fun _ ↦ 0) 18 f

theorem frequency_delta_differs :
    VemuState.frequency (vemuAddDelta (fun _ ↦ 0) (atFrequency 500) (atFrequency 1000)) = 0 ∧
    VemuState.frequency (vemuDelta (fun _ ↦ 0) (atFrequency 500) (atFrequency 1000)) =
      18446744073709551116 := by
  decide +kernel

/-- What `vemu_prepare_display` writes to. An entry of `prefixes` is `none` when it comes from
outside the table. -/
structure Screen where
  display : ℕ → ℚ
  prefixes : ℕ → Option Char

def siPrefix : List Char := ['n', 'u', 'm', ' ', 'K', 'M', 'G']

/-- The initialisers of the array, of which it takes the first twenty. -/
def decimalPower : List ℤ :=
  [-3, -3, -3, -3, -3, -3, -3, -3,
    -3, -3, -3, -3, -3, -3, -3, -3,
    0, 0, 0, 0, 0, 0, 0, 0,
    -3,
    -3,
    0,
    -3,
    -3,
    0,
    0,
    0]

theorem floor_div_lt {x : ℚ} (h : 999 < x) : ⌊x / 1000⌋₊ < ⌊x⌋₊ := by
  have hpos : 0 ≤ x / 1000 := by linarith
  have hlt : x / 1000 < ⌊x⌋₊ := by
    have := Nat.lt_floor_add_one x
    linarith
  exact_mod_cast (Nat.floor_lt hpos).mpr hlt

def scaleDown (display : ℚ) (power : ℤ) : ℚ × ℤ :=
  if 999 < display then scaleDown (display / 1000) (power + 1) else (display, power)
termination_by ⌊display⌋₊
decreasing_by exact floor_div_lt (by assumption)

def shown (regs : VemuState) (i : Fin nShown) : ℚ × ℤ :=
  scaleDown (regs (i.castLE (Nat.sub_le _ _))).toNat (decimalPower.getD i 0)

def letter (power : ℤ) : Option Char := (power + 3).toNat?.bind (siPrefix[·]?)

def prepare (regs : VemuState) (m : Screen) (i : Fin nShown) : Screen where
  display := Function.update m.display i (shown regs i).1
  prefixes := Function.update m.prefixes i (letter (shown regs i).2)

def vemuPrepareDisplay (regs : VemuState) (m : Screen) : Screen :=
  (List.finRange nShown).foldl (prepare regs) m

theorem scale_down_le (x : ℚ) (p : ℤ) : (scaleDown x p).1 ≤ 999 := by
  fun_induction scaleDown x p with
  | case1 _ _ _ ih => exact ih
  | case2 _ _ h => exact not_lt.mp h

theorem scale_down_value (x : ℚ) (p : ℤ) :
    (scaleDown x p).1 * 1000 ^ (scaleDown x p).2 = x * 1000 ^ p := by
  fun_induction scaleDown x p with
  | case1 x p _ ih =>
    rw [ih, zpow_add_one₀ (by norm_num)]
    ring
  | case2 => rfl

theorem le_scale_down (x : ℚ) (p : ℤ) : p ≤ (scaleDown x p).2 := by
  fun_induction scaleDown x p with
  | case1 x p _ ih => omega
  | case2 => rfl

theorem scale_down_power (x : ℚ) (p : ℤ) (n : ℕ) :
    (scaleDown x p).2 ≤ p + n ↔ x ≤ 999 * 1000 ^ n := by
  fun_induction scaleDown x p generalizing n with
  | case1 x p h ih =>
    cases n with
    | zero =>
      have := le_scale_down (x / 1000) (p + 1)
      constructor
      · intro hle
        omega
      · intro hle
        linarith
    | succ n =>
      have hstep : p + ((n + 1 : ℕ) : ℤ) = p + 1 + n := by
        push_cast
        ring
      rw [hstep, ih n, div_le_iff₀ (by norm_num), pow_succ]
      ring_nf
  | case2 x p h =>
    have hone : (1 : ℚ) ≤ 1000 ^ n := one_le_pow₀ (by norm_num)
    constructor
    · intro _
      linarith
    · intro _
      exact le_add_of_nonneg_right (Int.natCast_nonneg n)

theorem prepare_of_ne (regs : VemuState) (m : Screen) (i : Fin nShown) {j : ℕ}
    (h : j ≠ i.val) :
    (prepare regs m i).display j = m.display j ∧ (prepare regs m i).prefixes j = m.prefixes j :=
  ⟨Function.update_of_ne h _ _, Function.update_of_ne h _ _⟩

theorem foldl_prepare_of_ne (regs : VemuState) {j : ℕ} {l : List (Fin nShown)}
    (h : ∀ i ∈ l, j ≠ i.val) (m : Screen) :
    (l.foldl (prepare regs) m).display j = m.display j ∧
      (l.foldl (prepare regs) m).prefixes j = m.prefixes j := by
  induction l generalizing m with
  | nil => exact ⟨rfl, rfl⟩
  | cons i l ih =>
    obtain ⟨hi, hl⟩ := List.forall_mem_cons.mp h
    obtain ⟨hd, hp⟩ := ih hl (prepare regs m i)
    obtain ⟨hd', hp'⟩ := prepare_of_ne regs m i hi
    exact ⟨hd.trans hd', hp.trans hp'⟩

theorem foldl_prepare_at (regs : VemuState) {i : Fin nShown}
    {l : List (Fin nShown)} (hi : i ∈ l) (m : Screen) :
    (l.foldl (prepare regs) m).display i = (shown regs i).1 ∧
      (l.foldl (prepare regs) m).prefixes i = letter (shown regs i).2 := by
  induction l generalizing m with
  | nil => cases hi
  | cons k l ih =>
    by_cases hl : i ∈ l
    · exact ih hl (prepare regs m k)
    · obtain rfl : i = k := (List.mem_cons.mp hi).resolve_right hl
      have hne : ∀ k ∈ l, i.val ≠ k.val := fun k hk h ↦ hl (Fin.ext h ▸ hk)
      obtain ⟨hd, hp⟩ := foldl_prepare_of_ne regs hne (prepare regs m i)
      exact ⟨hd.trans (Function.update_self _ _ _), hp.trans (Function.update_self _ _ _)⟩

theorem prepare_display_at (regs : VemuState) (m : Screen) (i : Fin nShown) :
    (vemuPrepareDisplay regs m).display i = (shown regs i).1 ∧
      (vemuPrepareDisplay regs m).prefixes i = letter (shown regs i).2 :=
  foldl_prepare_at regs (List.mem_finRange i) m

inductive Field
  | actTime (c : InstrClass)
  | actEnergy (c : InstrClass)
  | cycles (c : InstrClass)
  | totalActTime
  | totalActEnergy
  | totalCycles
  | slpTime
  | slpEnergy
  | errorStatus
  deriving DecidableEq

namespace Field

def index : Field → Fin nFields
  | actTime c => c.castLE (by decide)
  | actEnergy c => Fin.castLE (by decide) (c.natAdd 4)
  | cycles c => Fin.castLE (by decide) (c.natAdd 8)
  | totalActTime => 12
  | totalActEnergy => 13
  | totalCycles => 14
  | slpTime => 15
  | slpEnergy => 16
  | errorStatus => 17

/-- The unit of the register behind the field, in seconds, joules or cycles. -/
def unit : Field → Option ℚ
  | actTime _ | totalActTime | slpTime => some (1 / 10 ^ 9)
  | actEnergy _ | totalActEnergy | slpEnergy => some (1 / 10 ^ 9)
  | cycles _ | totalCycles => some 1
  | errorStatus => none

def register (f : Field) (regs : VemuState) : UInt64 := regs (f.index.castLE (by decide))

def place (f : Field) : Fin nShown := f.index.castLE (by decide)

end Field

def siFactor : Char → Option ℚ
  | 'n' => some (1 / 10 ^ 9)
  | 'u' => some (1 / 10 ^ 6)
  | 'm' => some (1 / 10 ^ 3)
  | ' ' => some 1
  | 'K' => some (10 ^ 3)
  | 'M' => some (10 ^ 6)
  | 'G' => some (10 ^ 9)
  | _ => none

def WritesFields (regs : VemuState) : Prop :=
  ∀ (m : Screen) (j : ℕ), nFields ≤ j →
    (vemuPrepareDisplay regs m).display j = m.display j ∧
    (vemuPrepareDisplay regs m).prefixes j = m.prefixes j

def IndexesTable (regs : VemuState) : Prop :=
  ∀ (m : Screen) (i : Fin nShown), (vemuPrepareDisplay regs m).prefixes i ≠ none

/-- The number on the screen, with its prefix, is the register in the unit of the field. -/
def Shows (regs : VemuState) (m : Screen) (f : Field) (u : ℚ) : Prop :=
  ∃ c k, m.prefixes f.index = some c ∧ siFactor c = some k ∧
    (m.display f.index ≤ 999 ∨ c = 'G') ∧
    m.display f.index * k = (f.register regs).toNat * u

def ScalesFields (regs : VemuState) : Prop :=
  ∀ (m : Screen) (f : Field) (u : ℚ), f.unit = some u → Shows regs (vemuPrepareDisplay regs m) f u

theorem letter_factor {p : ℤ} (h : -3 ≤ p) (h' : p ≤ 3) :
    ∃ c, letter p = some c ∧ siFactor c = some (1000 ^ p) := by
  obtain rfl | rfl | rfl | rfl | rfl | rfl | rfl :
      p = -3 ∨ p = -2 ∨ p = -1 ∨ p = 0 ∨ p = 1 ∨ p = 2 ∨ p = 3 := by omega
  all_goals exact ⟨_, rfl, by norm_num [siFactor]⟩

theorem letter_ne_none_iff {p : ℤ} (h : -3 ≤ p) : letter p ≠ none ↔ p ≤ 3 := by
  constructor
  · intro hsome
    by_contra hgt
    apply hsome
    obtain ⟨n, rfl⟩ : ∃ n : ℕ, p = n + 4 := ⟨(p - 4).toNat, by omega⟩
    have hnat : (n : ℤ) + 4 + 3 = (n + 7 : ℕ) := by
      push_cast
      ring
    rw [letter, hnat]
    exact List.getElem?_eq_none (by simp [siPrefix])
  · intro hle
    obtain ⟨c, hc, -⟩ := letter_factor h hle
    simp [hc]

theorem decimal_power_eq (i : Fin nShown) :
    decimalPower.getD i 0 = if i.val < 16 then -3 else 0 := by
  decide +revert

theorem le_shown (regs : VemuState) (i : Fin nShown) : -3 ≤ (shown regs i).2 := by
  have hstart : -3 ≤ decimalPower.getD i 0 := by decide +revert
  exact hstart.trans (le_scale_down _ _)

theorem shown_letter_iff (regs : VemuState) (i : Fin nShown) :
    letter (shown regs i).2 ≠ none ↔
      i.val < 16 ∨ (regs (i.castLE (Nat.sub_le _ _))).toNat ≤ 999 * 10 ^ 9 := by
  rw [letter_ne_none_iff (le_shown regs i), shown, decimal_power_eq]
  set x := (regs (i.castLE (Nat.sub_le _ _))).toNat with hx
  by_cases hi : i.val < 16
  · have hlt : x < 2 ^ 64 := UInt64.toNat_lt _
    have hsix := (scale_down_power (x : ℚ) (-3) 6).mpr (by
      have : (x : ℚ) < 2 ^ 64 := by exact_mod_cast hlt
      norm_num at this ⊢
      linarith)
    simpa [hi] using hsix
  · have hthree := scale_down_power (x : ℚ) 0 3
    have hcast : (x : ℚ) ≤ 999 * 1000 ^ 3 ↔ x ≤ 999 * 10 ^ 9 := by
      rw [← Nat.cast_le (α := ℚ)]
      norm_num
    simpa [hi, hcast] using hthree

theorem shows_iff (regs : VemuState) (m : Screen) (f : Field) (u : ℚ) :
    Shows regs (vemuPrepareDisplay regs m) f u ↔
      letter (shown regs f.place).2 ≠ none ∧
      (f.register regs).toNat * 1000 ^ decimalPower.getD f.place 0 =
        (f.register regs).toNat * u := by
  obtain ⟨hd, hp⟩ := prepare_display_at regs m f.place
  have hvalue := scale_down_value (f.register regs).toNat (decimalPower.getD f.place 0)
  constructor
  · rintro ⟨c, k, hc, hk, -, heq⟩
    have hsome : letter (shown regs f.place).2 = some c := hp.symm.trans hc
    have hne : letter (shown regs f.place).2 ≠ none := by simp [hsome]
    obtain ⟨c', hc', hk'⟩ := letter_factor (le_shown regs f.place)
      ((letter_ne_none_iff (le_shown regs f.place)).mp hne)
    obtain rfl : c' = c := Option.some_inj.mp (hc'.symm.trans hsome)
    obtain rfl : 1000 ^ (shown regs f.place).2 = k := Option.some_inj.mp (hk'.symm.trans hk)
    exact ⟨hne, hvalue.symm.trans ((congrArg (· * _) hd.symm).trans heq)⟩
  · rintro ⟨hne, heq⟩
    obtain ⟨c, hc, hk⟩ := letter_factor (le_shown regs f.place)
      ((letter_ne_none_iff (le_shown regs f.place)).mp hne)
    refine ⟨c, _, hp.trans hc, hk, .inl (hd.trans_le (scale_down_le _ _)), ?_⟩
    exact ((congrArg (· * _) hd).trans hvalue).trans heq

theorem writes_beyond_fields (regs : VemuState) : ¬WritesFields regs := by
  intro h
  set x := (shown regs 18).1 with hx
  have hkept := (h ⟨fun _ ↦ x + 1, fun _ ↦ none⟩ 18 le_rfl).1
  have hwritten := (prepare_display_at regs ⟨fun _ ↦ x + 1, fun _ ↦ none⟩ 18).1
  have heq : x = x + 1 := hwritten.symm.trans hkept
  linarith

theorem indexes_table_iff (regs : VemuState) :
    IndexesTable regs ↔ (VemuState.slpEnergy regs).toNat ≤ 999 * 10 ^ 9 ∧
      (VemuState.faultStatus regs).toNat ≤ 999 * 10 ^ 9 ∧
      (VemuState.frequency regs).toNat ≤ 999 * 10 ^ 9 := by
  have hletter : IndexesTable regs ↔ ∀ i, letter (shown regs i).2 ≠ none := by
    constructor
    · intro h i
      rw [← (prepare_display_at regs ⟨fun _ ↦ 0, fun _ ↦ none⟩ i).2]
      exact h _ i
    · intro h m i
      rw [(prepare_display_at regs m i).2]
      exact h i
  rw [hletter]
  constructor
  · intro h
    exact ⟨((shown_letter_iff regs 16).mp (h 16)).resolve_left (by decide),
      ((shown_letter_iff regs 17).mp (h 17)).resolve_left (by decide),
      ((shown_letter_iff regs 18).mp (h 18)).resolve_left (by decide)⟩
  · rintro ⟨h₁₆, h₁₇, h₁₈⟩ i
    rw [shown_letter_iff]
    by_cases hi : i.val < 16
    · exact .inl hi
    · right
      have hlast : i.val = 16 ∨ i.val = 17 ∨ i.val = 18 := by
        have hlt : i.val < 19 := i.isLt
        omega
      rcases hlast with hi | hi | hi
      · obtain rfl : i = 16 := Fin.ext hi
        exact h₁₆
      · obtain rfl : i = 17 := Fin.ext hi
        exact h₁₇
      · obtain rfl : i = 18 := Fin.ext hi
        exact h₁₈

theorem field_scaled (regs : VemuState) (m : Screen) {f : Field} (hplace : f.place.val < 16) :
    Shows regs (vemuPrepareDisplay regs m) f (1 / 10 ^ 9) := by
  rw [shows_iff, decimal_power_eq, if_pos hplace]
  refine ⟨(shown_letter_iff regs f.place).mpr (.inl hplace), ?_⟩
  norm_num

theorem field_scaled_zero (regs : VemuState) (m : Screen) {f : Field} (u : ℚ)
    (hzero : f.register regs = 0) : Shows regs (vemuPrepareDisplay regs m) f u := by
  have hnat : (f.register regs).toNat = 0 := by
    rw [hzero]
    rfl
  rw [shows_iff]
  refine ⟨(shown_letter_iff regs f.place).mpr (.inr ?_), ?_⟩
  · exact hnat.trans_le (Nat.zero_le _)
  · rw [hnat]
    norm_num

theorem field_zero {regs : VemuState} {m : Screen} {f : Field} {u : ℚ}
    (hu : (1000 : ℚ) ^ decimalPower.getD f.place 0 ≠ u)
    (h : Shows regs (vemuPrepareDisplay regs m) f u) : f.register regs = 0 := by
  have heq := ((shows_iff regs m f u).mp h).2
  have hzero : ((f.register regs).toNat : ℚ) = 0 := by
    by_contra hne
    exact hu (mul_left_cancel₀ hne heq)
  exact UInt64.toNat_inj.mp (by exact_mod_cast hzero)

theorem scales_fields_iff (regs : VemuState) :
    ScalesFields regs ↔ (∀ c, VemuState.cycles regs c = 0) ∧ VemuState.totalCycles regs = 0 ∧
      VemuState.slpEnergy regs = 0 := by
  constructor
  · intro h
    have hall := h ⟨fun _ ↦ 0, fun _ ↦ none⟩
    refine ⟨fun c ↦ ?_, ?_, ?_⟩
    · refine field_zero (f := .cycles c) ?_ (hall (.cycles c) 1 rfl)
      rw [decimal_power_eq, if_pos (by decide +revert)]
      norm_num
    · refine field_zero (f := .totalCycles) ?_ (hall .totalCycles 1 rfl)
      rw [decimal_power_eq, if_pos (by decide)]
      norm_num
    · refine field_zero (f := .slpEnergy) ?_ (hall .slpEnergy _ rfl)
      rw [decimal_power_eq, if_neg (by decide)]
      norm_num
  · rintro ⟨hcycles, htotal, hslp⟩ m f u hu
    cases f with
    | actTime c | actEnergy c =>
      cases hu
      exact field_scaled regs m (by decide +revert)
    | totalActTime | totalActEnergy | slpTime =>
      cases hu
      exact field_scaled regs m (by decide)
    | cycles c => exact field_scaled_zero regs m u (hcycles c)
    | totalCycles => exact field_scaled_zero regs m u htotal
    | slpEnergy => exact field_scaled_zero regs m u hslp
    | errorStatus => cases hu

/-- The register after the last field is always written to. The table is left by a large sleep
energy, fault status or frequency, and the table of powers is wrong for the cycle counts and for
the sleep energy. -/
theorem display_correct_iff (regs : VemuState) :
    ¬WritesFields regs ∧
    (IndexesTable regs ↔ (VemuState.slpEnergy regs).toNat ≤ 999 * 10 ^ 9 ∧
      (VemuState.faultStatus regs).toNat ≤ 999 * 10 ^ 9 ∧
      (VemuState.frequency regs).toNat ≤ 999 * 10 ^ 9) ∧
    (ScalesFields regs ↔ (∀ c, VemuState.cycles regs c = 0) ∧ VemuState.totalCycles regs = 0 ∧
      VemuState.slpEnergy regs = 0) :=
  ⟨writes_beyond_fields regs, indexes_table_iff regs, scales_fields_iff regs⟩

def busyRegs : VemuState := Function.update (Function.update (fun _ ↦ 0) 14 1500) 16 (10 ^ 12)

def blank : Screen := ⟨fun _ ↦ 1, fun _ ↦ some ' '⟩

/-- Fifteen hundred cycles are shown as one and a half microcycles. -/
theorem busy_regs_misshown :
    (vemuPrepareDisplay busyRegs blank).display 14 = 3 / 2 ∧
    (vemuPrepareDisplay busyRegs blank).prefixes 14 = some 'u' ∧
    (vemuPrepareDisplay busyRegs blank).prefixes 16 = none ∧
    (vemuPrepareDisplay busyRegs blank).display 18 = 0 := by
  have hcycles : shown busyRegs 14 = (3 / 2, -2) := by
    change scaleDown 1500 (-3) = _
    rw [scaleDown, if_pos (by norm_num), scaleDown, if_neg (by norm_num)]
    norm_num
  have hslp : letter (shown busyRegs 16).2 = none := by
    by_contra h
    rcases (shown_letter_iff busyRegs 16).mp h with hlt | hle
    · exact absurd hlt (by decide)
    · exact absurd hle (by decide +kernel)
  have hfrequency : shown busyRegs 18 = (0, 0) := by
    change scaleDown 0 0 = _
    rw [scaleDown, if_neg (by norm_num)]
  obtain ⟨hd, hp⟩ := prepare_display_at busyRegs blank 14
  rw [hcycles] at hd hp
  obtain ⟨-, hnone⟩ := prepare_display_at busyRegs blank 16
  obtain ⟨hbeyond, -⟩ := prepare_display_at busyRegs blank 18
  rw [hfrequency] at hbeyond
  exact ⟨hd, hp.trans rfl, hnone.trans hslp, hbeyond⟩

end VarEmu.User.Registers
