import Mathlib.Data.NNRat.Floor
import Mathlib.Data.UInt
import Mathlib.Tactic.FinCases
import VarEmu.Library.Rounding
import VarEmu.Library.Truncation

namespace VarEmu.Emulator.State

open Library.Rounding Library.Truncation

/-- Why the emulator, or the kernel above it, has no further state: an assertion that fails, a
conversion the language leaves undefined, a division by zero, an access outside a buffer or
outside the mapped window, the exit command, or an event that cannot happen here. -/
inductive Fault
  | assertion
  | undefinedConversion
  | divisionByZero
  | outOfBounds
  | exit
  | disabled
  deriving DecidableEq

abbrev maxInstrClasses : ℕ := 4

abbrev InstrClass := Fin maxInstrClasses

abbrev vemuStateNVars : ℕ := maxInstrClasses * 3 + 8

abbrev pmArraySize : ℕ := 14

scoped instance : NeZero maxInstrClasses := ⟨by decide⟩

scoped instance (priority := 2000) : NeZero vemuStateNVars := ⟨by decide⟩

scoped instance : NeZero pmArraySize := ⟨by decide⟩

/-- The union `vemu_state`, by its `array64` member. -/
abbrev VemuState := Fin vemuStateNVars → UInt64

structure VemuRegs where
  actTime : InstrClass → UInt64
  actEnergy : InstrClass → UInt64
  cycles : InstrClass → UInt64
  totalActTime : UInt64
  totalActEnergy : UInt64
  totalCycles : UInt64
  slpTime : UInt64
  slpEnergy : UInt64
  faultStatus : UInt64
  frequency : UInt64
  voltage : UInt64

namespace VemuState

def actTime (v : VemuState) (c : InstrClass) : UInt64 := v (c.castLE (by decide))

def actEnergy (v : VemuState) (c : InstrClass) : UInt64 := v (Fin.castLE (by decide) (c.natAdd 4))

def cycles (v : VemuState) (c : InstrClass) : UInt64 := v (Fin.castLE (by decide) (c.natAdd 8))

def totalActTime (v : VemuState) : UInt64 := v 12

def totalActEnergy (v : VemuState) : UInt64 := v 13

def totalCycles (v : VemuState) : UInt64 := v 14

def slpTime (v : VemuState) : UInt64 := v 15

def slpEnergy (v : VemuState) : UInt64 := v 16

def faultStatus (v : VemuState) : UInt64 := v 17

def frequency (v : VemuState) : UInt64 := v 18

def voltage (v : VemuState) : UInt64 := v 19

end VemuState

def VemuRegs.array64 (r : VemuRegs) : VemuState :=
  ![r.actTime 0, r.actTime 1, r.actTime 2, r.actTime 3,
    r.actEnergy 0, r.actEnergy 1, r.actEnergy 2, r.actEnergy 3,
    r.cycles 0, r.cycles 1, r.cycles 2, r.cycles 3,
    r.totalActTime, r.totalActEnergy, r.totalCycles, r.slpTime, r.slpEnergy,
    r.faultStatus, r.frequency, r.voltage]

section Layout

variable (r : VemuRegs)

@[simp]
theorem actTime_array64 : VemuState.actTime r.array64 = r.actTime := by
  funext c
  fin_cases c <;> rfl

@[simp]
theorem actEnergy_array64 : VemuState.actEnergy r.array64 = r.actEnergy := by
  funext c
  fin_cases c <;> rfl

@[simp]
theorem cycles_array64 : VemuState.cycles r.array64 = r.cycles := by
  funext c
  fin_cases c <;> rfl

@[simp]
theorem totalActTime_array64 : VemuState.totalActTime r.array64 = r.totalActTime := rfl

@[simp]
theorem totalActEnergy_array64 : VemuState.totalActEnergy r.array64 = r.totalActEnergy := rfl

@[simp]
theorem totalCycles_array64 : VemuState.totalCycles r.array64 = r.totalCycles := rfl

@[simp]
theorem slpTime_array64 : VemuState.slpTime r.array64 = r.slpTime := rfl

@[simp]
theorem faultStatus_array64 : VemuState.faultStatus r.array64 = r.faultStatus := rfl

end Layout

/-- A power model parameter: an exact number, or an infinity or a NaN. -/
inductive Double
  | rat (q : ℚ)
  | nonfinite
  deriving DecidableEq

def binary64 : Format where
  precision := 53
  minExponent := -1074
  maxExponent := 1024
  precision_pos := by decide
  room := by decide

/-- The double nearest to a number, an infinity beyond the range. -/
def Double.nearest (q : ℚ) : Double := (binary64.round q).elim .nonfinite .rat

def Double.ofUInt64 (u : UInt64) : Double := .nearest u.toNat

def Double.scale (k : ℚ) : Double → Double
  | .rat q => .rat (q * k)
  | .nonfinite => .nonfinite

def toUInt64 (q : ℚ) : Except Fault UInt64 :=
  match truncate q with
  | some u => .ok u
  | none => .error .undefinedConversion

def Double.toUInt64 : Double → Except Fault UInt64
  | .rat q => State.toUInt64 q
  | .nonfinite => .error .undefinedConversion

theorem nearest_eq_rat {v q : ℚ} : Double.nearest v = .rat q ↔ binary64.round v = some q := by
  unfold Double.nearest
  cases binary64.round v <;> simp

theorem nearest_intCast {z : ℤ} (h : |z| < 2 ^ 53) : Double.nearest z = .rat z :=
  nearest_eq_rat.mpr (Format.round_eq_self_iff.mpr ⟨z, 0, by simp, h, by decide, by decide⟩)

/-- What fits into 32 bits is converted exactly. -/
theorem ofUInt64_toUInt64 (u : UInt32) : Double.ofUInt64 u.toUInt64 = .rat u.toNat := by
  have hu : |(u.toNat : ℤ)| < 2 ^ 53 := by
    rw [Nat.abs_cast]
    exact_mod_cast u.toNat_lt.trans (by decide)
  rw [Double.ofUInt64, UInt32.toNat_toUInt64]
  exact_mod_cast nearest_intCast hu

theorem toUInt64_eq_ok {q : ℚ} {u : UInt64} : toUInt64 q = .ok u ↔ truncate q = some u := by
  unfold toUInt64
  cases truncate q <;> simp

abbrev Parameters := Fin pmArraySize → Double

/-- What the model leaves open: the two power curves, arbitrary functions of the parameters, and
the word the host leaves when a number that is only reported does not fit into one. -/
structure Host where
  actPower : Parameters → ℚ
  slpPower : Parameters → ℚ
  outOfRange : Double → UInt64

def Host.word (host : Host) : Double → UInt64
  | .rat q => (truncate q).getD (host.outOfRange (.rat q))
  | .nonfinite => host.outOfRange .nonfinite

theorem Host.word_toNat (host : Host) {q : ℚ} (hq : 0 ≤ q) (h : q < 2 ^ 64) :
    (host.word (.rat q)).toNat = ⌊q⌋₊ := by
  have hfit : truncate q = some (UInt64.ofNat ⌊q⌋₊) := if_pos ⟨by linarith, h⟩
  rw [Host.word, hfit, Option.getD_some, toNat_ofNat_floor h]

theorem Host.word_le (host : Host) {x y : ℚ} (hx : 0 ≤ x) (hxy : x ≤ y) (hy : y < 2 ^ 64) :
    host.word (.rat x) ≤ host.word (.rat y) := by
  rw [UInt64.le_iff_toNat_le, host.word_toNat hx (hxy.trans_lt hy),
    host.word_toNat (hx.trans hxy) hy]
  exact Nat.floor_le_floor hxy

structure VemuInstrInfo where
  opcode : UInt32
  name : String
  instrClass : UInt8
  cycles : ℚ≥0
  errors : Bool
  deriving DecidableEq

structure VemuTbInfo where
  instrWord : UInt32
  instrInfo : VemuInstrInfo
  deriving DecidableEq

/-- The variables of `vemu_cycles.c`, `vemu_energy.c`, `vemu_power_45nm.c`, `vemu_errors.c` and
`vemu_hw_module.c`, and the reading of `vm_clock`. -/
structure Emu where
  vmClock : UInt64
  cycleCount : InstrClass → ℚ≥0
  activeTime : InstrClass → ℚ≥0
  totalSleepTime : Int64
  lastActiveTimeVm : UInt64
  lastActiveTimeCycles : UInt64
  lastSleepTime : UInt64
  enteredSleepMode : Bool
  actTimeCkpt : InstrClass → UInt64
  slpTimeCkpt : UInt64
  actEnergy : InstrClass → ℚ
  slpEnergy : ℚ
  pmArray : Parameters
  vemuErrorsEnabled : UInt64
  lastState : VemuState

end VarEmu.Emulator.State
