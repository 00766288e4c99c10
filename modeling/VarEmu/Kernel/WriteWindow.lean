import VarEmu.Kernel.Events

namespace VarEmu.Kernel.WriteWindow

open Emulator.State Driver Events Library.Execution
open Emulator.Cycles (vemuInitCycles)
open Emulator.Device (vemuModWrite latch)
open Emulator.Machine (linearHost gigahertz)

/-- The offsets that pass the check of `sys_var_reg_write` and lie outside the window: a remainder
of a negative number is compared with zero only, and the bound is the end of the window. -/
def Escapes (offset : Int32) : Prop :=
  8 ∣ offset.toInt ∧ (offset.toInt < 0 ∨ offset.toInt = 0x1000)

instance (offset : Int32) : Decidable (Escapes offset) := inferInstanceAs (Decidable (_ ∧ _))

theorem offset_check_iff (offset : Int32) :
    (offset > 0x1000 ∨ offset % 8 ≠ 0) ↔ 0x1000 < offset.toInt ∨ ¬8 ∣ offset.toInt := by
  have hbound : offset > 0x1000 ↔ 0x1000 < offset.toInt := Int32.lt_iff_toInt_lt
  have hrest : offset % 8 = 0 ↔ 8 ∣ offset.toInt := by
    rw [← Int32.toInt_inj, Int32.toInt_mod]
    exact Int.dvd_iff_tmod_eq_zero.symm
  rw [hbound, ne_eq, hrest]

theorem escapes_iff (offset : Int32) :
    Escapes offset ↔ ¬(offset > 0x1000 ∨ offset % 8 ≠ 0) ∧
      ¬(0 ≤ offset.toInt ∧ offset.toInt + 4 ≤ 0x1000) := by
  rw [offset_check_iff, Escapes]
  omega

variable {D A : Type} {hw : Hardware D A} {k : KernelState D}

theorem reg_write_leaves_iff (hdev : ∀ o v, hw.iowrite32 k.dev o v ≠ .error .outOfBounds)
    (offset : Int32) (val : UInt64) :
    vemuRegWrite hw k offset val = .error .outOfBounds ↔
      k.basePointer = true ∧ ¬(0 ≤ offset.toInt ∧ offset.toInt + 4 ≤ 0x1000) := by
  unfold vemuRegWrite
  split_ifs with hmapped hin
  · simp [bind_error_iff, hdev, hin]
  · simp [hmapped, hin]
  · simp [hmapped]

theorem sys_reg_write_leaves_iff (hdev : ∀ o v, hw.iowrite32 k.dev o v ≠ .error .outOfBounds)
    (offset : Int32) (val : UInt64) :
    sysVarRegWrite hw k offset val = .error .outOfBounds ↔
      k.basePointer = true ∧ Escapes offset := by
  rw [escapes_iff, sysVarRegWrite]
  split_ifs with hcheck
  · simp [hcheck]
  · rw [reg_write_leaves_iff hdev]
    simp [hcheck]

def LeavesWindow (k : KernelState D) : Event A → Prop
  | .sysVarRegWrite offset _ => Idle k ∧ k.basePointer = true ∧ Escapes offset
  | .hardware _ | .variabilityInit | .dupTaskStruct | .prepareTaskSwitch _ | .finishTaskSwitch
  | .sysVarRegRead _ | .sysVarRegReadProcIn | .copyWord | .copyFail => False

section Stays

variable (hdev : ∀ d o v, hw.iowrite32 d o v ≠ .error .outOfBounds)
include hdev

theorem read_state_stays (k : KernelState D) (target : VemuState) :
    vemuReadState hw k target ≠ .error .outOfBounds := by
  unfold vemuReadState
  split_ifs
  · simp [bind_error_iff, hdev]
  · simp

theorem process_out_stays (k : KernelState D) : vemuProcessOut hw k ≠ .error .outOfBounds := by
  simp [vemuProcessOut, bind_error_iff, read_state_stays hdev]

theorem process_in_stays (k : KernelState D) : vemuProcessIn hw k ≠ .error .outOfBounds := by
  unfold vemuProcessIn
  intro h
  rcases bind_error_iff.mp h with h | ⟨⟨dev, pin⟩, -, h⟩
  · exact read_state_stays hdev k k.pin h
  · -- The fault register is at the start of the window.
    have hleaves := ((reg_write_leaves_iff (hdev dev) _ _).mp h).2
    exact hleaves (by decide)

theorem sys_reg_read_stays (k : KernelState D) (offset : Int32) :
    sysVarRegRead hw k offset ≠ .error .outOfBounds := by
  unfold sysVarRegRead
  split_ifs
  · simp [bind_error_iff, read_state_stays hdev]
  · simp [bind_error_iff, process_out_stays hdev]
  · simp
  · simp

theorem step_leaves_iff {e : Event A} (he : ∀ a, e ≠ .hardware a) :
    step hw k e = .error .outOfBounds ↔ LeavesWindow k e := by
  cases e with
  | hardware a => exact absurd rfl (he a)
  | sysVarRegWrite offset val =>
    simp only [step, LeavesWindow]
    split_ifs with hidle
    · rw [sys_reg_write_leaves_iff (hdev k.dev)]
      simp [hidle]
    · simp [hidle]
  | prepareTaskSwitch next =>
    simp only [step, LeavesWindow]
    split_ifs
    · simp [bind_error_iff, process_out_stays hdev]
    · simp
  | finishTaskSwitch =>
    simp only [step, LeavesWindow]
    split
    · simp [process_in_stays hdev]
    · simp
  | sysVarRegRead offset =>
    simp only [step, LeavesWindow]
    split_ifs
    · simp [sys_reg_read_stays hdev]
    · simp
  | sysVarRegReadProcIn =>
    simp only [step, LeavesWindow, sysVarRegReadProcIn]
    split_ifs
    · simp [bind_error_iff, process_in_stays hdev]
    · simp
  | copyWord =>
    simp only [step, LeavesWindow, copyWord]
    split_ifs
    · split
      · simp
      · split_ifs <;> simp
    · simp
  | variabilityInit | dupTaskStruct | copyFail =>
    simp only [step, LeavesWindow]
    split_ifs <;> simp

/-- Of everything that happens in a run, only a register write with one of these offsets leaves
the window. -/
theorem run_leaves_iff (hact : ∀ d a, hw.act d a ≠ .error .outOfBounds) (es : List (Event A)) :
    run (step hw) k es = .error .outOfBounds ↔
      ∃ fs e gs m, es = fs ++ e :: gs ∧ run (step hw) k fs = .ok m ∧ LeavesWindow m e := by
  have hstep : ∀ (m : KernelState D) e, step hw m e = .error .outOfBounds ↔ LeavesWindow m e := by
    intro m e
    cases e with
    | hardware a => simp [step, LeavesWindow, bind_error_iff, hact]
    | _ => exact step_leaves_iff hdev (by simp)
  rw [run_eq_error_iff]
  simp only [hstep]

end Stays

/-- With the module mapped, a write from user space stays inside the window exactly when its
offset is neither a negative multiple of eight nor the end of the window. -/
theorem user_write_inside_iff {D A : Type} (hw : Hardware D A) (k : KernelState D)
    (hmapped : k.basePointer = true) (hdev : ∀ o v, hw.iowrite32 k.dev o v ≠ .error .outOfBounds)
    (offset : Int32) (val : UInt64) :
    sysVarRegWrite hw k offset val ≠ .error .outOfBounds ↔
      ¬(8 ∣ offset.toInt ∧ (offset.toInt < 0 ∨ offset.toInt = 0x1000)) := by
  rw [ne_eq, sys_reg_write_leaves_iff hdev, hmapped]
  simp [Escapes]

theorem started_write_stays (o : UInt64) (v : UInt32) :
    (emulator linearHost).iowrite32 (vemuInitCycles gigahertz 0) o v ≠ .error .outOfBounds := by
  rw [emulator_iowrite32, vemuModWrite]
  split_ifs
  · simp
  · exact nofun
  · exact nofun
  · have hlatch : Ends (fun _ ↦ True) (latch linearHost (vemuInitCycles gigahertz 0)) := by
      decide +kernel
    obtain ⟨s, hs, -⟩ := hlatch.exists
    simp [hs]
  · simp
  · simp

theorem frequency_write_inside :
    sysVarRegWrite (emulator linearHost) (variabilityInit (boot (vemuInitCycles gigahertz 0)))
      0x008 500000000 ≠ .error .outOfBounds :=
  (user_write_inside_iff (emulator linearHost) _ rfl started_write_stays 0x008 500000000).mpr
    (by decide)

theorem escaping_writes :
    sysVarRegWrite (emulator linearHost) (variabilityInit (boot (vemuInitCycles gigahertz 0)))
      (-8) 1 = .error .outOfBounds ∧
    sysVarRegWrite (emulator linearHost) (variabilityInit (boot (vemuInitCycles gigahertz 0)))
      0x1000 1 = .error .outOfBounds :=
  ⟨rfl, rfl⟩

end VarEmu.Kernel.WriteWindow
