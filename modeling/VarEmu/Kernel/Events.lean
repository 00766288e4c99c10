import VarEmu.Kernel.Driver
import VarEmu.Emulator.Machine

namespace VarEmu.Kernel.Events

open Emulator.State Driver Library.Execution

/-- What happens in the machine as a whole. A `copy_to_user` advances a word at a time and may
be given up; a page fault in it shows as a task switch between two words. -/
inductive Event (A : Type)
  | hardware (a : A)
  | variabilityInit
  | dupTaskStruct
  | prepareTaskSwitch (next : ℕ)
  | finishTaskSwitch
  | sysVarRegRead (offset : Int32)
  | sysVarRegReadProcIn
  | copyWord
  | copyFail
  | sysVarRegWrite (offset : Int32) (val : UInt64)
  deriving DecidableEq

variable {D A : Type}

def Idle (k : KernelState D) : Prop := k.window = .running ∧ k.copy k.current = none

instance (k : KernelState D) : Decidable (Idle k) := inferInstanceAs (Decidable (_ ∧ _))

variable (hw : Hardware D A)

/-- One event. Without preemption a task is switched out only while it runs, and nothing but the
hardware moves between the two hooks of a switch or of a `READ_PROC`. -/
def step (k : KernelState D) : Event A → Except Fault (KernelState D)
  | .hardware a => do
    let dev ← hw.act k.dev a
    .ok { k with dev }
  | .variabilityInit =>
    if Idle k ∧ k.basePointer = false then .ok (variabilityInit k) else .error .disabled
  | .dupTaskStruct => if Idle k then .ok (dupTaskStruct k) else .error .disabled
  | .prepareTaskSwitch next =>
    if k.window = .running ∧ next < k.nrTasks ∧ next ≠ k.current then do
      let k ← vemuProcessOut hw k
      .ok { k with window := .switching next }
    else .error .disabled
  | .finishTaskSwitch =>
    match k.window with
    | .switching next => vemuProcessIn hw { k with current := next, window := .running }
    | _ => .error .disabled
  | .sysVarRegRead offset => if Idle k then sysVarRegRead hw k offset else .error .disabled
  | .sysVarRegReadProcIn =>
    if k.window = .readProc then sysVarRegReadProcIn hw k else .error .disabled
  | .copyWord => if k.window = .running then copyWord k else .error .disabled
  | .copyFail =>
    if k.window = .running then .ok { k with copy := Function.update k.copy k.current none }
    else .error .disabled
  | .sysVarRegWrite offset val =>
    if Idle k then sysVarRegWrite hw k offset val else .error .disabled

def callsOut : Event A → Bool
  | .prepareTaskSwitch _ => true
  | .sysVarRegRead offset => offset &&& readHw == 0 && offset &&& readProc != 0
  | _ => false

def callsIn : Event A → Bool
  | .finishTaskSwitch | .sysVarRegReadProcIn => true
  | _ => false

def silent (k : KernelState D) : Event A → Bool
  | .sysVarRegRead offset => offset &&& readHw == 0 && offset &&& readProc == 0
  | .copyWord | .copyFail => true
  | .sysVarRegWrite offset _ => !k.basePointer || decide (offset > 0x1000 ∨ offset % 8 ≠ 0)
  | _ => false

/-- What an event does to the device and to the accounts. -/
inductive Outcome (k k' : KernelState D) : Event A → Prop
  | quiet {e : Event A} (he : silent k e = true) (h : k' = { k with copy := k'.copy }) :
      Outcome k k' e
  | hardware (a : A) (hact : hw.act k.dev a = .ok k'.dev) (h : k' = { k with dev := k'.dev }) :
      Outcome k k' (.hardware a)
  | latch {offset : Int32} {dev : D} {tmp : VemuState} (hhw : offset &&& readHw ≠ 0)
      (hread : vemuReadState hw k k.tmp = .ok (dev, tmp))
      (h : k' = KernelState.openCopy { k with dev, tmp } .tmp) :
      Outcome k k' (.sysVarRegRead offset)
  | write {offset : Int32} {val : UInt64} {dev : D} (hidle : Idle k) (hb : k.basePointer = true)
      (hle : 0 ≤ offset.toInt) (hlt : offset.toInt + 4 ≤ 0x1000)
      (hdev : hw.iowrite32 k.dev (UInt64.ofNat offset.toInt.toNat) val.toUInt32 = .ok dev)
      (h : k' = { k with dev }) : Outcome k k' (.sysVarRegWrite offset val)
  | init (hidle : Idle k) (hb : k.basePointer = false) (h : k' = variabilityInit k) :
      Outcome k k' .variabilityInit
  | fork (hidle : Idle k) (h : k' = dupTaskStruct k) : Outcome k k' .dupTaskStruct
  | out {e : Event A} {dev : D} {pout : VemuState} {window : Window} (hout : callsOut e = true)
      (hrun : k.window = .running) (hwindow : window ≠ .running)
      (hnext : ∀ next, window = .switching next → next < k.nrTasks)
      (hread : vemuReadState hw k k.pout = .ok (dev, pout))
      (h : k' = { k with
        dev, pout, window
        vemu := Function.update k.vemu k.current (saved (k.vemu k.current) pout k.pin) }) :
      Outcome k k' e
  | into {e : Event A} {d dev : D} {pin : VemuState} {next : ℕ} {copy : ℕ → Option Copy}
      (hin : callsIn e = true) (hrun : k.window ≠ .running)
      (hnext : k.window = .switching next ∨ next = k.current)
      (hread : vemuReadState hw k k.pin = .ok (d, pin))
      (hfaults : (k.basePointer = false ∧ dev = d) ∨ (k.basePointer = true ∧
        hw.iowrite32 d Emulator.Device.setFaults
          (VemuState.faultStatus (k.vemu next)).toUInt32 = .ok dev))
      (h : k' = { k with
        dev, pin, copy
        sys := vemuAddDelta k.sys pin k.pout
        current := next
        window := .running }) :
      Outcome k k' e

theorem silent_hooks {k : KernelState D} {e : Event A} (h : silent k e = true) :
    callsOut e = false ∧ callsIn e = false := by
  cases e <;> simp_all [silent, callsOut, callsIn]

theorem calls_out_not_in {e : Event A} (h : callsOut e = true) : callsIn e = false := by
  cases e <;> simp_all [callsOut, callsIn]

theorem calls_in_not_out {e : Event A} (h : callsIn e = true) : callsOut e = false := by
  cases e <;> simp_all [callsOut, callsIn]

section Outcomes

variable {hw} {k k' : KernelState D}

theorem reg_read_outcome {offset : Int32} (hrun : k.window = .running)
    (h : sysVarRegRead hw k offset = .ok k') : Outcome hw k k' (.sysVarRegRead offset) := by
  unfold sysVarRegRead at h
  split_ifs at h with hhw hproc
  · obtain ⟨⟨dev, tmp⟩, hr, h⟩ := bind_ok_iff.mp h
    cases h
    exact .latch hhw hr rfl
  · obtain ⟨m, hm, h⟩ := bind_ok_iff.mp h
    obtain ⟨dev, pout, hr, rfl⟩ := process_out_ok hm
    cases h
    have hout : callsOut (A := A) (.sysVarRegRead offset) = true := by
      simpa [callsOut, hproc] using hhw
    refine .out hout hrun ?_ ?_ hr rfl
    · decide
    · intro next hnext
      cases hnext
  · cases h
    exact .quiet (by simp_all [silent]) rfl
  · cases h
    exact .quiet (by simp_all [silent]) rfl

theorem process_in_outcome {e : Event A} {m : KernelState D} {next : ℕ}
    (hin : callsIn e = true) (hrun : k.window ≠ .running)
    (hnext : k.window = .switching next ∨ next = k.current)
    (h : vemuProcessIn hw { k with current := next, window := .running } = .ok m)
    (hm : k' = { m with copy := k'.copy }) : Outcome hw k k' e := by
  obtain ⟨d, pin, dev, hr, rfl, hfaults⟩ := process_in_ok h
  exact .into hin hrun hnext hr hfaults hm

theorem reg_write_outcome {offset : Int32} {val : UInt64} (hidle : Idle k)
    (h : sysVarRegWrite hw k offset val = .ok k') :
    Outcome hw k k' (.sysVarRegWrite offset val) := by
  unfold sysVarRegWrite at h
  split_ifs at h with hrej
  · cases h
    exact .quiet (by simp [silent, hrej]) rfl
  · rcases reg_write_ok h with ⟨hb, rfl⟩ | ⟨hb, hle, hlt, dev, rfl, hdev⟩
    · exact .quiet (by simp [silent, hb]) rfl
    · exact .write hidle hb hle hlt hdev rfl

theorem copy_word_ok (h : copyWord k = .ok k') :
    ∃ (c : Copy) (hlt : c.sent.length < vemuStateNVars), k.copy k.current = some c ∧
      k' = { k with
        copy := Function.update k.copy k.current
          (if c.sent.length + 1 = vemuStateNVars then none
          else some ⟨c.source, c.sent ++ [k.source k.current c.source ⟨_, hlt⟩]⟩) } := by
  unfold copyWord at h
  split at h
  · cases h
  · rename_i c hc
    split_ifs at h with hlt
    cases h
    exact ⟨c, hlt, hc, by simp⟩

theorem finish_task_switch_ok (h : step hw k .finishTaskSwitch = .ok k') :
    ∃ next, k.window = .switching next ∧
      vemuProcessIn hw { k with current := next, window := .running } = .ok k' := by
  simp only [step] at h
  split at h
  · rename_i next hwin
    exact ⟨next, hwin, h⟩
  · cases h

theorem step_outcome {e : Event A} (h : step hw k e = .ok k') : Outcome hw k k' e := by
  cases e with
  | hardware a =>
    obtain ⟨dev, hact, h⟩ := bind_ok_iff.mp h
    cases h
    exact .hardware a hact rfl
  | variabilityInit =>
    obtain ⟨hidle, h⟩ := guard_ok_iff.mp h
    cases h
    exact .init hidle.1 hidle.2 rfl
  | dupTaskStruct =>
    obtain ⟨hidle, h⟩ := guard_ok_iff.mp h
    cases h
    exact .fork hidle rfl
  | prepareTaskSwitch next =>
    obtain ⟨hrun, h⟩ := guard_ok_iff.mp h
    obtain ⟨m, hm, h⟩ := bind_ok_iff.mp h
    obtain ⟨dev, pout, hr, rfl⟩ := process_out_ok hm
    cases h
    refine .out rfl hrun.1 ?_ ?_ hr rfl
    · simp
    · intro n hn
      cases hn
      exact hrun.2.1
  | finishTaskSwitch =>
    obtain ⟨next, hwin, h⟩ := finish_task_switch_ok h
    exact process_in_outcome rfl (by simp [hwin]) (.inl hwin) h rfl
  | sysVarRegRead offset =>
    obtain ⟨hidle, h⟩ := guard_ok_iff.mp h
    exact reg_read_outcome hidle.1 h
  | sysVarRegReadProcIn =>
    obtain ⟨hwin, h⟩ := guard_ok_iff.mp h
    obtain ⟨m, hm, h⟩ := bind_ok_iff.mp h
    cases h
    exact process_in_outcome rfl (by simp [hwin]) (.inr (Eq.refl k.current)) hm rfl
  | copyWord =>
    obtain ⟨-, h⟩ := guard_ok_iff.mp h
    obtain ⟨c, hlt, _, rfl⟩ := copy_word_ok h
    exact .quiet rfl rfl
  | copyFail =>
    obtain ⟨-, h⟩ := guard_ok_iff.mp h
    cases h
    exact .quiet rfl rfl
  | sysVarRegWrite offset val =>
    obtain ⟨hidle, h⟩ := guard_ok_iff.mp h
    exact reg_write_outcome hidle h

end Outcomes

/-- The emulated device. A read of the window gives the snapshot that was latched last. -/
def emulator (host : Host) : Hardware Emu Emulator.Machine.Activity where
  act := Emulator.Machine.perform host
  iowrite32 s offset val := Emulator.Device.vemuModWrite host s offset val.toUInt64
  memcpyFromio s := s.lastState

theorem emulator_iowrite32 {host : Host} (s : Emu) (offset : UInt64) (val : UInt32) :
    (emulator host).iowrite32 s offset val =
      Emulator.Device.vemuModWrite host s offset val.toUInt64 :=
  rfl

end VarEmu.Kernel.Events
