import VarEmu.Kernel.Accounting

namespace VarEmu.Kernel.FaultIsolation

open Emulator.State Driver Events Accounting Library.Execution
open Emulator.Cycles (vemuInitCycles)
open Emulator.Machine (Activity linearHost gigahertz ldr perform)
open Emulator.Device (vemuModWrite latch mod_write_set_faults mod_write_read_cmd latch_frame)

variable {host : Host}

def record (k : KernelState Emu) (w : ℕ → UInt64) : Event Activity → ℕ → UInt64
  | .sysVarRegWrite offset val =>
    if k.basePointer = true ∧ offset = setFaults then Function.update w k.current val else w
  | .dupTaskStruct => Function.update w k.nrTasks 0
  | .hardware _ | .variabilityInit | .prepareTaskSwitch _ | .finishTaskSwitch
  | .sysVarRegRead _ | .sysVarRegReadProcIn | .copyWord | .copyFail => w

variable (host) in
/-- The last value each task wrote to `SET_FAULTS` since the driver was initialised, zero if
there is none. -/
def lastWritten : (ℕ → UInt64) → KernelState Emu → List (Event Activity) → ℕ → UInt64 :=
  journal (step (emulator host)) fun k e _ w ↦ record k w e

/-- The register of the device holds what the running task wrote, and the others have theirs
saved. Between the hooks all of them are saved. -/
structure Isolated (k : KernelState Emu) (w : ℕ → UInt64) : Prop where
  running : k.window = .running →
    k.dev.vemuErrorsEnabled.toUInt32 = (w k.current).toUInt32
  saved : ∀ t, (k.window = .running → t ≠ k.current) →
    (VemuState.faultStatus (k.vemu t)).toUInt32 = (w t).toUInt32
  unmapped : k.basePointer = false → k.dev.vemuErrorsEnabled = 0 ∧ w = fun _ ↦ 0

theorem perform_faults {s s' : Emu} {a : Activity} (h : perform host s a = .ok s') :
    s'.vemuErrorsEnabled = s.vemuErrorsEnabled := by
  have hstep : Emulator.Machine.step host s (.act a) = .ok s' := h
  cases Emulator.Machine.step_outcome hstep with
  | retire _ hs | tick hs | sleep _ hs | wake _ _ hs =>
    subst hs
    rfl
  | books _ hs => exact hs.vemuErrorsEnabled_eq
  | change _ _ ht hs =>
    subst hs
    exact ht.vemuErrorsEnabled_eq

theorem mod_write_faults {s s' : Emu} {offset val : UInt64}
    (h : vemuModWrite host s offset val = .ok s') :
    s'.vemuErrorsEnabled = if offset = 0 then val else s.vemuErrorsEnabled := by
  by_cases hzero : offset = 0
  · subst hzero
    rw [mod_write_set_faults] at h
    cases h
    rfl
  · rw [if_neg hzero]
    cases Emulator.Machine.mod_write_outcome h with
    | books _ hs => exact hs.vemuErrorsEnabled_eq
    | change _ _ ht hs =>
      subst hs
      exact ht.vemuErrorsEnabled_eq
    | latch ht hs =>
      rw [hs]
      exact ht.vemuErrorsEnabled_eq
    | faults => exact absurd rfl hzero

theorem read_state_faults {k : KernelState Emu} {target w : VemuState} {dev : Emu}
    (h : vemuReadState (emulator host) k target = .ok (dev, w)) :
    dev.vemuErrorsEnabled = k.dev.vemuErrorsEnabled ∧
      (k.basePointer = true → VemuState.faultStatus w = k.dev.vemuErrorsEnabled) := by
  rcases read_state_ok h with ⟨hb, rfl, rfl⟩ | ⟨hb, hd, rfl⟩
  · exact ⟨rfl, fun hb' ↦ absurd (hb.symm.trans hb') nofun⟩
  · rw [emulator_iowrite32] at hd
    refine ⟨mod_write_faults hd, ?_⟩
    intro _
    obtain ⟨_, _, _, hw, _⟩ := latch_frame ((mod_write_read_cmd _ _).symm.trans hd)
    exact hw

theorem boot_isolated (pm : Parameters) (time : UInt64) :
    Isolated (boot (vemuInitCycles pm time)) fun _ ↦ 0 where
  running _ := rfl
  saved _ _ := rfl
  unmapped _ := ⟨rfl, rfl⟩

theorem record_silent {k : KernelState Emu} {w : ℕ → UInt64} {e : Event Activity}
    (h : silent k e = true) : record k w e = w := by
  cases e with
  | sysVarRegWrite offset val =>
    refine if_neg ?_
    rintro ⟨hb, rfl⟩
    rw [silent, hb] at h
    exact absurd h (by decide)
  | _ => first | rfl | simp [silent] at h

theorem record_hook {k : KernelState Emu} {w : ℕ → UInt64} {e : Event Activity}
    (h : callsOut e = true ∨ callsIn e = true) : record k w e = w := by
  cases e <;> simp_all [record, callsOut, callsIn]

theorem offset_zero_iff {offset : Int32} (hle : 0 ≤ offset.toInt)
    (hlt : offset.toInt + 4 ≤ 0x1000) :
    UInt64.ofNat offset.toInt.toNat = 0 ↔ offset = setFaults := by
  constructor
  · intro h
    have hsmall : offset.toInt.toNat < 2 ^ 64 := by omega
    have hnat : offset.toInt.toNat = 0 :=
      (UInt64.toNat_ofNat_of_lt' hsmall).symm.trans (congrArg UInt64.toNat h)
    have hint : offset.toInt = 0 := by omega
    exact Int32.toInt_inj.mp hint
  · rintro rfl
    rfl

section Steps

variable {k k' : KernelState Emu} {w : ℕ → UInt64} {e : Event Activity}

theorem write_isolated {offset : Int32} {val : UInt64} {dev : Emu} (hi : Isolated k w)
    (hidle : Idle k) (hb : k.basePointer = true) (hle : 0 ≤ offset.toInt)
    (hlt : offset.toInt + 4 ≤ 0x1000)
    (hdev : vemuModWrite host k.dev (UInt64.ofNat offset.toInt.toNat) val.toUInt32.toUInt64 =
      .ok dev) : Isolated { k with dev } (record k w (.sysVarRegWrite offset val)) := by
  have hf := mod_write_faults hdev
  simp only [offset_zero_iff hle hlt] at hf
  have hrec : record k w (.sysVarRegWrite offset val) =
      if offset = setFaults then Function.update w k.current val else w := by
    simp [record, hb]
  have hmapped : ∀ {P : Prop}, k.basePointer = false → P :=
    fun hb' ↦ absurd (hb.symm.trans hb') nofun
  rw [hrec]
  split_ifs at hf ⊢
  · refine ⟨?_, ?_, hmapped⟩
    · intro _
      rw [hf, Function.update_self]
      exact UInt32.toUInt32_toUInt64 _
    · intro t ht
      rw [Function.update_of_ne (ht hidle.1)]
      exact hi.saved t ht
  · exact ⟨fun hwin ↦ hf ▸ hi.running hwin, hi.saved, hmapped⟩

theorem fork_isolated (hk : WellFormed k) (hi : Isolated k w) :
    Isolated (dupTaskStruct k) (record k w .dupTaskStruct) := by
  refine ⟨?_, ?_, ?_⟩
  · intro hwin
    have hne : (dupTaskStruct k).current ≠ k.nrTasks := hk.current_lt.ne
    rw [record, Function.update_of_ne hne]
    exact hi.running hwin
  · intro t ht
    rw [fork_vemu hk, record]
    by_cases hnew : t = k.nrTasks
    · rw [hnew, Function.update_self, hk.fresh k.nrTasks le_rfl]
      rfl
    · rw [Function.update_of_ne hnew]
      exact hi.saved t ht
  · intro hb
    obtain ⟨hdev, hw⟩ := hi.unmapped hb
    refine ⟨hdev, ?_⟩
    rw [record, hw]
    exact Function.update_eq_self k.nrTasks _

theorem out_saved {dev : Emu} {pout : VemuState} (hk : WellFormed k) (hi : Isolated k w)
    (hrun : k.window = .running)
    (hread : vemuReadState (emulator host) k k.pout = .ok (dev, pout)) :
    (VemuState.faultStatus pout).toUInt32 = (w k.current).toUInt32 := by
  cases hb : k.basePointer with
  | true => rw [(read_state_faults hread).2 hb, hi.running hrun]
  | false =>
    rcases read_state_ok hread with ⟨_, _, rfl⟩ | ⟨hb', _⟩
    · rw [(hk.clean hb).2.1, (hi.unmapped hb).2]
      rfl
    · exact absurd (hb.symm.trans hb') nofun

theorem step_isolated (hk : WellFormed k) (hi : Isolated k w)
    (h : step (emulator host) k e = .ok k') : Isolated k' (record k w e) := by
  cases step_outcome h with
  | quiet he hs =>
    rw [record_silent he, hs]
    exact ⟨hi.running, hi.saved, hi.unmapped⟩
  | hardware a hact hs =>
    have hf := perform_faults hact
    rw [hs]
    exact ⟨fun hwin ↦ hf ▸ hi.running hwin, hi.saved, fun hb ↦ hf ▸ hi.unmapped hb⟩
  | latch _ hread hs =>
    have hf := (read_state_faults hread).1
    rw [hs]
    exact ⟨fun hwin ↦ hf ▸ hi.running hwin, hi.saved, fun hb ↦ hf ▸ hi.unmapped hb⟩
  | write hidle hb hle hlt hdev hs =>
    rw [hs]
    exact write_isolated hi hidle hb hle hlt hdev
  | init _ _ hs =>
    rw [hs]
    exact ⟨hi.running, hi.saved, nofun⟩
  | fork _ hs =>
    rw [hs]
    exact fork_isolated hk hi
  | out hout hrun hwindow _ hread hs =>
    have hf := (read_state_faults hread).1
    rw [record_hook (.inl hout), hs]
    refine ⟨fun hwin ↦ absurd hwin hwindow, ?_, fun hb ↦ hf ▸ hi.unmapped hb⟩
    intro t _
    dsimp only
    by_cases ht : t = k.current
    · rw [ht, Function.update_self, saved_fault_status]
      exact out_saved hk hi hrun hread
    · rw [Function.update_of_ne ht]
      exact hi.saved t fun _ ↦ ht
  | into hin hrun _ hread hfaults hs =>
    have hf := (read_state_faults hread).1
    have hsaved : ∀ t, (VemuState.faultStatus (k.vemu t)).toUInt32 = (w t).toUInt32 :=
      fun t ↦ hi.saved t fun hwin ↦ absurd hwin hrun
    rw [record_hook (.inr hin), hs]
    rcases hfaults with ⟨hb, rfl⟩ | ⟨hb, hdev⟩
    · refine ⟨?_, fun t _ ↦ hsaved t, fun _ ↦ hf ▸ hi.unmapped hb⟩
      intro _
      rw [hf, (hi.unmapped hb).1, (hi.unmapped hb).2]
    · refine ⟨?_, fun t _ ↦ hsaved t, fun hb' ↦ absurd (hb.symm.trans hb') nofun⟩
      intro _
      rw [emulator_iowrite32] at hdev
      rw [mod_write_faults hdev, if_pos rfl, UInt32.toUInt32_toUInt64]
      exact hsaved _

end Steps

theorem run_isolated {k k' : KernelState Emu} {w : ℕ → UInt64} {es : List (Event Activity)}
    (hk : WellFormed k) (hi : Isolated k w) (h : run (step (emulator host)) k es = .ok k') :
    Isolated k' (lastWritten host w k es) := by
  refine (run_journal (C := fun _ _ ↦ True) (R := fun w k ↦ WellFormed k ∧ Isolated k w) ?_ h
    (always_of_forall (fun _ _ _ ↦ trivial) k) ⟨hk, hi⟩).2
  intro w k e m hk _ hm
  exact ⟨step_wellFormed k e m hk.1 hm, step_isolated hk.1 hk.2 hm⟩

/-- Whenever a task runs, the fault setting of the device is the one the task wrote last, and
none if it wrote none. -/
theorem fault_setting_isolated (host : Host) (pm : Parameters) (time : UInt64)
    (es : List (Event Activity)) (k : KernelState Emu)
    (hrun : run (step (emulator host)) (boot (vemuInitCycles pm time)) es = .ok k)
    (hwin : k.window = .running) :
    k.dev.vemuErrorsEnabled.toNat % 2 ^ 32 =
      (lastWritten host (fun _ ↦ 0) (boot (vemuInitCycles pm time)) es k.current).toNat %
        2 ^ 32 := by
  have hi := run_isolated (boot_wellFormed _) (boot_isolated pm time) hrun
  have h := congrArg UInt32.toNat (hi.running hwin)
  rwa [UInt64.toNat_toUInt32, UInt64.toNat_toUInt32] at h

def twoWriters : List (Event Activity) :=
  [.variabilityInit, .sysVarRegWrite setFaults 5, .dupTaskStruct, .prepareTaskSwitch 1,
    .finishTaskSwitch, .sysVarRegWrite setFaults (2 ^ 32 + 7), .sysVarRegRead readProc,
    .sysVarRegReadProcIn, .copyFail, .prepareTaskSwitch 0, .hardware ldr, .finishTaskSwitch]

theorem two_writers_isolated :
    ∃ k, run (step (emulator linearHost)) (boot (vemuInitCycles gigahertz 0)) twoWriters = .ok k ∧
      k.window = .running ∧ k.current = 0 ∧
      k.dev.vemuErrorsEnabled.toNat % 2 ^ 32 = (lastWritten linearHost (fun _ ↦ 0)
        (boot (vemuInitCycles gigahertz 0)) twoWriters k.current).toNat % 2 ^ 32 := by
  have hok : Ends (fun k ↦ k.window = .running ∧ k.current = 0)
      (run (step (emulator linearHost)) (boot (vemuInitCycles gigahertz 0)) twoWriters) := by
    decide +kernel
  obtain ⟨k, hk, hwin, hcur⟩ := hok.exists
  exact ⟨k, hk, hwin, hcur, fault_setting_isolated linearHost gigahertz 0 twoWriters k hk hwin⟩

end VarEmu.Kernel.FaultIsolation
