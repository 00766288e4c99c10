import VarEmu.Kernel.FaultIsolation
import VarEmu.Kernel.UserCopy

namespace VarEmu.Kernel.ReadBack

open Emulator.State Driver Events Accounting FaultIsolation UserCopy Library.Execution
open Library.Truncation
open Emulator.Cycles (vemuInitCycles)
open Emulator.Machine (Activity linearHost gigahertz ldr step_parameter mod_write_outcome)
open Emulator.Device (vemuModWrite latch latch_frame mod_write_read_cmd)

/-- The registers of the device that user space can set. -/
inductive Setting
  | setFaults
  | setFrequency
  | setVoltage
  deriving DecidableEq

namespace Setting

def offset : Setting → Int32
  | .setFaults => 0x000
  | .setFrequency => 0x008
  | .setVoltage => 0x010

def address : Setting → UInt64
  | .setFaults => Emulator.Device.setFaults
  | .setFrequency => Emulator.Device.setFrequency
  | .setVoltage => Emulator.Device.setVoltage

def field : Setting → Fin vemuStateNVars
  | .setFaults => 17
  | .setFrequency => 18
  | .setVoltage => 19

def parameter : Setting → Option UInt8
  | .setFaults => none
  | .setFrequency => some 0
  | .setVoltage => some 1

/-- An event that sets the register anew: a `vemu_write` to it, or a monitor command that changes
the parameter behind it. -/
def written (r : Setting) : Event Activity → Bool
  | .sysVarRegWrite offset _ => offset == r.offset
  | .hardware a =>
    match (Emulator.Machine.Event.act a).parameterWritten with
    | some (pp, _) => r.parameter == some pp
    | none => false
  | .variabilityInit | .dupTaskStruct | .prepareTaskSwitch _ | .finishTaskSwitch
  | .sysVarRegRead _ | .sysVarRegReadProcIn | .copyWord | .copyFail => false

end Setting

variable {host : Host}

def reported (host : Host) (s : Emu) : Setting → UInt64
  | .setFaults => s.vemuErrorsEnabled
  | .setFrequency => host.word (s.pmArray 0)
  | .setVoltage => host.word ((s.pmArray 1).scale 1000)

theorem latch_reported {s s' : Emu} (h : latch host s = .ok s') (r : Setting) :
    s'.lastState r.field = reported host s r := by
  obtain ⟨_, _, _, hfaults, hfrequency, hvoltage⟩ := latch_frame h
  cases r with
  | setFaults => exact hfaults
  | setFrequency => exact hfrequency
  | setVoltage => exact hvoltage

section Copies

variable {D A : Type} {hw : Hardware D A} {k k' : KernelState D}

def readsHw : Event A → Bool
  | .sysVarRegRead offset => offset &&& readHw != 0
  | _ => false

/-- What the task's copies out of `vemu_state_tmp` have sent so far comes from `w`. -/
structure Sending (w : VemuState) (t : ℕ) (k : KernelState D) : Prop where
  mapped : k.basePointer = true
  tmp : k.tmp = w
  lt : t < k.nrTasks
  holds : ∀ c ∈ k.copy t, c.source = .tmp → Holds c w

theorem Sending.setCopy {w : VemuState} {t : ℕ} (h : Sending w t k) {o : Option Copy}
    (ho : ∀ c ∈ o, k.current = t → c.source = .tmp → Holds c w) :
    Sending w t { k with copy := Function.update k.copy k.current o } := by
  refine ⟨h.mapped, h.tmp, h.lt, ?_⟩
  intro c hc hs
  dsimp only at hc
  by_cases ht : t = k.current
  · subst ht
    rw [Function.update_self] at hc
    exact ho c hc rfl hs
  · rw [Function.update_of_ne ht] at hc
    exact h.holds c hc hs

theorem Sending.copyWord {w : VemuState} {t : ℕ} (hi : Sending w t k)
    (h : copyWord k = .ok k') : Sending w t k' := by
  obtain ⟨c, hlt, hc, rfl⟩ := copy_word_ok h
  apply hi.setCopy
  intro d hd ht hs
  split_ifs at hd
  · exact nomatch hd
  · cases hd
    have hs : c.source = .tmp := hs
    have hw : k.source k.current c.source = w := by rw [hs, ← hi.tmp, KernelState.source]
    have hsent := (hi.holds c (ht ▸ hc) hs).snoc hlt
    rw [Holds, List.length_append, List.length_singleton, hw]
    exact hsent

theorem step_sending {w : VemuState} {t : ℕ} {e : Event A} (hi : Sending w t k)
    (he : readsHw e = false) (h : step hw k e = .ok k') : Sending w t k' := by
  cases e with
  | copyWord =>
    obtain ⟨-, h⟩ := guard_ok_iff.mp h
    exact hi.copyWord h
  | copyFail =>
    obtain ⟨-, h⟩ := guard_ok_iff.mp h
    cases h
    apply hi.setCopy
    intro c hc
    cases hc
  | variabilityInit =>
    obtain ⟨hidle, h⟩ := guard_ok_iff.mp h
    cases hi.mapped.symm.trans hidle.2
  | dupTaskStruct =>
    obtain ⟨-, h⟩ := guard_ok_iff.mp h
    cases h
    refine ⟨hi.mapped, hi.tmp, Nat.lt_succ_of_lt hi.lt, ?_⟩
    intro c hc
    simp only [dupTaskStruct, Function.update_of_ne hi.lt.ne] at hc
    exact hi.holds c hc
  | sysVarRegRead offset =>
    obtain ⟨-, h⟩ := guard_ok_iff.mp h
    unfold sysVarRegRead at h
    split_ifs at h with hhw
    · simp [readsHw, hhw] at he
    · obtain ⟨m, hm, h⟩ := bind_ok_iff.mp h
      obtain ⟨dev, pout, _, rfl⟩ := process_out_ok hm
      cases h
      exact ⟨hi.mapped, hi.tmp, hi.lt, hi.holds⟩
    · cases h
      apply hi.setCopy
      rintro c hc - hs
      cases hc
      cases hs
    · cases h
      exact hi
  | sysVarRegReadProcIn =>
    obtain ⟨-, h⟩ := guard_ok_iff.mp h
    obtain ⟨m, hm, h⟩ := bind_ok_iff.mp h
    obtain ⟨d, pin, dev, _, rfl, _⟩ := process_in_ok hm
    cases h
    have hm : Sending w t { k with
        dev, pin, window := .running, sys := vemuAddDelta k.sys pin k.pout } :=
      ⟨hi.mapped, hi.tmp, hi.lt, hi.holds⟩
    apply hm.setCopy
    rintro c hc - hs
    cases hc
    cases hs
  | hardware a =>
    obtain ⟨dev, _, h⟩ := bind_ok_iff.mp h
    cases h
    exact ⟨hi.mapped, hi.tmp, hi.lt, hi.holds⟩
  | prepareTaskSwitch next =>
    obtain ⟨-, h⟩ := guard_ok_iff.mp h
    obtain ⟨m, hm, h⟩ := bind_ok_iff.mp h
    obtain ⟨dev, pout, _, rfl⟩ := process_out_ok hm
    cases h
    exact ⟨hi.mapped, hi.tmp, hi.lt, hi.holds⟩
  | finishTaskSwitch =>
    obtain ⟨next, -, h⟩ := finish_task_switch_ok h
    obtain ⟨d, pin, dev, _, rfl, _⟩ := process_in_ok h
    exact ⟨hi.mapped, hi.tmp, hi.lt, hi.holds⟩
  | sysVarRegWrite offset val =>
    obtain ⟨-, h⟩ := guard_ok_iff.mp h
    rw [sys_var_reg_write_frame h]
    exact ⟨hi.mapped, hi.tmp, hi.lt, hi.holds⟩

theorem Sending.delivered {w : VemuState} {c : Copy} {words : List UInt64}
    (hi : Sending w k.current k) (hc : k.copy k.current = some c) (hs : c.source = .tmp)
    (hwords : delivered k = some words) : words = List.ofFn w := by
  simp only [UserCopy.delivered, hc] at hwords
  split_ifs at hwords with hlen
  cases hwords
  rw [hs, KernelState.source, hi.tmp, (hi.holds c hc hs).snoc, hlen,
    List.take_of_length_le List.length_ofFn.le]

end Copies

section Settings

variable {k k' : KernelState Emu} {e : Event Activity}

theorem offset_of_address {offset : Int32} (hle : 0 ≤ offset.toInt)
    (hlt : offset.toInt + 4 ≤ 0x1000) {r : Setting}
    (h : UInt64.ofNat offset.toInt.toNat = r.address) : offset = r.offset := by
  have hsmall : offset.toInt.toNat < 2 ^ 64 := by omega
  have hnat : offset.toInt.toNat = r.offset.toInt.toNat := by
    rw [← UInt64.toNat_ofNat_of_lt' hsmall, h]
    cases r <;> rfl
  have hpos : 0 ≤ r.offset.toInt := by cases r <;> decide
  apply Int32.toInt_inj.mp
  omega

theorem iowrite_kept {s s' : Emu} {offset : UInt64} {val : UInt32} {r : Setting}
    {p : Fin pmArraySize} {pp : UInt8} (hr : r.parameter = some pp) (hp : p.val = pp.toNat)
    (hne : offset ≠ r.address) (h : (emulator host).iowrite32 s offset val = .ok s') :
    s'.pmArray p = s.pmArray p := by
  have hstep : Emulator.Machine.step host s (.modWrite offset val.toUInt64) = .ok s' := h
  rw [step_parameter hstep, Emulator.Machine.Event.parameter,
    Emulator.Machine.Event.parameterWritten]
  cases r with
  | setFaults => cases hr
  | setFrequency =>
    cases hr
    split_ifs with hfrequency
    · exact absurd hfrequency hne
    · exact if_neg (by simp [hp])
    · rfl
  | setVoltage =>
    cases hr
    split_ifs with hfrequency hvoltage
    · exact if_neg (by simp [hp])
    · exact absurd hvoltage hne
    · rfl

theorem read_state_kept {target w : VemuState} {dev : Emu} {r : Setting}
    {p : Fin pmArraySize} {pp : UInt8} (hr : r.parameter = some pp) (hp : p.val = pp.toNat)
    (h : vemuReadState (emulator host) k target = .ok (dev, w)) :
    dev.pmArray p = k.dev.pmArray p := by
  rcases read_state_ok h with ⟨_, rfl, _⟩ | ⟨_, hd, _⟩
  · rfl
  · exact iowrite_kept hr hp (by cases r <;> decide) hd

theorem step_parameter_kept {r : Setting} {p : Fin pmArraySize} {pp : UInt8}
    (hr : r.parameter = some pp) (hp : p.val = pp.toNat) (he : r.written e = false)
    (h : step (emulator host) k e = .ok k') : k'.dev.pmArray p = k.dev.pmArray p := by
  cases step_outcome h with
  | quiet _ hs => rw [hs]
  | init _ _ hs =>
    rw [hs]
    rfl
  | fork _ hs =>
    rw [hs]
    rfl
  | hardware a hact =>
    have hstep : Emulator.Machine.step host k.dev (.act a) = .ok k'.dev := hact
    rw [step_parameter hstep, Emulator.Machine.Event.parameter]
    simp only [Setting.written] at he
    cases hw : (Emulator.Machine.Event.act a).parameterWritten with
    | none => rfl
    | some w =>
      rw [hw] at he
      refine if_neg ?_
      intro hpw
      have hpp : w.1 = pp := UInt8.toNat_inj.mp (hpw.trans hp)
      simp [hr, hpp] at he
  | latch _ hread hs =>
    rw [hs]
    exact read_state_kept hr hp hread
  | @write offset val dev _ _ hle hlt hdev hs =>
    rw [hs]
    refine iowrite_kept hr hp ?_ hdev
    intro ha
    simp [Setting.written, offset_of_address hle hlt ha] at he
  | out _ _ _ _ hread hs =>
    rw [hs]
    exact read_state_kept hr hp hread
  | into _ _ _ hread hfaults hs =>
    rw [hs]
    rcases hfaults with ⟨_, rfl⟩ | ⟨_, hdev⟩
    · exact read_state_kept hr hp hread
    · have hne : Emulator.Device.setFaults ≠ r.address := by
        cases r with
        | setFaults => cases hr
        | setFrequency | setVoltage => decide
      exact (iowrite_kept hr hp hne hdev).trans (read_state_kept hr hp hread)

def Stored (u : UInt32) (s : Emu) : Setting → Prop
  | .setFaults => s.vemuErrorsEnabled = u.toUInt64
  | .setFrequency => s.pmArray 0 = .rat u.toNat
  | .setVoltage => s.pmArray 1 = .rat (u.toNat / 1000)

theorem word_natCast (u : UInt32) : host.word (.rat u.toNat) = u.toUInt64 := by
  have hu : truncate ((u.toNat : ℚ≥0) : ℚ) = some u.toUInt64 := by
    rw [truncate_eq_some, Nat.floor_natCast, UInt32.toNat_toUInt64]
  have hq : ((u.toNat : ℚ≥0) : ℚ) = u.toNat := NNRat.cast_natCast _
  rw [Host.word, ← hq, hu, Option.getD_some]

variable (host) in
theorem Stored.reported {u : UInt32} {s : Emu} {r : Setting} (h : Stored u s r) :
    reported host s r = u.toUInt64 := by
  cases r with
  | setFaults => exact h
  | setFrequency =>
    rw [ReadBack.reported, h]
    exact word_natCast u
  | setVoltage =>
    rw [ReadBack.reported, h, Double.scale, div_mul_cancel₀ _ (by norm_num)]
    exact word_natCast u

theorem mod_write_stored {s s' : Emu} {r : Setting} {u : UInt32}
    (h : vemuModWrite host s r.address u.toUInt64 = .ok s') : Stored u s' r := by
  have hstep : Emulator.Machine.step host s (.modWrite r.address u.toUInt64) = .ok s' := h
  cases r with
  | setFaults => exact mod_write_faults h
  | setFrequency =>
    have hp := step_parameter hstep 0
    rwa [Emulator.Machine.Event.parameter, Emulator.Machine.Event.parameterWritten,
      Setting.address, if_pos rfl, ofUInt64_toUInt64] at hp
  | setVoltage =>
    have hp := step_parameter hstep 1
    rwa [Emulator.Machine.Event.parameter, Emulator.Machine.Event.parameterWritten,
      Setting.address, if_neg (by decide), if_pos rfl, ofUInt64_toUInt64, Double.scale,
      mul_one_div] at hp

theorem write_stored {r : Setting} {v : UInt64} (hb : k.basePointer = true)
    (h : step (emulator host) k (.sysVarRegWrite r.offset v) = .ok k') :
    Stored v.toUInt32 k'.dev r := by
  have hoff : ¬(r.offset > 0x1000 ∨ r.offset % 8 ≠ 0) := by cases r <;> decide
  have haddr : UInt64.ofNat r.offset.toInt.toNat = r.address := by cases r <;> rfl
  obtain ⟨-, h⟩ := guard_ok_iff.mp h
  rw [sysVarRegWrite, if_neg hoff] at h
  rcases reg_write_ok h with ⟨hb', _⟩ | ⟨_, _, _, dev, rfl, hdev⟩
  · cases hb.symm.trans hb'
  · rw [emulator_iowrite32, haddr] at hdev
    exact mod_write_stored hdev

theorem step_narrow (hn : k.dev.vemuErrorsEnabled.toNat < 2 ^ 32)
    (h : step (emulator host) k e = .ok k') : k'.dev.vemuErrorsEnabled.toNat < 2 ^ 32 := by
  cases step_outcome h with
  | quiet _ hs | init _ _ hs | fork _ hs =>
    rw [hs]
    exact hn
  | hardware a hact =>
    rw [perform_faults hact]
    exact hn
  | latch _ hread hs | out _ _ _ _ hread hs =>
    rw [hs]
    exact (congrArg UInt64.toNat (read_state_faults hread).1).trans_lt hn
  | write _ _ _ _ hdev hs =>
    rw [hs, mod_write_faults hdev]
    split_ifs
    · exact UInt32.toNat_lt _
    · exact hn
  | into _ _ _ hread hfaults hs =>
    rw [hs]
    rcases hfaults with ⟨_, rfl⟩ | ⟨_, hdev⟩
    · exact (congrArg UInt64.toNat (read_state_faults hread).1).trans_lt hn
    · rw [emulator_iowrite32] at hdev
      rw [mod_write_faults hdev, if_pos rfl]
      exact UInt32.toNat_lt _

theorem step_last_written {w : ℕ → UInt64} {t : ℕ} {v : UInt64}
    (hw : w t = v ∧ t < k.nrTasks) (he : Setting.setFaults.written e = false)
    (h : step (emulator host) k e = .ok k') : record k w e t = v ∧ t < k'.nrTasks := by
  cases step_outcome h with
  | quiet hsilent hs =>
    rw [record_silent hsilent, hs]
    exact hw
  | hardware _ _ hs | latch _ _ hs | init _ _ hs =>
    rw [hs]
    exact hw
  | @write offset _ _ _ _ _ _ _ hs =>
    have hne : offset ≠ setFaults := by simpa [Setting.written, Setting.offset] using he
    rw [hs, record, if_neg fun h ↦ hne h.2]
    exact hw
  | fork _ hs =>
    rw [hs, record, Function.update_of_ne hw.2.ne]
    exact ⟨hw.1, Nat.lt_succ_of_lt hw.2⟩
  | out hout _ _ _ _ hs =>
    rw [record_hook (.inl hout), hs]
    exact hw
  | into hin _ _ _ _ hs =>
    rw [record_hook (.inr hin), hs]
    exact hw

end Settings

theorem write_frame {k k' : KernelState Emu} {offset : Int32} {v : UInt64}
    (h : step (emulator host) k (.sysVarRegWrite offset v) = .ok k') :
    k' = { k with dev := k'.dev } := by
  obtain ⟨-, h⟩ := guard_ok_iff.mp h
  exact sys_var_reg_write_frame h

theorem write_recorded {k k' : KernelState Emu} {w : ℕ → UInt64} {v : UInt64}
    (hk : WellFormed k) (hi : Isolated k w) (hb : k.basePointer = true)
    (h : step (emulator host) k (.sysVarRegWrite setFaults v) = .ok k') :
    WellFormed k' ∧ Isolated k' (Function.update w k.current v) := by
  have hrec : record k w (.sysVarRegWrite setFaults v) = Function.update w k.current v :=
    if_pos ⟨hb, rfl⟩
  exact ⟨step_wellFormed k _ k' hk h, hrec ▸ step_isolated hk hi h⟩

theorem faults_stored {k k' m : KernelState Emu} {w : ℕ → UInt64} {v : UInt64}
    {es : List (Event Activity)} (hk : WellFormed k) (hi : Isolated k w)
    (hn : k.dev.vemuErrorsEnabled.toNat < 2 ^ 32) (hb : k.basePointer = true)
    (hwrite : step (emulator host) k (.sysVarRegWrite setFaults v) = .ok k')
    (hrun : run (step (emulator host)) k' es = .ok m)
    (hes : ∀ e ∈ es, Setting.setFaults.written e = false)
    (hwin : m.window = .running) (hcur : m.current = k.current) :
    m.dev.vemuErrorsEnabled = v.toUInt32.toUInt64 := by
  obtain ⟨hk', hi'⟩ := write_recorded hk hi hb hwrite
  -- The hooks write this register at every switch, so what is kept is not the register but what
  -- the task wrote last.
  have hm := (run_isolated hk' hi' hrun).running hwin
  have hlast : lastWritten host (Function.update w k.current v) k' es k.current = v := by
    have hlt : k.current < k'.nrTasks := by
      rw [write_frame hwrite]
      exact hk.current_lt
    refine (run_journal (C := fun _ e ↦ Setting.setFaults.written e = false)
      (R := fun (w : ℕ → UInt64) m ↦ w k.current = v ∧ k.current < m.nrTasks) ?_ hrun
      (always_of_forall (fun e he _ ↦ hes e he) k') ⟨Function.update_self _ _ _, hlt⟩).1
    intro w m e m' hw he hm
    exact step_last_written hw he hm
  have hnarrow := run_preserves (I := fun k : KernelState Emu ↦
    k.dev.vemuErrorsEnabled.toNat < 2 ^ 32) (fun _ _ _ ↦ step_narrow) hrun (step_narrow hn hwrite)
  rw [hcur, hlast] at hm
  rw [← hm]
  apply UInt64.toNat_inj.mp
  rw [UInt32.toNat_toUInt64, UInt64.toNat_toUInt32, Nat.mod_eq_of_lt hnarrow]

theorem parameter_stored {k m : KernelState Emu} {r : Setting} {u : UInt32}
    {es : List (Event Activity)} (hr : r ≠ .setFaults) (hs : Stored u k.dev r)
    (hrun : run (step (emulator host)) k es = .ok m) (hes : ∀ e ∈ es, r.written e = false) :
    Stored u m.dev r := by
  refine run_invariant (C := fun _ e ↦ r.written e = false) (I := fun k ↦ Stored u k.dev r) ?_
    hrun (always_of_forall (fun e he _ ↦ hes e he) k) hs
  intro k e k' hs he h
  cases r with
  | setFaults => exact absurd rfl hr
  | setFrequency => exact (step_parameter_kept rfl rfl he h).trans hs
  | setVoltage => exact (step_parameter_kept rfl rfl he h).trans hs

theorem step_mapped {k k' : KernelState Emu} {e : Event Activity} (hb : k.basePointer = true)
    (h : step (emulator host) k e = .ok k') : k'.basePointer = true := by
  cases step_outcome h with
  | init _ _ hs =>
    rw [hs]
    rfl
  | quiet _ hs | hardware _ _ hs | latch _ _ hs | write _ _ _ _ _ hs | fork _ hs
  | out _ _ _ _ _ hs | into _ _ _ _ _ hs =>
    rw [hs]
    exact hb

theorem run_stored {k₁ k₂ k₃ : KernelState Emu} {w : ℕ → UInt64} {r : Setting} {v : UInt64}
    {between : List (Event Activity)} (hk : WellFormed k₁) (hi : Isolated k₁ w)
    (hn : k₁.dev.vemuErrorsEnabled.toNat < 2 ^ 32) (hb : k₁.basePointer = true)
    (hwrite : step (emulator host) k₁ (.sysVarRegWrite r.offset v) = .ok k₂)
    (hbetween : run (step (emulator host)) k₂ between = .ok k₃)
    (honly : ∀ e ∈ between, r.written e = false)
    (hwin : k₃.window = .running) (htask : k₃.current = k₁.current) :
    Stored v.toUInt32 k₃.dev r := by
  by_cases hr : r = .setFaults
  · subst hr
    exact faults_stored hk hi hn hb hwrite hbetween honly hwin htask
  · exact parameter_stored hr (write_stored hb hwrite) hbetween honly

theorem toUInt64_eq_iff (v : UInt64) : v.toUInt32.toUInt64 = v ↔ v.toNat < 2 ^ 32 := by
  rw [← UInt64.toNat_inj, UInt32.toNat_toUInt64, UInt64.toNat_toUInt32]
  exact Nat.mod_eq_iff_lt (by decide)

theorem read_sending {k k' : KernelState Emu} {offset : Int32} (hk : WellFormed k)
    (hb : k.basePointer = true) (hhw : offset &&& readHw ≠ 0)
    (h : step (emulator host) k (.sysVarRegRead offset) = .ok k') :
    k.window = .running ∧ Sending k'.tmp k.current k' ∧
      ∀ r : Setting, k'.tmp r.field = reported host k.dev r := by
  obtain ⟨hidle, h⟩ := guard_ok_iff.mp h
  rw [sysVarRegRead, if_pos hhw] at h
  obtain ⟨⟨dev, tmp⟩, hr, h⟩ := bind_ok_iff.mp h
  cases h
  refine ⟨hidle.1, ⟨hb, rfl, hk.current_lt, ?_⟩, ?_⟩
  · intro c hc _
    simp only [KernelState.openCopy, Function.update_self] at hc
    cases hc
    exact holds_nil _ _
  · intro r
    rcases read_state_ok hr with ⟨hb', _⟩ | ⟨_, hd, rfl⟩
    · cases hb.symm.trans hb'
    · rw [emulator_iowrite32, mod_write_read_cmd] at hd
      exact latch_reported hd r

/-- A task that sets a register of the device, and reads the device back with `READ_HW` while
nobody has set that register again, gets its value back if and only if the value fits into the
32 bits that the driver passes on. -/
theorem read_back_iff (host : Host) (pm : Parameters) (time : UInt64) (r : Setting) (v : UInt64)
    (offset : Int32) (before between during : List (Event Activity))
    (k₁ k₂ k₃ k₄ k : KernelState Emu) (c : Copy) (words : List UInt64)
    (hbefore : run (step (emulator host)) (boot (vemuInitCycles pm time)) before = .ok k₁)
    (hmapped : k₁.basePointer = true)
    (hwrite : step (emulator host) k₁ (.sysVarRegWrite r.offset v) = .ok k₂)
    (hbetween : run (step (emulator host)) k₂ between = .ok k₃)
    (honly : ∀ e ∈ between, r.written e = false)
    (htask : k₃.current = k₁.current)
    (hhw : offset &&& readHw ≠ 0)
    (hread : step (emulator host) k₃ (.sysVarRegRead offset) = .ok k₄)
    (hduring : run (step (emulator host)) k₄ during = .ok k)
    (halone : ∀ e ∈ during, readsHw e = false)
    (hback : k.current = k₁.current)
    (hcopy : k.copy k.current = some c) (hsource : c.source = .tmp)
    (hwords : delivered k = some words) :
    words[r.field.val]? = some v ↔ v.toNat < 2 ^ 32 := by
  have hwf : ∀ k e k', WellFormed k → step (emulator host) k e = .ok k' → WellFormed k' :=
    step_wellFormed
  have hk₁ : WellFormed k₁ := run_preserves hwf hbefore (boot_wellFormed _)
  have hk₃ : WellFormed k₃ := run_preserves hwf hbetween (hwf k₁ _ k₂ hk₁ hwrite)
  have hn₁ : k₁.dev.vemuErrorsEnabled.toNat < 2 ^ 32 :=
    run_preserves (I := fun k ↦ k.dev.vemuErrorsEnabled.toNat < 2 ^ 32)
      (fun _ _ _ ↦ step_narrow) hbefore (Nat.two_pow_pos 32)
  have hb₃ : k₃.basePointer = true :=
    run_preserves (I := fun k ↦ k.basePointer = true) (fun _ _ _ ↦ step_mapped) hbetween
      (step_mapped hmapped hwrite)
  obtain ⟨hwin, hsending, hfield⟩ := read_sending hk₃ hb₃ hhw hread
  have hstored := run_stored hk₁ (run_isolated (boot_wellFormed _) (boot_isolated pm time) hbefore)
    hn₁ hmapped hwrite hbetween honly hwin htask
  have hdone : Sending k₄.tmp k₃.current k :=
    run_invariant (C := fun _ e ↦ readsHw e = false) (fun _ _ _ hi he h ↦ step_sending hi he h)
      hduring (always_of_forall (fun e he _ ↦ halone e he) k₄) hsending
  rw [htask, ← hback] at hdone
  rw [hdone.delivered hcopy hsource hwords, List.getElem?_ofFn, dif_pos r.field.isLt,
    Option.some_inj, ← toUInt64_eq_iff, ← hstored.reported host, ← hfield r]

def opening : List (Event Activity) := [.variabilityInit, .dupTaskStruct]

def interlude : List (Event Activity) :=
  [.hardware ldr, .prepareTaskSwitch 1, .hardware ldr, .finishTaskSwitch,
    .sysVarRegWrite Setting.setVoltage.offset 900, .prepareTaskSwitch 0, .finishTaskSwitch]

def copying : List (Event Activity) := List.replicate 19 .copyWord

/-- A task sets the frequency and reads it back, after another task has run. -/
def frequencyRun (v : UInt64) : List (Event Activity) :=
  opening ++ .sysVarRegWrite Setting.setFrequency.offset v ::
    (interlude ++ .sysVarRegRead readHw :: copying)

theorem half_gigahertz_read_back :
    ∃ k words, run (step (emulator linearHost)) (boot (vemuInitCycles gigahertz 0))
        (frequencyRun 500000000) = .ok k ∧ delivered k = some words ∧
      words[Setting.setFrequency.field.val]? = some 500000000 := by
  have hok : Ends (fun k₁ ↦ k₁.basePointer = true ∧ Ends (fun k₂ ↦ Ends (fun k₃ ↦
      k₃.current = k₁.current ∧ Ends (fun k₄ ↦ Ends (fun k ↦ k.current = k₁.current ∧
        (∃ c ∈ k.copy k.current, c.source = .tmp) ∧ (delivered k).isSome)
      (run (step (emulator linearHost)) k₄ copying))
      (step (emulator linearHost) k₃ (.sysVarRegRead readHw)))
      (run (step (emulator linearHost)) k₂ interlude))
      (step (emulator linearHost) k₁
        (.sysVarRegWrite Setting.setFrequency.offset 500000000)))
      (run (step (emulator linearHost)) (boot (vemuInitCycles gigahertz 0)) opening) := by
    decide +kernel
  obtain ⟨k₁, hbefore, hmapped, hok⟩ := hok.exists
  obtain ⟨k₂, hwrite, hok⟩ := hok.exists
  obtain ⟨k₃, hbetween, htask, hok⟩ := hok.exists
  obtain ⟨k₄, hread, hok⟩ := hok.exists
  obtain ⟨k, hduring, hback, ⟨c, hc, hsource⟩, hw⟩ := hok.exists
  obtain ⟨words, hw⟩ := Option.isSome_iff_exists.mp hw
  refine ⟨k, words, ?_, hw, ?_⟩
  · exact run_append_eq_ok.mpr ⟨k₁, hbefore, run_cons_eq_ok.mpr ⟨k₂, hwrite,
      run_append_eq_ok.mpr ⟨k₃, hbetween, run_cons_eq_ok.mpr ⟨k₄, hread, hduring⟩⟩⟩⟩
  · exact (read_back_iff linearHost gigahertz 0 .setFrequency 500000000 readHw opening interlude
      copying k₁ k₂ k₃ k₄ k c words hbefore hmapped hwrite hbetween (by decide) htask (by decide)
      hread hduring (by decide) hback hc hsource hw).mpr (by decide)

theorem high_half_lost :
    ∃ k words, run (step (emulator linearHost)) (boot (vemuInitCycles gigahertz 0))
        (frequencyRun (2 ^ 32 + 500000000)) = .ok k ∧ delivered k = some words ∧
      words[Setting.setFrequency.field.val]? = some 500000000 ∧
      words[Setting.setFrequency.field.val]? ≠ some (2 ^ 32 + 500000000) := by
  have hok : Ends (fun k ↦ ∃ words ∈ delivered k,
        words[Setting.setFrequency.field.val]? = some 500000000 ∧
        words[Setting.setFrequency.field.val]? ≠ some (2 ^ 32 + 500000000))
      (run (step (emulator linearHost)) (boot (vemuInitCycles gigahertz 0))
        (frequencyRun (2 ^ 32 + 500000000))) := by
    decide +kernel
  obtain ⟨k, hk, words, hw, h⟩ := hok.exists
  exact ⟨k, words, hk, hw, h⟩

end VarEmu.Kernel.ReadBack
