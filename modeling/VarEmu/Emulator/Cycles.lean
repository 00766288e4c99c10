import VarEmu.Library.Execution
import VarEmu.Emulator.State

namespace VarEmu.Emulator.Cycles

open State Library.Execution Library.Truncation
open scoped BigOperators

def periodNs (hz : UInt64) : ℚ≥0 := 10 ^ 9 / hz.toNat

def vemuGetCycles (s : Emu) (c : InstrClass) : Except Fault UInt64 := toUInt64 (s.cycleCount c)

/-- The running sum is a word, so every addition goes through the conversion. -/
def vemuGetCyclesAllClasses (s : Emu) : Except Fault UInt64 :=
  (List.finRange maxInstrClasses).foldlM
    (fun sum c ↦ toUInt64 ((sum.toNat : ℚ) + s.cycleCount c)) 0

def vemuGetActTime (s : Emu) (c : InstrClass) : Except Fault UInt64 := toUInt64 (s.activeTime c)

def vemuGetActTimeAllClasses (s : Emu) : Except Fault UInt64 :=
  toUInt64 ((∑ c, s.activeTime c : ℚ≥0) : ℚ)

def vemuGetSlpTime (s : Emu) : UInt64 :=
  let retval : Int64 :=
    if s.enteredSleepMode then
      let interval := (s.vmClock - s.lastSleepTime).toInt64
      s.totalSleepTime + interval
    else s.totalSleepTime
  if retval < 0 then 0 else retval.toUInt64

def divisor (s : Emu) : Except Fault UInt64 := (s.pmArray 0).toUInt64

def vemuIncrementCycles (s : Emu) (tb : VemuTbInfo) : Except Fault Emu :=
  if h : tb.instrInfo.instrClass.toNat < maxInstrClasses then do
    let hz ← divisor s
    -- A zero makes the period infinite, which no number in the accumulators can represent.
    if hz = 0 then .error .divisionByZero
    else
      let c : InstrClass := ⟨tb.instrInfo.instrClass.toNat, h⟩
      let cycles := tb.instrInfo.cycles
      .ok { s with
        cycleCount := Function.update s.cycleCount c (s.cycleCount c + cycles)
        activeTime := Function.update s.activeTime c (s.activeTime c + cycles * periodNs hz) }
  else .error .assertion

def vemuActiveStart (s : Emu) : Except Fault Emu :=
  if s.enteredSleepMode then do
    let time := s.vmClock
    let interval := (time - s.lastSleepTime).toInt64
    let cycles ← vemuGetActTimeAllClasses s
    .ok { s with
      totalSleepTime := s.totalSleepTime + interval
      lastActiveTimeVm := time
      lastActiveTimeCycles := cycles
      enteredSleepMode := false }
  else .ok s

def vemuSleepStart (s : Emu) : Except Fault Emu := do
  let time := s.vmClock
  let interval := time - s.lastActiveTimeVm
  let act ← vemuGetActTimeAllClasses s
  let actPeriod := act - s.lastActiveTimeCycles
  let delta := (actPeriod - interval).toInt64
  .ok { s with
    lastSleepTime := time + delta.toUInt64
    enteredSleepMode := true }

/-- The state when the configuration has been read: the statically zeroed variables, and the
ones `vemu_init_cycles` sets from the clock. -/
def vemuInitCycles (pm : Parameters) (time : UInt64) : Emu where
  vmClock := time
  cycleCount := fun _ ↦ 0
  activeTime := fun _ ↦ 0
  totalSleepTime := 0
  lastActiveTimeVm := time
  lastActiveTimeCycles := 0
  lastSleepTime := time
  enteredSleepMode := false
  actTimeCkpt := fun _ ↦ 0
  slpTimeCkpt := 0
  actEnergy := fun _ ↦ 0
  slpEnergy := 0
  pmArray := pm
  vemuErrorsEnabled := 0
  lastState := fun _ ↦ 0

def intActTime (s : Emu) (c : InstrClass) : ℕ := ⌊s.activeTime c⌋₊

theorem act_time_eq_ok {s : Emu} {c : InstrClass} {u : UInt64} :
    vemuGetActTime s c = .ok u ↔ u.toNat = intActTime s c := by
  rw [vemuGetActTime, toUInt64_eq_ok, truncate_eq_some, intActTime]

theorem act_time_all_eq_ok {s : Emu} {u : UInt64} :
    vemuGetActTimeAllClasses s = .ok u ↔ u.toNat = ⌊∑ c, s.activeTime c⌋₊ := by
  rw [vemuGetActTimeAllClasses, toUInt64_eq_ok, truncate_eq_some]

theorem act_time_all_congr {s t : Emu} (h : s.activeTime = t.activeTime) :
    vemuGetActTimeAllClasses s = vemuGetActTimeAllClasses t := by
  simp only [vemuGetActTimeAllClasses, h]

theorem cycles_all_congr {s t : Emu} (h : s.cycleCount = t.cycleCount) :
    vemuGetCyclesAllClasses s = vemuGetCyclesAllClasses t := by
  simp only [vemuGetCyclesAllClasses, h]

theorem cycles_eq_ok {s : Emu} {c : InstrClass} {u : UInt64} :
    vemuGetCycles s c = .ok u ↔ u.toNat = ⌊s.cycleCount c⌋₊ := by
  rw [vemuGetCycles, toUInt64_eq_ok, truncate_eq_some]

/-- The running sum is an integer, so each conversion drops the fraction of one count only. -/
theorem cycles_all_fold {cs : List InstrClass} {s : Emu} {sum u : UInt64}
    (h : cs.foldlM (fun sum c ↦ toUInt64 ((sum.toNat : ℚ) + s.cycleCount c)) sum = .ok u) :
    u.toNat = sum.toNat + (cs.map fun c ↦ ⌊s.cycleCount c⌋₊).sum := by
  induction cs generalizing sum with
  | nil =>
    cases h
    rfl
  | cons c cs ih =>
    obtain ⟨next, hnext, h⟩ := bind_ok_iff.mp h
    have hcast : (sum.toNat : ℚ) + s.cycleCount c = ((sum.toNat + s.cycleCount c : ℚ≥0) : ℚ) := by
      push_cast
      rfl
    beta_reduce at hnext
    rw [hcast, toUInt64_eq_ok, truncate_eq_some, add_comm, Nat.floor_add_natCast zero_le] at hnext
    rw [ih h, hnext, List.map_cons, List.sum_cons]
    omega

theorem cycles_all_eq {s : Emu} {u : UInt64} (h : vemuGetCyclesAllClasses s = .ok u) :
    u.toNat = ∑ c, ⌊s.cycleCount c⌋₊ := by
  rw [cycles_all_fold h, Fin.sum_univ_def]
  exact Nat.zero_add _

theorem increment_cycles_ok {s s' : Emu} {tb : VemuTbInfo} (h : vemuIncrementCycles s tb = .ok s') :
    ∃ (c : InstrClass) (hz : UInt64), c.val = tb.instrInfo.instrClass.toNat ∧
      divisor s = .ok hz ∧ hz ≠ 0 ∧
      s' = { s with
        cycleCount := Function.update s.cycleCount c (s.cycleCount c + tb.instrInfo.cycles)
        activeTime := Function.update s.activeTime c
          (s.activeTime c + tb.instrInfo.cycles * periodNs hz) } := by
  unfold vemuIncrementCycles at h
  split_ifs at h with hc
  obtain ⟨hz, hd, h⟩ := bind_ok_iff.mp h
  split_ifs at h with h0
  cases h
  exact ⟨⟨_, hc⟩, hz, rfl, hd, h0, rfl⟩

theorem increment_cycles_congr {s s' u : Emu} {tb : VemuTbInfo}
    (h : vemuIncrementCycles s tb = .ok s') (hpm : u.pmArray = s.pmArray)
    (htime : u.activeTime = s.activeTime) (hcount : u.cycleCount = s.cycleCount) :
    ∃ u', vemuIncrementCycles u tb = .ok u' ∧ u'.activeTime = s'.activeTime ∧
      u'.cycleCount = s'.cycleCount ∧ u'.pmArray = s'.pmArray := by
  obtain ⟨c, hz, hc, hd, hz0, rfl⟩ := increment_cycles_ok h
  have hlt : tb.instrInfo.instrClass.toNat < maxInstrClasses := hc ▸ c.isLt
  obtain rfl : c = ⟨_, hlt⟩ := Fin.ext hc
  have hdu : divisor u = .ok hz := by
    rw [divisor, hpm]
    exact hd
  unfold vemuIncrementCycles
  rw [dif_pos hlt, hdu]
  exact ⟨_, if_neg hz0, by simp only [htime], by simp only [hcount], hpm⟩

theorem le_update_add (f : InstrClass → ℚ≥0) (d c : InstrClass) (q : ℚ≥0) :
    f c ≤ Function.update f d (f d + q) c := by
  by_cases hc : c = d
  · subst hc
    simp
  · rw [Function.update_of_ne hc]

theorem increment_active_time_le {s s' : Emu} {tb : VemuTbInfo}
    (h : vemuIncrementCycles s tb = .ok s') (c : InstrClass) :
    s.activeTime c ≤ s'.activeTime c := by
  obtain ⟨d, hz, _, _, _, rfl⟩ := increment_cycles_ok h
  exact le_update_add s.activeTime d c _

theorem increment_cycle_count_le {s s' : Emu} {tb : VemuTbInfo}
    (h : vemuIncrementCycles s tb = .ok s') (c : InstrClass) :
    s.cycleCount c ≤ s'.cycleCount c := by
  obtain ⟨d, hz, _, _, _, rfl⟩ := increment_cycles_ok h
  exact le_update_add s.cycleCount d c _

theorem active_start_ok {s s' : Emu} (h : vemuActiveStart s = .ok s') :
    (s.enteredSleepMode = false ∧ s' = s) ∨
    (s.enteredSleepMode = true ∧ ∃ act, vemuGetActTimeAllClasses s = .ok act ∧
      s' = { s with
        totalSleepTime := s.totalSleepTime + (s.vmClock - s.lastSleepTime).toInt64
        lastActiveTimeVm := s.vmClock
        lastActiveTimeCycles := act
        enteredSleepMode := false }) := by
  unfold vemuActiveStart at h
  split_ifs at h with hs
  · obtain ⟨act, ha, h⟩ := bind_ok_iff.mp h
    cases h
    exact .inr ⟨hs, act, ha, rfl⟩
  · cases h
    exact .inl ⟨by simpa using hs, rfl⟩

/-- The corrected entry time does not depend on when the sleep is noticed: it is the last
wake-up plus the active time since. -/
theorem sleep_start_ok {s s' : Emu} (h : vemuSleepStart s = .ok s') :
    ∃ act, vemuGetActTimeAllClasses s = .ok act ∧
      s' = { s with
        lastSleepTime := s.lastActiveTimeVm + (act - s.lastActiveTimeCycles)
        enteredSleepMode := true } := by
  obtain ⟨act, ha, h⟩ := bind_ok_iff.mp h
  cases h
  refine ⟨act, ha, ?_⟩
  have ht : s.vmClock + (act - s.lastActiveTimeCycles - (s.vmClock - s.lastActiveTimeVm)) =
      s.lastActiveTimeVm + (act - s.lastActiveTimeCycles) := by abel
  simp only [UInt64.toUInt64_toInt64, ht]

end VarEmu.Emulator.Cycles
