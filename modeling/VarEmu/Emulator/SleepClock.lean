import VarEmu.Emulator.Machine

namespace VarEmu.Emulator.SleepClock

open State Cycles Energy Device Monitor Machine Library.Execution

variable {host : Host}

structure SameTimes (s s' : Emu) : Prop where
  totalSleepTime_eq : s'.totalSleepTime = s.totalSleepTime
  lastActiveTimeVm_eq : s'.lastActiveTimeVm = s.lastActiveTimeVm
  lastActiveTimeCycles_eq : s'.lastActiveTimeCycles = s.lastActiveTimeCycles
  lastSleepTime_eq : s'.lastSleepTime = s.lastSleepTime
  enteredSleepMode_eq : s'.enteredSleepMode = s.enteredSleepMode

inductive ClockStep (s s' : Emu) : Event → Prop
  | quiet {e : Event} (hkeep : SameTimes s s') (hvm : s'.vmClock = s.vmClock)
      (htime : s'.activeTime = s.activeTime) (hcount : s'.cycleCount = s.cycleCount) :
      ClockStep s s' e
  | retire (tb : VemuTbInfo) (hkeep : SameTimes s s') (hvm : s'.vmClock = s.vmClock)
      (htime : ∀ c, s.activeTime c ≤ s'.activeTime c)
      (hcount : ∀ c, s.cycleCount c ≤ s'.cycleCount c) : ClockStep s s' (.act (.retire tb))
  | tick (now : UInt64) (h : s' = { s with vmClock := now }) : ClockStep s s' (.act (.clock now))
  | sleep (act : UInt64) (hact : vemuGetActTimeAllClasses s = .ok act)
      (h : s' = { s with
        lastSleepTime := s.lastActiveTimeVm + (act - s.lastActiveTimeCycles)
        enteredSleepMode := true }) : ClockStep s s' (.act .sleepStart)
  | wake (act : UInt64) (hsleep : s.enteredSleepMode = true)
      (hact : vemuGetActTimeAllClasses s = .ok act)
      (h : s' = { s with
        totalSleepTime := s.totalSleepTime + (s.vmClock - s.lastSleepTime).toInt64
        lastActiveTimeVm := s.vmClock
        lastActiveTimeCycles := act
        enteredSleepMode := false }) : ClockStep s s' (.act .activeStart)

theorem books_same_times {s s' : Emu} (h : Books s s') : SameTimes s s' := by
  rw [h]
  exact ⟨rfl, rfl, rfl, rfl, rfl⟩

theorem step_clock {s s' : Emu} {e : Event} (h : step host s e = .ok s') : ClockStep s s' e := by
  cases step_outcome h with
  | retire _ hs =>
    refine .retire _ ?_ ?_ (increment_active_time_le h) (increment_cycle_count_le h)
    · rw [hs]
      exact ⟨rfl, rfl, rfl, rfl, rfl⟩
    · rw [hs]
  | tick hs => exact .tick _ hs
  | sleep hact hs => exact .sleep _ hact hs
  | wake hsleep hact hs => exact .wake _ hsleep hact hs
  | books _ hs =>
    exact .quiet (books_same_times hs) (by rw [hs]) hs.activeTime_eq hs.cycleCount_eq
  | change _ _ ht hs | latch ht hs =>
    rw [hs, ht]
    exact .quiet ⟨rfl, rfl, rfl, rfl, rfl⟩ rfl rfl rfl
  | faults hs =>
    subst hs
    exact .quiet ⟨rfl, rfl, rfl, rfl, rfl⟩ rfl rfl rfl

/-- An instruction retires only while the processor is awake. -/
def RetiresAwake (s : Emu) (e : Event) : Prop :=
  e.retires = true → s.enteredSleepMode = false

instance (s : Emu) (e : Event) : Decidable (RetiresAwake s e) :=
  inferInstanceAs (Decidable (_ → _))

/-- The clock since `t0` is split between sleep and active time as of the last wake-up, and a
sleep in progress was entered when the active time since that wake-up had been spent. -/
structure Conserved (t0 : UInt64) (s : Emu) : Prop where
  balance : s.totalSleepTime.toUInt64 + s.lastActiveTimeCycles = s.lastActiveTimeVm - t0
  entry : s.enteredSleepMode = true → ∃ act, vemuGetActTimeAllClasses s = .ok act ∧
    s.lastSleepTime = s.lastActiveTimeVm + (act - s.lastActiveTimeCycles)

theorem init_conserved (pm : Parameters) (t0 : UInt64) : Conserved t0 (vemuInitCycles pm t0) where
  balance := by
    simp only [vemuInitCycles, sub_self, add_zero]
    rfl
  entry h := by simp [vemuInitCycles] at h

theorem Conserved.asleep {t0 : UInt64} {s : Emu} (h : Conserved t0 s)
    (hsleep : s.enteredSleepMode = true) :
    ∃ act, vemuGetActTimeAllClasses s = .ok act ∧
      s.totalSleepTime.toUInt64 + (s.vmClock - s.lastSleepTime) + act = s.vmClock - t0 := by
  obtain ⟨act, hact, hentry⟩ := h.entry hsleep
  refine ⟨act, hact, ?_⟩
  calc s.totalSleepTime.toUInt64 + (s.vmClock - s.lastSleepTime) + act
      = (s.totalSleepTime.toUInt64 + s.lastActiveTimeCycles) - s.lastActiveTimeVm + s.vmClock := by
        rw [hentry]
        abel
    _ = s.vmClock - t0 := by
        rw [h.balance]
        abel

theorem step_conserved {t0 : UInt64} (s : Emu) (e : Event) (s' : Emu) (hs : Conserved t0 s)
    (hretire : RetiresAwake s e) (h : step host s e = .ok s') : Conserved t0 s' := by
  cases step_clock h with
  | quiet hkeep _ htime =>
    constructor
    · rw [hkeep.totalSleepTime_eq, hkeep.lastActiveTimeCycles_eq, hkeep.lastActiveTimeVm_eq]
      exact hs.balance
    · rw [hkeep.enteredSleepMode_eq, hkeep.lastSleepTime_eq, hkeep.lastActiveTimeCycles_eq,
        hkeep.lastActiveTimeVm_eq, act_time_all_congr htime]
      exact hs.entry
  | retire tb hkeep =>
    constructor
    · rw [hkeep.totalSleepTime_eq, hkeep.lastActiveTimeCycles_eq, hkeep.lastActiveTimeVm_eq]
      exact hs.balance
    · intro hsleep
      rw [hkeep.enteredSleepMode_eq, hretire rfl] at hsleep
      exact absurd hsleep Bool.false_ne_true
  | tick now hs' =>
    subst hs'
    exact ⟨hs.balance, hs.entry⟩
  | sleep act hact hs' =>
    subst hs'
    exact ⟨hs.balance, fun _ ↦ ⟨act, hact, rfl⟩⟩
  | wake act hsleep hact hs' =>
    subst hs'
    refine ⟨?_, fun hawake ↦ absurd hawake Bool.false_ne_true⟩
    obtain ⟨act', hact', hsum⟩ := hs.asleep hsleep
    obtain rfl : act' = act := Except.ok.inj (hact'.symm.trans hact)
    simpa only [Int64.toUInt64_add, UInt64.toUInt64_toInt64] using hsum

theorem Conserved.wakes {t0 : UInt64} {s : Emu} (h : Conserved t0 s)
    (hsleep : s.enteredSleepMode = true) :
    ∃ s' act, step host s (.act .activeStart) = .ok s' ∧ s'.enteredSleepMode = false ∧
      vemuGetActTimeAllClasses s' = .ok act ∧
      s'.totalSleepTime.toUInt64 + act = s'.vmClock - t0 := by
  obtain ⟨act, hact, hsum⟩ := h.asleep hsleep
  have hok : ∃ s', step host s (.act .activeStart) = .ok s' := by
    rw [step, perform, vemuActiveStart, if_pos hsleep]
    exact ⟨_, bind_ok_iff.mpr ⟨act, hact, rfl⟩⟩
  obtain ⟨s', hs'⟩ := hok
  rcases active_start_ok hs' with ⟨hawake, _⟩ | ⟨_, act', hact', rfl⟩
  · exact absurd (hsleep.symm.trans hawake) (by decide)
  · obtain rfl : act' = act := Except.ok.inj (hact'.symm.trans hact)
    refine ⟨_, act', hs', rfl, hact, ?_⟩
    simpa only [Int64.toUInt64_add, UInt64.toUInt64_toInt64] using hsum

/-- Time is conserved in every state of a run in which no instruction retires during a sleep. -/
theorem time_conserved (host : Host) (pm : Parameters) (t0 : UInt64) (es : List Event) (s : Emu)
    (hrun : run (step host) (vemuInitCycles pm t0) es = .ok s)
    (hretire : Always (step host) RetiresAwake (vemuInitCycles pm t0) es) :
    (s.enteredSleepMode = false →
      s.totalSleepTime.toUInt64 + s.lastActiveTimeCycles = s.lastActiveTimeVm - t0) ∧
    (s.enteredSleepMode = true →
      (∃ act, vemuGetActTimeAllClasses s = .ok act ∧
        s.totalSleepTime.toUInt64 + (s.vmClock - s.lastSleepTime) + act = s.vmClock - t0) ∧
      ∃ s' act, step host s (.act .activeStart) = .ok s' ∧ s'.enteredSleepMode = false ∧
        vemuGetActTimeAllClasses s' = .ok act ∧
        s'.totalSleepTime.toUInt64 + act = s'.vmClock - t0) := by
  have hs : Conserved t0 s := run_invariant step_conserved hrun hretire (init_conserved pm t0)
  exact ⟨fun _ ↦ hs.balance, fun hsleep ↦ ⟨hs.asleep hsleep, hs.wakes hsleep⟩⟩

def earlyWake : List Event :=
  [load, .act .sleepStart, .act .sleepStart, .act (.clock 7), .act .activeStart,
    .act .activeStart, load, .act (.clock 100), .act .sleepStart, .act (.clock 150)]

theorem early_wake_conserved :
    ∃ s, run (step linearHost) (vemuInitCycles gigahertz 5) earlyWake = .ok s ∧
      s.enteredSleepMode = true ∧ ∃ act, vemuGetActTimeAllClasses s = .ok act ∧
        s.totalSleepTime.toUInt64 + (s.vmClock - s.lastSleepTime) + act = s.vmClock - 5 := by
  have hok : Ends (fun s ↦ s.enteredSleepMode = true)
      (run (step linearHost) (vemuInitCycles gigahertz 5) earlyWake) := by
    decide +kernel
  have hretire : Always (step linearHost) RetiresAwake (vemuInitCycles gigahertz 5)
      earlyWake := by
    decide +kernel
  obtain ⟨s, hs, hsleep⟩ := hok.exists
  exact ⟨s, hs, hsleep,
    ((time_conserved linearHost gigahertz 5 earlyWake s hs hretire).2 hsleep).1⟩

end VarEmu.Emulator.SleepClock
