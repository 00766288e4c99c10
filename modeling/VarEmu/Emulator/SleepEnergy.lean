import VarEmu.Library.HighWater
import VarEmu.Emulator.Snapshots

namespace VarEmu.Emulator.SleepEnergy

open State Cycles Energy Device Monitor Machine ActiveEnergy SleepClock Snapshots
open Library.Execution Library.Truncation Library.Metering Library.HighWater

def evaluates : Event → Bool
  | .act .doInfoEnergy | .act .doInfoAll => true
  | .act (.energyChangeParameter ..) | .act (.doChangeModelParam ..) => true
  | .modWrite offset _ => offset == readCmd
  | .act (.retire _) | .act (.clock _) | .act .sleepStart | .act .activeStart
  | .act (.getActEnergy _) | .act .getActEnergyAllClasses | .act .doInfoTime => false

variable (host : Host)

/-- The sleep time that an evaluation sees, and the power it charges. -/
def reading (s : Emu) : ℚ × ℚ := ((vemuGetSlpTime s).toNat, host.slpPower s.pmArray)

def readings : List (ℚ × ℚ) → Emu → List Event → List (ℚ × ℚ) :=
  journal (step host) fun s e _ rs ↦ if evaluates e then rs ++ [reading host s] else rs

def sleepMeter (s : Emu) : Meter ℚ := ⟨s.slpTimeCkpt.toNat, s.slpEnergy⟩

def evaluated (s : Emu) : Meter ℚ := raise (sleepMeter s) (reading host s).1 (reading host s).2

variable {host}

theorem slp_time_lt (s : Emu) : (vemuGetSlpTime s).toNat < 2 ^ 63 := by
  have h := slp_time_toNat s
  have hlt := Int64.toInt_lt (rawSlpTime s)
  omega

theorem toInt64_sub {a b : UInt64} (ha : a.toNat < 2 ^ 63) (hb : b.toNat < 2 ^ 63) :
    (a - b).toInt64.toInt = (a.toNat : ℤ) - b.toNat := by
  have hint : (a - b).toInt64.toInt = ((a - b).toNat : ℤ).bmod (2 ^ 64) :=
    BitVec.toInt_eq_toNat_bmod _
  rw [hint, UInt64.toNat_sub, Int.bmod_def]
  omega

variable (host) in
theorem get_slp_energy_meter {s : Emu} (hs : s.slpTimeCkpt.toNat < 2 ^ 63) :
    sleepMeter (vemuGetSlpEnergy host s).1 = evaluated host s ∧
      (vemuGetSlpEnergy host s).2 = host.word (.rat (evaluated host s).acc) := by
  have hsub := toInt64_sub (slp_time_lt s) hs
  simp only [vemuGetSlpEnergy, Int64.lt_iff_toInt_lt, hsub, vemuPmSlpPower, evaluated,
    raise, reading, sleepMeter, Meter.flush, Meter.due]
  split_ifs with hneg
  · have hlt : ((vemuGetSlpTime s).toNat : ℚ) ≤ s.slpTimeCkpt.toNat := by
      have h : ((vemuGetSlpTime s).toNat : ℤ) - s.slpTimeCkpt.toNat < 0 := hneg
      exact_mod_cast (sub_neg.mp h).le
    simp [max_eq_left hlt]
  · have hle : (s.slpTimeCkpt.toNat : ℚ) ≤ (vemuGetSlpTime s).toNat := by
      have h : ¬((vemuGetSlpTime s).toNat : ℤ) - s.slpTimeCkpt.toNat < 0 := hneg
      exact_mod_cast sub_nonneg.mp (not_lt.mp h)
    simp [max_eq_right hle]

theorem slp_energy_of_frame {s t : Emu} (hs : s.slpTimeCkpt.toNat < 2 ^ 63)
    (h : t = { s with actTimeCkpt := t.actTimeCkpt, actEnergy := t.actEnergy }) :
    sleepMeter (vemuGetSlpEnergy host t).1 = evaluated host s := by
  have ht : t.slpTimeCkpt.toNat < 2 ^ 63 := by
    rw [h]
    exact hs
  rw [(get_slp_energy_meter host ht).1, h]
  rfl

theorem change_sleep_meter {s s' : Emu} {cc pp : UInt8} {v : Double} (hm : Metered s)
    (hs : s.slpTimeCkpt.toNat < 2 ^ 63)
    (h : vemuEnergyChangeParameter host s cc pp v = .ok s') :
    sleepMeter s' = evaluated host s := by
  obtain ⟨t, u, x, p, ht, hu, _, hs'⟩ := energy_change_parameter_ok h
  rw [hs', ← slp_energy_of_frame hs (get_act_energy_all_ok hm ht).1.frame, ← hu]
  rfl

theorem mod_write_sleep_meter {s s' : Emu} {offset val : UInt64} (hm : Metered s)
    (hs : s.slpTimeCkpt.toNat < 2 ^ 63) (h : vemuModWrite host s offset val = .ok s') :
    sleepMeter s' = if offset == readCmd then evaluated host s else sleepMeter s := by
  by_cases hcmd : offset = readCmd
  · subst hcmd
    rw [mod_write_read_cmd] at h
    obtain ⟨t, u, r, hr, _, hu, hs', _⟩ := latch_ok hm h
    rw [if_pos (beq_self_eq_true readCmd), hs', ← slp_energy_of_frame hs hr.frame, hu]
    rfl
  · have hne : (offset == readCmd) = false := by simpa using hcmd
    rw [hne]
    unfold vemuModWrite at h
    split_ifs at h
    · cases h
      rfl
    · obtain ⟨p, _, rfl⟩ := pm_change_parameter_ok h
      rfl
    · obtain ⟨p, _, rfl⟩ := pm_change_parameter_ok h
      rfl
    · cases h
      rfl

/-- What an event does to the sleep energy: the callers of `vemu_get_slp_energy` evaluate it
once, in the state they find, and nothing else touches it. -/
theorem step_sleep_meter {s s' : Emu} {e : Event} (hm : Metered s)
    (hs : s.slpTimeCkpt.toNat < 2 ^ 63) (h : step host s e = .ok s') :
    sleepMeter s' = if evaluates e then evaluated host s else sleepMeter s := by
  cases e with
  | modWrite offset val => exact mod_write_sleep_meter hm hs h
  | act a =>
    cases a with
    | retire tb =>
      obtain ⟨c, hz, _, _, _, rfl⟩ := increment_cycles_ok h
      rfl
    | clock now =>
      cases h
      rfl
    | sleepStart =>
      obtain ⟨act, _, rfl⟩ := sleep_start_ok h
      rfl
    | activeStart =>
      rcases active_start_ok h with ⟨_, rfl⟩ | ⟨_, act, _, rfl⟩
      · rfl
      · rfl
    | getActEnergy c =>
      obtain ⟨⟨t, x⟩, ht, rfl⟩ := map_eq_ok.mp h
      have hr := (get_act_energy_ok hm ht).1
      change sleepMeter t = sleepMeter s
      rw [hr.frame]
      rfl
    | getActEnergyAllClasses =>
      obtain ⟨⟨t, x⟩, ht, rfl⟩ := map_eq_ok.mp h
      have hr := (get_act_energy_all_ok hm ht).1
      change sleepMeter t = sleepMeter s
      rw [hr.frame]
      rfl
    | doInfoTime =>
      obtain ⟨_, _, rfl⟩ := map_eq_ok.mp h
      rfl
    | doInfoEnergy =>
      obtain ⟨r, hr, rfl⟩ := map_eq_ok.mp h
      obtain ⟨t, x, ht, hr⟩ := do_info_energy_ok hr
      rw [hr]
      exact slp_energy_of_frame hs (get_act_energy_all_ok hm ht).1.frame
    | doInfoAll =>
      obtain ⟨r, hr, rfl⟩ := map_eq_ok.mp h
      obtain ⟨q, hq, hr⟩ := do_info_all_ok hr
      obtain ⟨t, x, ht, hq⟩ := do_info_energy_ok hq
      rw [hr, hq]
      exact slp_energy_of_frame hs (get_act_energy_all_ok hm ht).1.frame
    | energyChangeParameter cc pp v =>
      exact change_sleep_meter hm hs h
    | doChangeModelParam c p v =>
      obtain ⟨cc, pp, vv, _, _, _, h⟩ := do_change_model_param_ok h
      exact change_sleep_meter hm hs h

/-- The sleep meter stands where the readings of the past evaluations have raised it. -/
structure Charged (rs : List (ℚ × ℚ)) (s : Emu) : Prop where
  metered : Metered s
  ckpt_lt : s.slpTimeCkpt.toNat < 2 ^ 63
  meter_eq : sleepMeter s = raiseAll ⟨0, 0⟩ rs

theorem init_charged (pm : Parameters) (t0 : UInt64) : Charged [] (vemuInitCycles pm t0) where
  metered := init_metered pm t0
  ckpt_lt := Nat.two_pow_pos 63
  meter_eq := by
    simp [sleepMeter, vemuInitCycles, raiseAll]

theorem step_charged {rs : List (ℚ × ℚ)} {s s' : Emu} {e : Event} (hs : Charged rs s)
    (h : step host s e = .ok s') :
    Charged (if evaluates e then rs ++ [reading host s] else rs) s' := by
  have hm := step_sleep_meter hs.metered hs.ckpt_lt h
  have hold : (s.slpTimeCkpt.toNat : ℚ) < 2 ^ 63 := by exact_mod_cast hs.ckpt_lt
  have hnew : ((vemuGetSlpTime s).toNat : ℚ) < 2 ^ 63 := by exact_mod_cast slp_time_lt s
  refine ⟨step_metered s e s' hs.metered h, ?_, ?_⟩
  · have hlt : (sleepMeter s').ckpt < 2 ^ 63 := by
      rw [hm]
      split_ifs
      · exact max_lt hold hnew
      · exact hold
    have hcast : (s'.slpTimeCkpt.toNat : ℚ) < 2 ^ 63 := hlt
    exact_mod_cast hcast
  · rw [hm]
    split_ifs
    · rw [raiseAll_snoc, ← hs.meter_eq]
      rfl
    · exact hs.meter_eq

theorem run_charged {rs : List (ℚ × ℚ)} {s t : Emu} {es : List Event} (hs : Charged rs s)
    (h : run (step host) s es = .ok t) : Charged (readings host rs s es) t := by
  refine run_journal (C := fun _ _ ↦ True) (R := Charged) ?_ h
    (always_of_forall (fun _ _ _ ↦ trivial) s) hs
  intro rs s e s' hs _ h
  exact step_charged hs h

theorem step_energy_le (hpower : ∀ pm, 0 ≤ host.slpPower pm) {rs : List (ℚ × ℚ)} {s s' : Emu}
    {e : Event} (hs : Charged rs s) (h : step host s e = .ok s') : s.slpEnergy ≤ s'.slpEnergy := by
  have hm := step_sleep_meter hs.metered hs.ckpt_lt h
  change (sleepMeter s).acc ≤ (sleepMeter s').acc
  rw [hm]
  split_ifs
  · exact acc_le_raise _ _ (hpower s.pmArray)
  · exact le_rfl

theorem run_energy_le (hpower : ∀ pm, 0 ≤ host.slpPower pm) {rs : List (ℚ × ℚ)} {s t : Emu}
    {es : List Event} (hs : Charged rs s) (h : run (step host) s es = .ok t) :
    s.slpEnergy ≤ t.slpEnergy := by
  have ht := run_preserves (I := fun u ↦ (∃ rs, Charged rs u) ∧ s.slpEnergy ≤ u.slpEnergy) ?_ h
    ⟨⟨rs, hs⟩, le_rfl⟩
  · exact ht.2
  · rintro u e u' ⟨⟨qs, hu⟩, hle⟩ he
    exact ⟨⟨_, step_charged hu he⟩, hle.trans (step_energy_le hpower hu he)⟩

/-- Every nanosecond of sleep is charged at most once: the checkpoint is the highest sleep time
that an evaluation has seen, and the energy is the sum of what each of them added to it, at the
power of that moment. As long as the energy is a word, what is returned never decreases. -/
theorem sleep_energy_charged_once (host : Host) (hpower : ∀ pm, 0 ≤ host.slpPower pm)
    (pm : Parameters) (t0 : UInt64) (es : List Event) (s : Emu)
    (hrun : run (step host) (vemuInitCycles pm t0) es = .ok s) :
    (s.slpTimeCkpt.toNat : ℚ) = peak 0 (readings host [] (vemuInitCycles pm t0) es) ∧
    s.slpEnergy = charged 0 (readings host [] (vemuInitCycles pm t0) es) ∧
    ∀ (e : Event) (fs : List Event) (t : Emu), evaluates e = true →
      run (step host) s (e :: fs) = .ok t → (vemuGetSlpEnergy host t).1.slpEnergy < 2 ^ 64 →
      (vemuGetSlpEnergy host s).2 ≤ (vemuGetSlpEnergy host t).2 := by
  have hs := run_charged (init_charged pm t0) hrun
  have hm := hs.meter_eq
  rw [raiseAll_eq] at hm
  refine ⟨congrArg Meter.ckpt hm, ?_, ?_⟩
  · have hacc : s.slpEnergy = 0 + charged 0 (readings host [] (vemuInitCycles pm t0) es) :=
      congrArg Meter.acc hm
    rwa [zero_add] at hacc
  · intro e fs t he hfs hlt
    obtain ⟨s₁, hs₁, hfs⟩ := run_cons_eq_ok.mp hfs
    have hc₁ := step_charged hs hs₁
    have ht := run_charged hc₁ hfs
    have hread : s₁.slpEnergy = (evaluated host s).acc := by
      have h := step_sleep_meter hs.metered hs.ckpt_lt hs₁
      rw [he] at h
      exact congrArg Meter.acc h
    obtain ⟨hmt, hwt⟩ := get_slp_energy_meter host ht.ckpt_lt
    have hend : (vemuGetSlpEnergy host t).1.slpEnergy = (evaluated host t).acc :=
      congrArg Meter.acc hmt
    rw [hend] at hlt
    rw [(get_slp_energy_meter host hs.ckpt_lt).2, hwt]
    apply host.word_le _ _ hlt
    · calc (0 : ℚ) ≤ s.slpEnergy := run_energy_le hpower (init_charged pm t0) hrun
        _ ≤ (evaluated host s).acc := acc_le_raise _ _ (hpower s.pmArray)
    · calc (evaluated host s).acc = s₁.slpEnergy := hread.symm
        _ ≤ t.slpEnergy := run_energy_le hpower hc₁ hfs
        _ ≤ (evaluated host t).acc := acc_le_raise _ _ (hpower t.pmArray)

def readAt : Event := .modWrite readCmd 0

theorem polled_sleep_charged_once :
    ∃ s t, run (step linearHost) (vemuInitCycles gigahertz 0) firstSleep = .ok s ∧
      run (step linearHost) s (readAt :: secondSleep 101) = .ok t ∧
      s.slpEnergy = charged 0 (readings linearHost [] (vemuInitCycles gigahertz 0) firstSleep) ∧
      vemuGetSlpTime t < vemuGetSlpTime s ∧
      (vemuGetSlpEnergy linearHost s).2 ≤ (vemuGetSlpEnergy linearHost t).2 := by
  have hok : Ends (fun s ↦ Ends (fun t ↦ vemuGetSlpTime t < vemuGetSlpTime s ∧
        (vemuGetSlpEnergy linearHost t).1.slpEnergy < 2 ^ 64)
      (run (step linearHost) s (readAt :: secondSleep 101)))
      (run (step linearHost) (vemuInitCycles gigahertz 0) firstSleep) := by
    decide +kernel
  obtain ⟨s, hs, hok⟩ := hok.exists
  obtain ⟨t, ht, hdip, hlt⟩ := hok.exists
  have hpower : ∀ pm, 0 ≤ linearHost.slpPower pm := fun _ ↦ zero_le_one
  obtain ⟨_, henergy, hle⟩ :=
    sleep_energy_charged_once linearHost hpower gigahertz 0 firstSleep s hs
  exact ⟨s, t, hs, ht, henergy, hdip, hle readAt _ t rfl ht hlt⟩

/-- A host on which one nanosecond of sleep takes half of what a word can hold. -/
def heavyHost : Host where
  actPower _ := 0
  slpPower _ := 2 ^ 63
  outOfRange _ := 0

theorem heavy_sleep_overflows :
    ∃ s t, run (step heavyHost) (vemuInitCycles gigahertz 0)
        [.act .sleepStart, .act (.clock 1)] = .ok s ∧
      run (step heavyHost) s [readAt, .act (.clock 2)] = .ok t ∧
      (vemuGetSlpEnergy heavyHost t).2 < (vemuGetSlpEnergy heavyHost s).2 := by
  have hok : Ends (fun s ↦ Ends (fun t ↦
        (vemuGetSlpEnergy heavyHost t).2 < (vemuGetSlpEnergy heavyHost s).2)
      (run (step heavyHost) s [readAt, .act (.clock 2)]))
      (run (step heavyHost) (vemuInitCycles gigahertz 0)
        [.act .sleepStart, .act (.clock 1)]) := by
    decide +kernel
  obtain ⟨s, hs, hok⟩ := hok.exists
  obtain ⟨t, ht, hlt⟩ := hok.exists
  exact ⟨s, t, hs, ht, hlt⟩

section Polling

/-- The two states agree on the clocks and on everything that time is computed from. -/
structure SameClock (s t : Emu) : Prop where
  times : SameTimes s t
  vmClock_eq : t.vmClock = s.vmClock
  activeTime_eq : t.activeTime = s.activeTime
  cycleCount_eq : t.cycleCount = s.cycleCount
  pmArray_eq : t.pmArray = s.pmArray

def drivesClock : Event → Bool
  | .act (.retire _) | .act (.clock _) | .act .sleepStart | .act .activeStart => true
  | _ => false

theorem SameClock.refl (s : Emu) : SameClock s s := ⟨⟨rfl, rfl, rfl, rfl, rfl⟩, rfl, rfl, rfl, rfl⟩

theorem SameClock.symm {s t : Emu} (h : SameClock s t) : SameClock t s where
  times := ⟨h.times.totalSleepTime_eq.symm, h.times.lastActiveTimeVm_eq.symm,
    h.times.lastActiveTimeCycles_eq.symm, h.times.lastSleepTime_eq.symm,
    h.times.enteredSleepMode_eq.symm⟩
  vmClock_eq := h.vmClock_eq.symm
  activeTime_eq := h.activeTime_eq.symm
  cycleCount_eq := h.cycleCount_eq.symm
  pmArray_eq := h.pmArray_eq.symm

theorem SameClock.trans {s t u : Emu} (h : SameClock s t) (h' : SameClock t u) : SameClock s u where
  times := ⟨h'.times.totalSleepTime_eq.trans h.times.totalSleepTime_eq,
    h'.times.lastActiveTimeVm_eq.trans h.times.lastActiveTimeVm_eq,
    h'.times.lastActiveTimeCycles_eq.trans h.times.lastActiveTimeCycles_eq,
    h'.times.lastSleepTime_eq.trans h.times.lastSleepTime_eq,
    h'.times.enteredSleepMode_eq.trans h.times.enteredSleepMode_eq⟩
  vmClock_eq := h'.vmClock_eq.trans h.vmClock_eq
  activeTime_eq := h'.activeTime_eq.trans h.activeTime_eq
  cycleCount_eq := h'.cycleCount_eq.trans h.cycleCount_eq
  pmArray_eq := h'.pmArray_eq.trans h.pmArray_eq

theorem SameClock.slp_time {s t : Emu} (h : SameClock s t) :
    vemuGetSlpTime t = vemuGetSlpTime s := by
  simp only [vemuGetSlpTime, h.times.enteredSleepMode_eq, h.vmClock_eq, h.times.lastSleepTime_eq,
    h.times.totalSleepTime_eq]

theorem parameters_kept {s s' : Emu} {e : Event} (hc : e.changesParameter = false)
    (h : step host s e = .ok s') : s'.pmArray = s.pmArray := by
  have hw : e.parameterWritten = none := by
    rcases e with a | ⟨offset, val⟩
    · cases a <;> first | rfl | simp [Event.changesParameter] at hc
    · simp_all [Event.changesParameter, Event.setsParameter, Event.parameterWritten]
  funext p
  rw [step_parameter h, Event.parameter, hw]

theorem same_clock_hidden {s u s' : Emu} {e : Event} (hr : SameClock s u)
    (he : drivesClock e = false) (hc : e.changesParameter = false)
    (h : step host s e = .ok s') : SameClock s' u := by
  have hs : SameClock s s' := by
    cases step_clock h with
    | quiet hkeep hvm htime hcount => exact ⟨hkeep, hvm, htime, hcount, parameters_kept hc h⟩
    | retire | tick | sleep | wake => cases he
  exact hs.symm.trans hr

theorem same_clock_visible {s u s' : Emu} {e : Event} (hr : SameClock s u)
    (he : drivesClock e = true) (h : step host s e = .ok s') :
    ∃ u', step host u e = .ok u' ∧ SameClock s' u' := by
  obtain ⟨⟨hslp, hvm, hcyc, hlast, hmode⟩, hclock, htime, hcount, hpm⟩ := hr
  cases e with
  | modWrite => cases he
  | act a =>
    cases a with
    | retire tb =>
      obtain ⟨u', hu, ht, hc, hp⟩ := increment_cycles_congr h hpm htime hcount
      refine ⟨u', hu, ?_⟩
      obtain ⟨c, hz, _, _, _, rfl⟩ := increment_cycles_ok h
      obtain ⟨d, hz', _, _, _, rfl⟩ := increment_cycles_ok hu
      exact ⟨⟨hslp, hvm, hcyc, hlast, hmode⟩, hclock, ht, hc, hp⟩
    | clock now =>
      cases h
      exact ⟨_, rfl, ⟨hslp, hvm, hcyc, hlast, hmode⟩, rfl, htime, hcount, hpm⟩
    | sleepStart =>
      obtain ⟨act, hact, _⟩ := bind_ok_iff.mp h
      have hu : ∃ u', vemuSleepStart u = .ok u' :=
        ⟨_, bind_ok_iff.mpr ⟨act, (act_time_all_congr htime).trans hact, rfl⟩⟩
      obtain ⟨u', hu⟩ := hu
      refine ⟨u', hu, ?_⟩
      obtain ⟨a, ha, rfl⟩ := sleep_start_ok h
      obtain ⟨b, hb, rfl⟩ := sleep_start_ok hu
      obtain rfl : b = a := Except.ok.inj (hb.symm.trans ((act_time_all_congr htime).trans ha))
      exact ⟨⟨hslp, hvm, hcyc, by simp only [hvm, hcyc], rfl⟩, hclock, htime, hcount, hpm⟩
    | activeStart =>
      rcases active_start_ok h with ⟨hawake, rfl⟩ | ⟨hsleep, act, hact, rfl⟩
      · refine ⟨u, ?_, ⟨hslp, hvm, hcyc, hlast, hmode⟩, hclock, htime, hcount, hpm⟩
        simp [step, perform, vemuActiveStart, hmode, hawake]
      · have hact' : vemuGetActTimeAllClasses u = .ok act := (act_time_all_congr htime).trans hact
        have hu : ∃ u', vemuActiveStart u = .ok u' := by
          rw [vemuActiveStart, if_pos (hmode.trans hsleep)]
          exact ⟨_, bind_ok_iff.mpr ⟨act, hact', rfl⟩⟩
        obtain ⟨u', hu⟩ := hu
        refine ⟨u', hu, ?_⟩
        rcases active_start_ok hu with ⟨hawake, _⟩ | ⟨_, b, hb, rfl⟩
        · exact absurd ((hmode.trans hsleep).symm.trans hawake) (by decide)
        · obtain rfl : b = act := Except.ok.inj (hb.symm.trans hact')
          exact ⟨⟨by simp only [hslp, hclock, hlast], hclock, rfl, hlast, rfl⟩, hclock, htime,
            hcount, hpm⟩
    | _ => cases he

theorem run_same_clock {pm : Parameters} {t0 : UInt64} {es fs : List Event} {s t : Emu}
    (hs : run (step host) (vemuInitCycles pm t0) es = .ok s)
    (ht : run (step host) (vemuInitCycles pm t0) fs = .ok t)
    (hes : ∀ e ∈ es, e.changesParameter = false) (hfs : ∀ e ∈ fs, e.changesParameter = false)
    (hsame : es.filter drivesClock = fs.filter drivesClock) : SameClock s t := by
  refine run_same_visible (C := fun _ e ↦ e.changesParameter = false) (R := SameClock) drivesClock
    ?_ ?_ (fun _ _ ↦ SameClock.symm) (fun _ _ _ ↦ SameClock.trans) hs ht
    (always_of_forall (fun e he _ ↦ hes e he) _) (always_of_forall (fun e he _ ↦ hfs e he) _)
    hsame (.refl _)
  · intro s u e s' hr he _ h
    exact same_clock_visible hr he h
  · intro s u e s' hr he hc h
    exact same_clock_hidden hr he hc h

theorem run_prices {pm : Parameters} {t0 : UInt64} {es : List Event} {s : Emu}
    (hs : run (step host) (vemuInitCycles pm t0) es = .ok s)
    (hes : ∀ e ∈ es, e.changesParameter = false) :
    (∀ r ∈ readings host [] (vemuInitCycles pm t0) es, r.2 = host.slpPower pm) ∧
      s.pmArray = pm := by
  refine run_journal (a := []) (C := fun _ e ↦ e.changesParameter = false)
    (R := fun (rs : List (ℚ × ℚ)) s ↦ (∀ r ∈ rs, r.2 = host.slpPower pm) ∧ s.pmArray = pm) ?_ hs
    (always_of_forall (fun e he _ ↦ hes e he) _) ⟨nofun, rfl⟩
  rintro rs s e s' ⟨hrs, hpm⟩ hc h
  refine ⟨?_, (parameters_kept hc h).trans hpm⟩
  split_ifs
  · intro r hr
    rcases List.mem_append.mp hr with hr | hr
    · exact hrs r hr
    · rw [List.mem_singleton.mp hr, reading, hpm]
  · exact hrs

def readingsTo (host : Host) (pm : Parameters) (t0 : UInt64) (es : List Event) (s : Emu) :
    List (ℚ × ℚ) :=
  readings host [] (vemuInitCycles pm t0) es ++ [reading host s]

theorem evaluated_eq_peak {pm : Parameters} {t0 : UInt64} {es : List Event} {s : Emu}
    (hs : run (step host) (vemuInitCycles pm t0) es = .ok s)
    (hes : ∀ e ∈ es, e.changesParameter = false) :
    (evaluated host s).acc = peak 0 (readingsTo host pm t0 es s) * host.slpPower pm := by
  obtain ⟨hprices, hpm⟩ := run_prices hs hes
  have hall : ∀ r ∈ readingsTo host pm t0 es s, r.2 = host.slpPower pm := by
    intro r hr
    rcases List.mem_append.mp hr with hr | hr
    · exact hprices r hr
    · rw [List.mem_singleton.mp hr, reading, hpm]
  have hm : evaluated host s = raiseAll ⟨0, 0⟩ (readingsTo host pm t0 es s) := by
    rw [readingsTo, raiseAll_snoc, ← (run_charged (init_charged pm t0) hs).meter_eq]
    rfl
  rw [hm, raiseAll_eq, charged_const hall]
  ring

/-- Two runs of the same instructions, sleeps and clock readings that differ in where the sleep
energy is evaluated: at the same point both have charged the highest sleep time that they have
seen, so they agree if these do, and in particular where the sleep time has not fallen below what
either run saw before. -/
theorem polling_transparent (host : Host) (pm : Parameters) (t0 : UInt64) (es fs : List Event)
    (s t : Emu)
    (hs : run (step host) (vemuInitCycles pm t0) es = .ok s)
    (ht : run (step host) (vemuInitCycles pm t0) fs = .ok t)
    (hes : ∀ e ∈ es, e.changesParameter = false) (hfs : ∀ e ∈ fs, e.changesParameter = false)
    (hsame : es.filter drivesClock = fs.filter drivesClock) :
    ((vemuGetSlpEnergy host s).1.slpEnergy = (vemuGetSlpEnergy host t).1.slpEnergy ↔
      host.slpPower pm = 0 ∨
        peak 0 (readingsTo host pm t0 es s) = peak 0 (readingsTo host pm t0 fs t)) ∧
    (peak 0 (readingsTo host pm t0 es s) = peak 0 (readingsTo host pm t0 fs t) →
      (vemuGetSlpEnergy host s).2 = (vemuGetSlpEnergy host t).2) ∧
    ((∀ r ∈ readings host [] (vemuInitCycles pm t0) es, r.1 ≤ (vemuGetSlpTime s).toNat) →
      (∀ r ∈ readings host [] (vemuInitCycles pm t0) fs, r.1 ≤ (vemuGetSlpTime t).toNat) →
      (vemuGetSlpEnergy host s).2 = (vemuGetSlpEnergy host t).2) := by
  obtain ⟨hms, hws⟩ := get_slp_energy_meter host (run_charged (init_charged pm t0) hs).ckpt_lt
  obtain ⟨hmt, hwt⟩ := get_slp_energy_meter host (run_charged (init_charged pm t0) ht).ckpt_lt
  have hslp := (run_same_clock hs ht hes hfs hsame).slp_time
  have hpeak : peak 0 (readingsTo host pm t0 es s) = peak 0 (readingsTo host pm t0 fs t) →
      (vemuGetSlpEnergy host s).2 = (vemuGetSlpEnergy host t).2 := by
    intro h
    rw [hws, hwt, evaluated_eq_peak hs hes, evaluated_eq_peak ht hfs, h]
  refine ⟨?_, hpeak, ?_⟩
  · have hes' : (vemuGetSlpEnergy host s).1.slpEnergy = (evaluated host s).acc :=
      congrArg Meter.acc hms
    have hft' : (vemuGetSlpEnergy host t).1.slpEnergy = (evaluated host t).acc :=
      congrArg Meter.acc hmt
    rw [hes', hft', evaluated_eq_peak hs hes, evaluated_eq_peak ht hfs, mul_eq_mul_right_iff]
    exact Or.comm
  · intro hle hle'
    apply hpeak
    have htop : ∀ (es : List Event) (s : Emu),
        (∀ r ∈ readings host [] (vemuInitCycles pm t0) es, r.1 ≤ (vemuGetSlpTime s).toNat) →
        peak 0 (readingsTo host pm t0 es s) = (vemuGetSlpTime s).toNat := by
      intro es s h
      rw [readingsTo, peak_snoc]
      exact max_eq_right (peak_le_iff.mpr ⟨Nat.cast_nonneg _, h⟩)
    rw [htop es s hle, htop fs t hle', hslp]

def polled (now : UInt64) : List Event :=
  firstSleep ++ [readAt, .act .doInfoEnergy] ++ secondSleep now ++ [.act .doInfoAll]

def unpolled (now : UInt64) : List Event := firstSleep ++ secondSleep now

theorem late_wake_polling_transparent :
    ∃ s t, run (step linearHost) (vemuInitCycles gigahertz 0) (polled 110) = .ok s ∧
      run (step linearHost) (vemuInitCycles gigahertz 0) (unpolled 110) = .ok t ∧
      (vemuGetSlpEnergy linearHost s).2 = (vemuGetSlpEnergy linearHost t).2 := by
  have hok : Ends (fun s ↦ Ends (fun t ↦
        (∀ r ∈ readings linearHost [] (vemuInitCycles gigahertz 0) (polled 110),
          r.1 ≤ (vemuGetSlpTime s).toNat) ∧
        ∀ r ∈ readings linearHost [] (vemuInitCycles gigahertz 0) (unpolled 110),
          r.1 ≤ (vemuGetSlpTime t).toNat)
      (run (step linearHost) (vemuInitCycles gigahertz 0) (unpolled 110)))
      (run (step linearHost) (vemuInitCycles gigahertz 0) (polled 110)) := by
    decide +kernel
  obtain ⟨s, hs, hok⟩ := hok.exists
  obtain ⟨t, ht, hle, hle'⟩ := hok.exists
  exact ⟨s, t, hs, ht, (polling_transparent linearHost gigahertz 0 (polled 110) (unpolled 110) s t
    hs ht (by decide) (by decide) (by decide)).2.2 hle hle'⟩

/-- A poll before an early wake-up keeps the sleep time that the wake-up takes back. -/
theorem early_wake_polling_shows :
    ∃ s t, run (step linearHost) (vemuInitCycles gigahertz 0) (polled 101) = .ok s ∧
      run (step linearHost) (vemuInitCycles gigahertz 0) (unpolled 101) = .ok t ∧
      (polled 101).filter drivesClock = (unpolled 101).filter drivesClock ∧
      (vemuGetSlpEnergy linearHost s).2 ≠ (vemuGetSlpEnergy linearHost t).2 := by
  have hok : Ends (fun s ↦ Ends (fun t ↦
        (vemuGetSlpEnergy linearHost s).2 ≠ (vemuGetSlpEnergy linearHost t).2)
      (run (step linearHost) (vemuInitCycles gigahertz 0) (unpolled 101)))
      (run (step linearHost) (vemuInitCycles gigahertz 0) (polled 101)) := by
    decide +kernel
  obtain ⟨s, hs, hok⟩ := hok.exists
  obtain ⟨t, ht, hne⟩ := hok.exists
  exact ⟨s, t, hs, ht, by decide, hne⟩

end Polling

end VarEmu.Emulator.SleepEnergy
