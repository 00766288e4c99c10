import VarEmu.Emulator.Snapshots

namespace VarEmu.Emulator.PowerModel

open State Cycles Energy Device Machine ActiveEnergy Snapshots
open Library.Execution Library.Truncation Library.Metering Library.Rounding

/-- The parameters that the active power depends on, the leakage apart. -/
structure EsweekPm where
  F : ℚ
  Vdd : ℚ
  Nd : ℚ
  Bd : ℚ
  Cd : ℚ
  deltaVtp : ℚ
  VddScalar : ℚ

def value : Double → ℚ
  | .rat q => q
  | .nonfinite => 0

def EsweekPm.ofArray (pm : Parameters) : EsweekPm where
  F := value (pm 0)
  Vdd := value (pm 1)
  Nd := value (pm 3)
  Bd := value (pm 4)
  Cd := value (pm 5)
  deltaVtp := value (pm 11)
  VddScalar := value (pm 13)

def EsweekPm.v (p : EsweekPm) : ℚ := p.Vdd * p.VddScalar

def EsweekPm.curve (p : EsweekPm) : ℚ := p.v * p.v + p.Bd * (p.v - p.Cd - p.deltaVtp) ^ 3

def vemuPmActPower (p : EsweekPm) (slpPower : ℚ) : ℚ := p.curve * p.Nd * (p.F / 10 ^ 6) + slpPower

/-- The 45 nm model. The leakage, which is built from exponentials, stays open. -/
def esweekHost (slpPower : Parameters → ℚ) (outOfRange : Double → UInt64) : Host where
  actPower pm := vemuPmActPower (.ofArray pm) (slpPower pm)
  slpPower := slpPower
  outOfRange := outOfRange

/-- The signs of the parameters in the shipped files. -/
structure EsweekPm.Shipped (p : EsweekPm) : Prop where
  F_nonneg : 0 ≤ p.F
  Nd_pos : 0 < p.Nd
  Bd_pos : 0 < p.Bd
  Cd_pos : 0 < p.Cd
  deltaVtp_nonneg : 0 ≤ p.deltaVtp
  VddScalar_pos : 0 < p.VddScalar

/-- What decides the sign of the active power when there is no leakage. -/
def EsweekPm.Safe (p : EsweekPm) : Prop := p.F = 0 ∨ 0 ≤ p.curve

instance (p : EsweekPm) : Decidable p.Safe := inferInstanceAs (Decidable (_ ∨ _))

theorem act_power_nonneg_iff {p : EsweekPm} (hp : p.Shipped) :
    (∀ leakage, 0 ≤ leakage → 0 ≤ vemuPmActPower p leakage) ↔ p.Safe := by
  have hF : 0 ≤ p.F / 10 ^ 6 := div_nonneg hp.F_nonneg (by norm_num)
  unfold vemuPmActPower
  constructor
  · intro h
    have hdyn : 0 ≤ p.curve * (p.Nd * (p.F / 10 ^ 6)) := by
      have h := h 0 le_rfl
      rwa [add_zero, mul_assoc] at h
    rcases hp.F_nonneg.eq_or_lt with hzero | hpos
    · exact .inl hzero.symm
    · have hscale : 0 < p.Nd * (p.F / 10 ^ 6) := mul_pos hp.Nd_pos (div_pos hpos (by norm_num))
      exact .inr (nonneg_of_mul_nonneg_left hdyn hscale)
  · rintro (hzero | hcurve) leakage hleak
    · simpa [hzero] using hleak
    · exact add_nonneg (mul_nonneg (mul_nonneg hcurve hp.Nd_pos.le) hF) hleak

theorem curve_nonneg {p : EsweekPm} (hp : p.Shipped) (hv : p.Cd + p.deltaVtp ≤ p.v) :
    0 ≤ p.curve := by
  have hx : 0 ≤ p.v - p.Cd - p.deltaVtp := by linarith
  exact add_nonneg (mul_self_nonneg p.v) (mul_nonneg hp.Bd_pos.le (pow_nonneg hx 3))

theorem value_word_nonneg (u : UInt64) : 0 ≤ value (.ofUInt64 u) := by
  cases h : Double.ofUInt64 u with
  | rat q => exact Format.round_nonneg u.toNat.cast_nonneg (nearest_eq_rat.mp h)
  | nonfinite => exact le_rfl

theorem value_millivolts (u : UInt32) :
    value ((Double.ofUInt64 u.toUInt64).scale (1 / 1000)) = u.toNat / 1000 := by
  rw [ofUInt64_toUInt64, Double.scale, value, mul_one_div]

theorem guest_shipped {pm : Parameters} {e : Event} (hp : (EsweekPm.ofArray pm).Shipped) :
    (EsweekPm.ofArray (guestParameters pm e)).Shipped := by
  cases e with
  | act a => exact hp
  | modWrite offset val =>
    simp only [guestParameters]
    split_ifs
    · exact ⟨value_word_nonneg val, hp.Nd_pos, hp.Bd_pos, hp.Cd_pos, hp.deltaVtp_nonneg,
        hp.VddScalar_pos⟩
    · exact ⟨hp.F_nonneg, hp.Nd_pos, hp.Bd_pos, hp.Cd_pos, hp.deltaVtp_nonneg, hp.VddScalar_pos⟩
    · exact hp

def guestOnly (e : Event) : Bool := !e.changesParameter || e.setsParameter

theorem written_eq_update {pm : Parameters} {p : Fin pmArraySize} {v : Double} {pp : UInt8}
    (q : Fin pmArraySize) (hq : pp.toNat = q.val) :
    (if pp.toNat = p.val then v else pm p) = Function.update pm q v p := by
  rw [hq, Function.update_apply]
  simp only [Fin.val_inj, eq_comm]

theorem step_guest {host : Host} {s s' : Emu} {e : Event} (he : guestOnly e = true)
    (h : step host s e = .ok s') : s'.pmArray = guestParameters s.pmArray e := by
  funext p
  rw [step_parameter h, Event.parameter]
  cases e with
  | act a =>
    cases a <;> first
      | rfl
      | simp [guestOnly, Event.changesParameter, Event.setsParameter] at he
  | modWrite offset val =>
    simp only [Event.parameterWritten, guestParameters]
    split_ifs
    · exact written_eq_update 0 rfl
    · exact written_eq_update 1 rfl
    · rfl

def SafeReads (s : Emu) (e : Event) : Prop :=
  guestOnly e = true ∧ (e.readsEnergy = true → (EsweekPm.ofArray s.pmArray).Safe)

instance (s : Emu) (e : Event) : Decidable (SafeReads s e) :=
  inferInstanceAs (Decidable (_ ∧ (_ → _)))

section Runs

variable {slpPower : Parameters → ℚ} {outOfRange : Double → UInt64}

theorem step_act_energy_le (hslp : ∀ pm, 0 ≤ slpPower pm) {s s' : Emu} {e : Event}
    (hm : Metered s) (hp : (EsweekPm.ofArray s.pmArray).Shipped) (hc : SafeReads s e)
    (h : step (esweekHost slpPower outOfRange) s e = .ok s') (c : InstrClass) :
    s.actEnergy c ≤ s'.actEnergy c := by
  cases step_energy hm h with
  | idle _ _ _ _ hmeter | set _ _ _ hmeter => exact (congrArg Meter.acc (hmeter c)).ge
  | change _ hset hchange => simp [SafeReads, guestOnly, hset, hchange] at hc
  | read hread _ _ _ hmeter =>
    rcases hmeter c with hmeter | hmeter
    · exact (congrArg Meter.acc hmeter).ge
    · have hacc : s'.actEnergy c = s.actEnergy c + (intActTime s c - (s.actTimeCkpt c).toNat) *
          power (esweekHost slpPower outOfRange) s := congrArg Meter.acc hmeter
      have htime : (0 : ℚ) ≤ intActTime s c - (s.actTimeCkpt c).toNat :=
        sub_nonneg.mpr (Nat.cast_le.mpr (hm c))
      have hpower : 0 ≤ power (esweekHost slpPower outOfRange) s :=
        (act_power_nonneg_iff hp).mpr (hc.2 hread) _ (hslp s.pmArray)
      rw [hacc]
      exact le_add_of_nonneg_right (mul_nonneg htime hpower)

theorem run_act_energy_le (hslp : ∀ pm, 0 ≤ slpPower pm) {s t : Emu} {es : List Event}
    (hm : Metered s) (hp : (EsweekPm.ofArray s.pmArray).Shipped)
    (h : run (step (esweekHost slpPower outOfRange)) s es = .ok t)
    (hc : Always (step (esweekHost slpPower outOfRange)) SafeReads s es) :
    Metered t ∧ (EsweekPm.ofArray t.pmArray).Shipped ∧ ∀ c, s.actEnergy c ≤ t.actEnergy c := by
  refine run_invariant (I := fun u ↦ Metered u ∧ (EsweekPm.ofArray u.pmArray).Shipped ∧
    ∀ c, s.actEnergy c ≤ u.actEnergy c) ?_ h hc ⟨hm, hp, fun _ ↦ le_rfl⟩
  rintro u e u' ⟨hmu, hpu, hle⟩ hce hu
  refine ⟨step_metered u e u' hmu hu, ?_, ?_⟩
  · rw [step_guest hce.1 hu]
    exact guest_shipped hpu
  · exact fun c ↦ (hle c).trans (step_act_energy_le hslp hmu hpu hce hu c)

theorem latch_act_energy {host : Host} {s s' : Emu} {x : UInt64} (hm : Metered s)
    (h : step host s (.modWrite readCmd x) = .ok s') (c : InstrClass) :
    VemuState.actEnergy s'.lastState c = host.word (.rat (s'.actEnergy c)) := by
  rw [step, mod_write_read_cmd] at h
  obtain ⟨t, u, r, _, _, hu, rfl, _, henergy, _⟩ := latch_ok hm h
  have hacc : u.actEnergy c = t.actEnergy c := hu ▸ congrArg Meter.acc (slp_energy_meter t c)
  simp only [actEnergy_array64, henergy, hacc]

end Runs

def dvfs (pm : Parameters) (freq voltagemv : UInt32) : Parameters :=
  guestParameters (guestParameters pm (.modWrite setFrequency freq.toUInt64))
    (.modWrite setVoltage voltagemv.toUInt64)

/-- Under the 45 nm model the active power is non-negative for every leakage exactly when the
fitted curve is, or the clock stands. In a run in which that is so whenever active energy is read,
the energy reported for a class never decreases, and is the integer part of what has been
accumulated as long as that fits into a word. -/
theorem active_energy_grows (slpPower : Parameters → ℚ) (hslp : ∀ pm, 0 ≤ slpPower pm)
    (outOfRange : Double → UInt64) (pm : Parameters) (hp : (EsweekPm.ofArray pm).Shipped)
    (t0 : UInt64) :
    (∀ freq voltagemv, ((∀ leakage, 0 ≤ leakage →
        0 ≤ vemuPmActPower (.ofArray (dvfs pm freq voltagemv)) leakage) ↔
      (EsweekPm.ofArray (dvfs pm freq voltagemv)).Safe)) ∧
    (∀ freq voltagemv, (EsweekPm.ofArray pm).Cd + (EsweekPm.ofArray pm).deltaVtp ≤
        voltagemv.toNat / 1000 * (EsweekPm.ofArray pm).VddScalar →
      (EsweekPm.ofArray (dvfs pm freq voltagemv)).Safe) ∧
    ∀ (es fs : List Event) (x y : UInt64) (s a t b : Emu),
      run (step (esweekHost slpPower outOfRange)) (vemuInitCycles pm t0) es = .ok s →
      step (esweekHost slpPower outOfRange) s (.modWrite readCmd x) = .ok a →
      run (step (esweekHost slpPower outOfRange)) a fs = .ok t →
      step (esweekHost slpPower outOfRange) t (.modWrite readCmd y) = .ok b →
      Always (step (esweekHost slpPower outOfRange)) SafeReads (vemuInitCycles pm t0)
        (es ++ .modWrite readCmd x :: (fs ++ [.modWrite readCmd y])) →
      ∀ c, b.actEnergy c < 2 ^ 64 →
        VemuState.actEnergy a.lastState c ≤ VemuState.actEnergy b.lastState c ∧
        (VemuState.actEnergy b.lastState c).toNat = ⌊b.actEnergy c⌋₊ := by
  have hdvfs : ∀ freq voltagemv, (EsweekPm.ofArray (dvfs pm freq voltagemv)).Shipped :=
    fun _ _ ↦ guest_shipped (guest_shipped hp)
  refine ⟨fun _ _ ↦ act_power_nonneg_iff (hdvfs _ _), ?_, ?_⟩
  · intro freq voltagemv hv
    rw [← value_millivolts] at hv
    exact .inr (curve_nonneg (hdvfs freq voltagemv) hv)
  · intro es fs x y s a t b hs ha ht hb hsafe c hlt
    rw [always_append hs, always_cons ha, always_append ht] at hsafe
    obtain ⟨hes, hx, hfs, hy, _⟩ := hsafe
    obtain ⟨hms, hps, h0⟩ := run_act_energy_le hslp (init_metered pm t0) hp hs hes
    have hma := step_metered s _ a hms ha
    have hpa : (EsweekPm.ofArray a.pmArray).Shipped := by
      rw [step_guest hx.1 ha]
      exact guest_shipped hps
    obtain ⟨hmt, hpt, hat⟩ := run_act_energy_le hslp hma hpa ht hfs
    have hsa := step_act_energy_le hslp hms hps hx ha c
    have htb := step_act_energy_le hslp hmt hpt hy hb c
    have hab := (hat c).trans htb
    have ha0 : 0 ≤ a.actEnergy c := (h0 c).trans hsa
    rw [latch_act_energy hms ha c, latch_act_energy hmt hb c]
    exact ⟨Host.word_le _ ha0 hab hlt, Host.word_toNat _ (ha0.trans hab) hlt⟩

/-- The parameters of `45nm_nc.txt`. -/
def nominal : Parameters :=
  ![.rat 100000000, .rat 1, .rat 21, .rat (1 / 10000), .rat (2486397 / 1000000),
    .rat (659349 / 1000000), .rat (20213 / 1000000), .rat (-9210), .rat 890, .rat (1 / 5),
    .rat (29 / 125), .rat 0, .rat 1, .rat 1]

theorem nominal_shipped : (EsweekPm.ofArray nominal).Shipped where
  F_nonneg := by decide +kernel
  Nd_pos := by decide +kernel
  Bd_pos := by decide +kernel
  Cd_pos := by decide +kernel
  deltaVtp_nonneg := by decide +kernel
  VddScalar_pos := by decide +kernel

def noLeakage : Host := esweekHost (fun _ ↦ 0) fun _ ↦ 0

def scaledRun (voltagemv : UInt64) : List Event :=
  .modWrite setVoltage voltagemv :: List.replicate 5 load

theorem nominal_energy_grows :
    ∃ s a t b, run (step noLeakage) (vemuInitCycles nominal 0) (scaledRun 5000) = .ok s ∧
      step noLeakage s (.modWrite readCmd 1) = .ok a ∧
      run (step noLeakage) a (scaledRun 1000) = .ok t ∧
      step noLeakage t (.modWrite readCmd 1) = .ok b ∧
      VemuState.actEnergy a.lastState 0 ≤ VemuState.actEnergy b.lastState 0 := by
  have hok : Ends (fun s ↦ Ends (fun a ↦ Ends (fun t ↦ Ends (fun b ↦ b.actEnergy 0 < 2 ^ 64)
      (step noLeakage t (.modWrite readCmd 1)))
      (run (step noLeakage) a (scaledRun 1000)))
      (step noLeakage s (.modWrite readCmd 1)))
      (run (step noLeakage) (vemuInitCycles nominal 0) (scaledRun 5000)) := by
    decide +kernel
  have hsafe : Always (step noLeakage) SafeReads (vemuInitCycles nominal 0)
      (scaledRun 5000 ++ .modWrite readCmd 1 :: (scaledRun 1000 ++ [.modWrite readCmd 1])) := by
    decide +kernel
  obtain ⟨s, hs, hok⟩ := hok.exists
  obtain ⟨a, ha, hok⟩ := hok.exists
  obtain ⟨t, ht, hok⟩ := hok.exists
  obtain ⟨b, hb, hlt⟩ := hok.exists
  exact ⟨s, a, t, b, hs, ha, ht, hb, ((active_energy_grows (fun _ ↦ 0) (fun _ ↦ le_rfl) (fun _ ↦ 0)
    nominal nominal_shipped 0).2.2 _ _ 1 1 s a t b hs ha ht hb hsafe 0 hlt).1⟩

theorem zero_volt_energy_falls :
    vemuPmActPower (.ofArray (dvfs nominal 100000000 0)) 0 < 0 ∧
    ∃ s a t b, run (step noLeakage) (vemuInitCycles nominal 0) (scaledRun 5000) = .ok s ∧
      step noLeakage s (.modWrite readCmd 1) = .ok a ∧
      run (step noLeakage) a (scaledRun 0) = .ok t ∧
      step noLeakage t (.modWrite readCmd 1) = .ok b ∧
      VemuState.actEnergy b.lastState 0 < VemuState.actEnergy a.lastState 0 := by
  have hok : Ends (fun s ↦ Ends (fun a ↦ Ends (fun t ↦ Ends (fun b ↦
        VemuState.actEnergy b.lastState 0 < VemuState.actEnergy a.lastState 0)
      (step noLeakage t (.modWrite readCmd 1)))
      (run (step noLeakage) a (scaledRun 0)))
      (step noLeakage s (.modWrite readCmd 1)))
      (run (step noLeakage) (vemuInitCycles nominal 0) (scaledRun 5000)) := by
    decide +kernel
  obtain ⟨s, hs, hok⟩ := hok.exists
  obtain ⟨a, ha, hok⟩ := hok.exists
  obtain ⟨t, ht, hok⟩ := hok.exists
  obtain ⟨b, hb, hlt⟩ := hok.exists
  exact ⟨by decide +kernel, s, a, t, b, hs, ha, ht, hb, hlt⟩

end VarEmu.Emulator.PowerModel
