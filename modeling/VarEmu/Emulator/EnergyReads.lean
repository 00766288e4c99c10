import VarEmu.Emulator.ActiveEnergy

namespace VarEmu.Emulator.EnergyReads

open State Cycles Energy Device Monitor Machine ActiveEnergy Library.Execution Library.Metering
open scoped BigOperators

def drives : Event → Bool
  | .act (.retire _) | .act (.energyChangeParameter ..) | .act (.doChangeModelParam ..) => true
  | _ => false

variable (host : Host)

/-- What a read reports of the active energy: one class, the total, or a snapshot's four classes
and their total. -/
def energyRead (s : Emu) : Event → Except Fault (List UInt64)
  | .act (.getActEnergy c) => (vemuGetActEnergy host s c).map fun r ↦ [r.2]
  | .act .getActEnergyAllClasses => (vemuGetActEnergyAllClasses host s).map fun r ↦ [r.2]
  | .act .doInfoEnergy => (vemuDoInfoEnergy host s).map fun r ↦ [r.2.1]
  | .act .doInfoAll => (vemuDoInfoAll host s).map fun r ↦ [r.2.1.1]
  | .modWrite offset val => (vemuModWrite host s offset val).map fun t ↦
      List.ofFn (VemuState.actEnergy t.lastState) ++ [VemuState.totalActEnergy t.lastState]
  | .act _ => .ok []

/-- The same time spent under the same parameters and the same energy owed, wherever the
checkpoints stand. -/
structure Alike (s t : Emu) : Prop where
  activeTime_eq : t.activeTime = s.activeTime
  cycleCount_eq : t.cycleCount = s.cycleCount
  pmArray_eq : t.pmArray = s.pmArray
  owed_eq : ∀ c, owed host t c = owed host s c
  metered_left : Metered s
  metered_right : Metered t

variable {host}

theorem Alike.symm {s t : Emu} (h : Alike host s t) : Alike host t s :=
  ⟨h.activeTime_eq.symm, h.cycleCount_eq.symm, h.pmArray_eq.symm, fun c ↦ (h.owed_eq c).symm,
    h.metered_right, h.metered_left⟩

theorem Alike.trans {s t u : Emu} (h : Alike host s t) (h' : Alike host t u) : Alike host s u :=
  ⟨h'.activeTime_eq.trans h.activeTime_eq, h'.cycleCount_eq.trans h.cycleCount_eq,
    h'.pmArray_eq.trans h.pmArray_eq, fun c ↦ (h'.owed_eq c).trans (h.owed_eq c),
    h.metered_left, h'.metered_right⟩

theorem bystander_step {s s' : Emu} {e : Event} (he : drives e = false)
    (hset : e.setsParameter = false) (h : step host s e = .ok s') :
    s'.activeTime = s.activeTime ∧ s'.cycleCount = s.cycleCount ∧ s'.pmArray = s.pmArray := by
  cases step_outcome h with
  | retire => simp [drives] at he
  | tick hs | sleep _ hs | wake _ _ hs | faults hs =>
    subst hs
    exact ⟨rfl, rfl, rfl⟩
  | books _ hs => exact ⟨hs.activeTime_eq, hs.cycleCount_eq, hs.pmArray_eq⟩
  | latch ht hs =>
    rw [hs]
    exact ⟨ht.activeTime_eq, ht.cycleCount_eq, ht.pmArray_eq⟩
  | change hw =>
    -- The flushing path is driven, and the other one is the guest's.
    rcases e with a | ⟨offset, val⟩
    · cases a <;> simp_all [drives, Event.parameterWritten]
    · simp_all [Event.setsParameter, Event.parameterWritten]

theorem alike_hidden {s t s' : Emu} {e : Event} (hr : Alike host s t) (he : drives e = false)
    (hset : e.setsParameter = false) (h : step host s e = .ok s') : Alike host s' t := by
  obtain ⟨htime, hcount, hpm⟩ := bystander_step he hset h
  refine ⟨by rw [htime, hr.activeTime_eq], by rw [hcount, hr.cycleCount_eq],
    by rw [hpm, hr.pmArray_eq], fun c ↦ ?_, step_metered s e s' hr.metered_left h,
    hr.metered_right⟩
  rw [owed_step hr.metered_left hset h c, int_act_time_congr htime c, sub_self, zero_mul, add_zero,
    hr.owed_eq c]

theorem change_congr {s s' t : Emu} {cc pp : UInt8} {vv : Double} (hr : Alike host s t)
    (h : vemuEnergyChangeParameter host s cc pp vv = .ok s') :
    ∃ t', vemuEnergyChangeParameter host t cc pp vv = .ok t' ∧ t'.activeTime = s'.activeTime ∧
      t'.cycleCount = s'.cycleCount ∧ t'.pmArray = s'.pmArray := by
  obtain ⟨u, p, hb, hp, rfl⟩ := energy_change_parameter_books h
  obtain ⟨q, hq, _⟩ := bind_ok_iff.mp h
  obtain ⟨⟨v, x⟩, hv⟩ := (get_act_energy_all_isOk host t).mpr fun c ↦ by
    rw [vemuGetActTime, hr.activeTime_eq]
    exact (get_act_energy_all_isOk host s).mp ⟨q, hq⟩ c
  have hlt : pp.toNat < 14 := hp ▸ p.isLt
  have ht : ∃ t', vemuEnergyChangeParameter host t cc pp vv = .ok t' :=
    ⟨_, bind_ok_iff.mpr ⟨_, hv, dif_pos hlt⟩⟩
  obtain ⟨t', ht⟩ := ht
  refine ⟨t', ht, ?_⟩
  obtain ⟨w, p', hb', hp', rfl⟩ := energy_change_parameter_books ht
  obtain rfl : p' = p := Fin.ext (hp'.trans hp.symm)
  exact ⟨by simp only [hb'.activeTime_eq, hb.activeTime_eq, hr.activeTime_eq],
    by simp only [hb'.cycleCount_eq, hb.cycleCount_eq, hr.cycleCount_eq],
    by simp only [hr.pmArray_eq]⟩

theorem drives_congr {s t s' : Emu} {e : Event} (hr : Alike host s t) (he : drives e = true)
    (h : step host s e = .ok s') :
    ∃ t', step host t e = .ok t' ∧ t'.activeTime = s'.activeTime ∧
      t'.cycleCount = s'.cycleCount ∧ t'.pmArray = s'.pmArray := by
  cases e with
  | modWrite => simp [drives] at he
  | act a =>
    cases a with
    | retire tb => exact increment_cycles_congr h hr.pmArray_eq hr.activeTime_eq hr.cycleCount_eq
    | energyChangeParameter cc pp vv => exact change_congr hr h
    | doChangeModelParam c p v =>
      obtain ⟨cc, pp, vv, hc, hp, hv, h⟩ := do_change_model_param_ok h
      obtain ⟨t', ht, heq⟩ := change_congr hr h
      exact ⟨t', bind_ok_iff.mpr ⟨cc, hc, bind_ok_iff.mpr ⟨pp, hp, bind_ok_iff.mpr ⟨vv, hv, ht⟩⟩⟩,
        heq⟩
    | _ => simp [drives] at he

theorem alike_visible {s t s' : Emu} {e : Event} (hr : Alike host s t) (he : drives e = true)
    (h : step host s e = .ok s') : ∃ t', step host t e = .ok t' ∧ Alike host s' t' := by
  obtain ⟨t', ht, htime, hcount, hpm⟩ := drives_congr hr he h
  have hset : e.setsParameter = false := by
    cases e <;> simp_all [drives, Event.setsParameter]
  refine ⟨t', ht, htime, hcount, hpm, fun c ↦ ?_, step_metered s e s' hr.metered_left h,
    step_metered t e t' hr.metered_right ht⟩
  have hpower : power host t = power host s := by rw [power, hr.pmArray_eq, power]
  rw [owed_step hr.metered_left hset h c, owed_step hr.metered_right hset ht c, hr.owed_eq c,
    int_act_time_congr htime c, int_act_time_congr hr.activeTime_eq c, hpower]

theorem alike_init (pm : Parameters) (time : UInt64) :
    Alike host (vemuInitCycles pm time) (vemuInitCycles pm time) :=
  ⟨rfl, rfl, rfl, fun _ ↦ rfl, init_metered pm time, init_metered pm time⟩

theorem run_alike {pm : Parameters} {time : UInt64} {es fs : List Event} {s t : Emu}
    (hs : run (step host) (vemuInitCycles pm time) es = .ok s)
    (ht : run (step host) (vemuInitCycles pm time) fs = .ok t)
    (hes : ∀ e ∈ es, e.setsParameter = false) (hfs : ∀ e ∈ fs, e.setsParameter = false)
    (hsame : es.filter drives = fs.filter drives) : Alike host s t := by
  refine run_same_visible (C := fun _ e ↦ e.setsParameter = false) (R := Alike host) drives ?_ ?_
    (fun _ _ ↦ Alike.symm) (fun _ _ _ ↦ Alike.trans) hs ht
    (always_of_forall (fun e he _ ↦ hes e he) _) (always_of_forall (fun e he _ ↦ hfs e he) _)
    hsame (alike_init pm time)
  · intro s u e s' hr he _ h
    exact alike_visible hr he h
  · intro s u e s' hr he hset h
    exact alike_hidden hr he hset h

theorem read_class_congr {s s' t : Emu} {c : InstrClass} {x : UInt64} (hr : Alike host s t)
    (h : vemuGetActEnergy host s c = .ok (s', x)) :
    ∃ t', vemuGetActEnergy host t c = .ok (t', x) := by
  obtain ⟨curr, hcurr, _⟩ := bind_ok_iff.mp h
  have ht : ∃ r, vemuGetActEnergy host t c = .ok r := by
    rw [vemuGetActTime, ← hr.activeTime_eq] at hcurr
    exact ⟨_, bind_ok_iff.mpr ⟨curr, hcurr, rfl⟩⟩
  obtain ⟨⟨t', y⟩, ht⟩ := ht
  obtain ⟨_, hm, hx⟩ := get_act_energy_ok hr.metered_left h
  obtain ⟨_, hm', hy⟩ := get_act_energy_ok hr.metered_right ht
  have hacc : t'.actEnergy c = s'.actEnergy c :=
    (congrArg Meter.acc hm').trans ((hr.owed_eq c).trans (congrArg Meter.acc hm).symm)
  refine ⟨t', ?_⟩
  rw [ht, hx, hy, hacc]

theorem read_all_congr {s s' t : Emu} {x : UInt64} (hr : Alike host s t)
    (h : vemuGetActEnergyAllClasses host s = .ok (s', x)) :
    ∃ t', vemuGetActEnergyAllClasses host t = .ok (t', x) ∧ t'.activeTime = s'.activeTime := by
  obtain ⟨⟨t', y⟩, ht⟩ := (get_act_energy_all_isOk host t).mpr fun c ↦ by
    rw [vemuGetActTime, hr.activeTime_eq]
    exact (get_act_energy_all_isOk host s).mp ⟨_, h⟩ c
  obtain ⟨hs', hm, hx⟩ := get_act_energy_all_ok hr.metered_left h
  obtain ⟨ht', hm', hy⟩ := get_act_energy_all_ok hr.metered_right ht
  have hacc : t'.actEnergy = s'.actEnergy := funext fun c ↦
    (congrArg Meter.acc (hm' c)).trans ((hr.owed_eq c).trans (congrArg Meter.acc (hm c)).symm)
  refine ⟨t', ?_, ?_⟩
  · rw [ht, hx, hy, hacc]
  · rw [ht'.activeTime_eq, hr.activeTime_eq, hs'.activeTime_eq]

theorem do_info_energy_congr {s s' t : Emu} {x y : UInt64} (hr : Alike host s t)
    (h : vemuDoInfoEnergy host s = .ok (s', x, y)) :
    ∃ t' z, vemuDoInfoEnergy host t = .ok (t', x, z) ∧ t'.activeTime = s'.activeTime := by
  obtain ⟨⟨u, e⟩, hu, h⟩ := bind_ok_iff.mp h
  cases h
  obtain ⟨v, hv, htime⟩ := read_all_congr hr hu
  refine ⟨_, _, bind_ok_iff.mpr ⟨_, hv, rfl⟩, ?_⟩
  rw [slp_energy_active_time, slp_energy_active_time, htime]

theorem do_info_all_congr {s s' t : Emu} {x : UInt64 × UInt64} {y : UInt64 × UInt64}
    (hr : Alike host s t) (h : vemuDoInfoAll host s = .ok (s', x, y)) :
    ∃ t' x' y', vemuDoInfoAll host t = .ok (t', x', y') ∧ x'.1 = x.1 := by
  obtain ⟨⟨u, e⟩, hu, h⟩ := bind_ok_iff.mp h
  obtain ⟨w, hw, h⟩ := bind_ok_iff.mp h
  cases h
  obtain ⟨v, z, hv, htime⟩ := do_info_energy_congr hr hu
  obtain ⟨a, ha, _⟩ := bind_ok_iff.mp hw
  rw [act_time_all_congr htime.symm] at ha
  exact ⟨v, (x.1, z), (a, vemuGetSlpTime v),
    bind_ok_iff.mpr ⟨_, hv, bind_ok_iff.mpr ⟨_, bind_ok_iff.mpr ⟨a, ha, rfl⟩, rfl⟩⟩, rfl⟩

theorem latch_congr {s s' t : Emu} (hr : Alike host s t) (h : latch host s = .ok s') :
    ∃ t', latch host t = .ok t' ∧
      VemuState.actEnergy t'.lastState = VemuState.actEnergy s'.lastState ∧
      VemuState.totalActEnergy t'.lastState = VemuState.totalActEnergy s'.lastState := by
  have hok : ∃ t', latch host t = .ok t' := by
    have hs := latch_isOk.mp ⟨s', h⟩
    simp only [vemuGetActTime, vemuGetCycles] at hs
    rw [latch_isOk]
    simp only [vemuGetActTime, vemuGetCycles, hr.activeTime_eq, hr.cycleCount_eq,
      act_time_all_congr hr.activeTime_eq, cycles_all_congr hr.cycleCount_eq]
    exact hs
  obtain ⟨t', ht⟩ := hok
  refine ⟨t', ht, ?_⟩
  obtain ⟨u, _, r, _, hm, _, rfl, _, hr₁, _, _, hr₂, _⟩ := latch_ok hr.metered_left h
  obtain ⟨v, _, q, _, hm', _, rfl, _, hq₁, _, _, hq₂, _⟩ := latch_ok hr.metered_right ht
  have hacc : ∀ c, v.actEnergy c = u.actEnergy c := fun c ↦
    (congrArg Meter.acc (hm' c)).trans ((hr.owed_eq c).trans (congrArg Meter.acc (hm c)).symm)
  have hword : ∀ c, q.actEnergy c = r.actEnergy c := fun c ↦ by rw [hq₁, hr₁, hacc]
  constructor
  · funext c
    simpa using hword c
  · simp [hq₂, hr₂, hword]

theorem energy_read_congr {s t : Emu} {r : Event} {v : List UInt64} (hr : Alike host s t)
    (hread : r.readsEnergy = true) (h : energyRead host s r = .ok v) :
    energyRead host t r = .ok v := by
  cases r with
  | modWrite offset val =>
    obtain rfl : offset = readCmd := by simpa [Event.readsEnergy] using hread
    rw [energyRead, mod_write_read_cmd, map_eq_ok] at h ⊢
    obtain ⟨s', hs, rfl⟩ := h
    obtain ⟨t', ht, hclass, htotal⟩ := latch_congr hr hs
    exact ⟨t', ht, by rw [hclass, htotal]⟩
  | act a =>
    cases a with
    | getActEnergy c =>
      obtain ⟨⟨s', x⟩, hs, rfl⟩ := map_eq_ok.mp h
      obtain ⟨t', ht⟩ := read_class_congr hr hs
      exact map_eq_ok.mpr ⟨_, ht, rfl⟩
    | getActEnergyAllClasses =>
      obtain ⟨⟨s', x⟩, hs, rfl⟩ := map_eq_ok.mp h
      obtain ⟨t', ht, _⟩ := read_all_congr hr hs
      exact map_eq_ok.mpr ⟨_, ht, rfl⟩
    | doInfoEnergy =>
      obtain ⟨⟨s', x, y⟩, hs, rfl⟩ := map_eq_ok.mp h
      obtain ⟨t', z, ht, _⟩ := do_info_energy_congr hr hs
      exact map_eq_ok.mpr ⟨_, ht, rfl⟩
    | doInfoAll =>
      obtain ⟨⟨s', x, y⟩, hs, rfl⟩ := map_eq_ok.mp h
      obtain ⟨t', x', y', ht, hx⟩ := do_info_all_congr hr hs
      exact map_eq_ok.mpr ⟨_, ht, by rw [hx]⟩
    | _ => simp [Event.readsEnergy] at hread

/-- Two runs that retire the same instructions and change the same parameters in the same order,
whatever reads, sleeps and clock movements stand in between, answer every read alike. -/
theorem energy_reads_transparent (host : Host) (pm : Parameters) (time : UInt64)
    (es fs : List Event) (s t : Emu)
    (hs : run (step host) (vemuInitCycles pm time) es = .ok s)
    (ht : run (step host) (vemuInitCycles pm time) fs = .ok t)
    (hes : ∀ e ∈ es, e.setsParameter = false) (hfs : ∀ e ∈ fs, e.setsParameter = false)
    (hsame : es.filter drives = fs.filter drives) (r : Event) (hread : r.readsEnergy = true)
    (v : List UInt64) : energyRead host s r = .ok v ↔ energyRead host t r = .ok v := by
  have hr := run_alike hs ht hes hfs hsame
  exact ⟨energy_read_congr hr hread, energy_read_congr hr.symm hread⟩

def interspersed : List Event :=
  [load, .act (.getActEnergy 0), .modWrite readCmd 0, .act .sleepStart, .act (.clock 7),
    .act .activeStart, .act (.energyChangeParameter 0 0 (.rat (2 * 10 ^ 9))), load]

theorem interspersed_transparent :
    ∃ s t, run (step linearHost) (vemuInitCycles gigahertz 0) interspersed = .ok s ∧
      run (step linearHost) (vemuInitCycles gigahertz 0) (interspersed.filter drives) = .ok t ∧
      energyRead linearHost s (.modWrite readCmd 0) = .ok [5000000000, 0, 0, 0, 5000000000] ∧
      energyRead linearHost t (.modWrite readCmd 0) = .ok [5000000000, 0, 0, 0, 5000000000] := by
  have hs : Ends (fun s ↦ energyRead linearHost s (.modWrite readCmd 0) =
      .ok [5000000000, 0, 0, 0, 5000000000])
      (run (step linearHost) (vemuInitCycles gigahertz 0) interspersed) := by
    decide +kernel
  have ht : Ends (fun _ ↦ True) (run (step linearHost) (vemuInitCycles gigahertz 0)
      (interspersed.filter drives)) := by
    decide +kernel
  obtain ⟨s, hs, hv⟩ := hs.exists
  obtain ⟨t, ht, _⟩ := ht.exists
  have hiff := energy_reads_transparent linearHost gigahertz 0 _ _ s t hs ht (by decide)
    (by decide) (by simp) (.modWrite readCmd 0) rfl
  exact ⟨s, t, hs, ht, hv, (hiff _).mp hv⟩

end VarEmu.Emulator.EnergyReads
