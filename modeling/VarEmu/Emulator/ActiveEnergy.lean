import VarEmu.Emulator.Machine

namespace VarEmu.Emulator.ActiveEnergy

open State Cycles Energy Device Monitor Machine Library.Execution Library.Metering

variable (host : Host)

def power (s : Emu) : ℚ := host.actPower s.pmArray

/-- The active energy of a class, the time that has not been priced yet included. -/
def owed (s : Emu) (c : InstrClass) : ℚ := (meter s c).due (intActTime s c) (power host s)

inductive EnergyStep (s s' : Emu) (e : Event) : Prop
  | idle (hread : e.readsEnergy = false) (hchange : e.changesParameter = false)
      (htime : ∀ c, s.activeTime c ≤ s'.activeTime c) (hpm : s'.pmArray = s.pmArray)
      (hmeter : ∀ c, meter s' c = meter s c)
  | read (hread : e.readsEnergy = true) (hchange : e.changesParameter = false)
      (htime : s'.activeTime = s.activeTime) (hpm : s'.pmArray = s.pmArray)
      (hmeter : ∀ c, meter s' c = meter s c ∨
        meter s' c = (meter s c).flush (intActTime s c) (power host s))
      (hflush : ∀ c, e.readsClass c = true →
        meter s' c = (meter s c).flush (intActTime s c) (power host s))
  | change (hread : e.readsEnergy = false) (hset : e.setsParameter = false)
      (hchange : e.changesParameter = true) (htime : s'.activeTime = s.activeTime)
      (hflush : ∀ c, meter s' c = (meter s c).flush (intActTime s c) (power host s))
  | set (hread : e.readsEnergy = false) (hset : e.setsParameter = true)
      (htime : s'.activeTime = s.activeTime) (hmeter : ∀ c, meter s' c = meter s c)

variable {host}

theorem int_act_time_congr {s s' : Emu} (h : s'.activeTime = s.activeTime) (c : InstrClass) :
    intActTime s' c = intActTime s c := by
  unfold intActTime
  rw [h]

theorem slp_energy_meter (s : Emu) (c : InstrClass) :
    meter (vemuGetSlpEnergy host s).1 c = meter s c := by
  unfold vemuGetSlpEnergy
  dsimp only
  split_ifs <;> rfl

theorem slp_energy_active_time (s : Emu) :
    (vemuGetSlpEnergy host s).1.activeTime = s.activeTime := by
  unfold vemuGetSlpEnergy
  dsimp only
  split_ifs <;> rfl

theorem read_all_step {s t s' : Emu} {x : UInt64} {e : Event} (hs : Metered s)
    (hread : e.readsEnergy = true) (hchange : e.changesParameter = false)
    (ht : vemuGetActEnergyAllClasses host s = .ok (t, x)) (hbooks : Books t s')
    (hmeter : ∀ c, meter s' c = meter t c) : EnergyStep host s s' e := by
  obtain ⟨hr, hm, _⟩ := get_act_energy_all_ok hs ht
  have hflush : ∀ c, meter s' c = (meter s c).flush (intActTime s c) (power host s) :=
    fun c ↦ (hmeter c).trans (hm c)
  refine .read hread hchange ?_ ?_ (fun c ↦ .inr (hflush c)) (fun c _ ↦ hflush c)
  · rw [hbooks, hr.activeTime_eq]
  · rw [hbooks, hr.pmArray_eq]

theorem change_step {s s' : Emu} {cc pp : UInt8} {vv : Double} {e : Event} (hs : Metered s)
    (hread : e.readsEnergy = false) (hset : e.setsParameter = false)
    (hchange : e.changesParameter = true)
    (h : vemuEnergyChangeParameter host s cc pp vv = .ok s') : EnergyStep host s s' e := by
  obtain ⟨t, u, x, p, ht, hu, _, rfl⟩ := energy_change_parameter_ok h
  obtain ⟨hr, hm, _⟩ := get_act_energy_all_ok hs ht
  have htime : u.activeTime = t.activeTime := hu ▸ slp_energy_active_time t
  have hmeter : ∀ c, meter u c = meter t c := fun c ↦ hu ▸ slp_energy_meter t c
  refine .change hread hset hchange ?_ ?_
  · exact htime.trans hr.activeTime_eq
  · intro c
    exact (hmeter c).trans (hm c)

theorem latch_step {s s' : Emu} {e : Event} (hs : Metered s) (hread : e.readsEnergy = true)
    (hchange : e.changesParameter = false) (h : latch host s = .ok s') :
    EnergyStep host s s' e := by
  obtain ⟨t, u, r, hr, hm, hu, rfl, _⟩ := latch_ok hs h
  have hbooks : Books t u := hu ▸ get_slp_energy_books host t
  have htime : u.activeTime = t.activeTime := hu ▸ slp_energy_active_time t
  have hmeter : ∀ c, meter u c = meter t c := fun c ↦ hu ▸ slp_energy_meter t c
  have hflush : ∀ c, meter u c = (meter s c).flush (intActTime s c) (power host s) :=
    fun c ↦ (hmeter c).trans (hm c)
  refine .read hread hchange ?_ ?_ (fun c ↦ .inr (hflush c)) (fun c _ ↦ hflush c)
  · exact htime.trans hr.activeTime_eq
  · exact hbooks.pmArray_eq.trans hr.pmArray_eq

theorem mod_write_step {s s' : Emu} {offset val : UInt64} (hs : Metered s)
    (h : vemuModWrite host s offset val = .ok s') :
    EnergyStep host s s' (.modWrite offset val) := by
  unfold vemuModWrite at h
  split_ifs at h with hfaults hfreq hvolt hcmd
  · cases h
    subst hfaults
    exact .idle rfl rfl (fun _ ↦ le_rfl) rfl (fun _ ↦ rfl)
  · obtain ⟨p, _, rfl⟩ := pm_change_parameter_ok h
    subst hfreq
    exact .set rfl rfl rfl (fun _ ↦ rfl)
  · obtain ⟨p, _, rfl⟩ := pm_change_parameter_ok h
    subst hvolt
    exact .set rfl rfl rfl (fun _ ↦ rfl)
  · subst hcmd
    exact latch_step hs rfl rfl h
  · cases h
    refine .idle ?_ ?_ (fun _ ↦ le_rfl) rfl (fun _ ↦ rfl)
    · simpa [Event.readsEnergy] using hcmd
    · simpa [Event.changesParameter, Event.setsParameter] using ⟨hfreq, hvolt⟩

theorem step_energy {s s' : Emu} {e : Event} (hs : Metered s) (h : step host s e = .ok s') :
    EnergyStep host s s' e := by
  cases e with
  | modWrite offset val => exact mod_write_step hs h
  | act a =>
    cases a with
    | retire tb =>
      refine .idle rfl rfl (increment_active_time_le h) ?_ fun c ↦ ?_
      all_goals
        obtain ⟨d, hz, _, _, _, rfl⟩ := increment_cycles_ok h
        rfl
    | clock now =>
      cases h
      exact .idle rfl rfl (fun _ ↦ le_rfl) rfl (fun _ ↦ rfl)
    | sleepStart =>
      obtain ⟨act, _, rfl⟩ := sleep_start_ok h
      exact .idle rfl rfl (fun _ ↦ le_rfl) rfl (fun _ ↦ rfl)
    | activeStart =>
      rcases active_start_ok h with ⟨_, rfl⟩ | ⟨_, act, _, rfl⟩
      · exact .idle rfl rfl (fun _ ↦ le_rfl) rfl (fun _ ↦ rfl)
      · exact .idle rfl rfl (fun _ ↦ le_rfl) rfl (fun _ ↦ rfl)
    | getActEnergy d =>
      obtain ⟨⟨t, x⟩, ht, rfl⟩ := map_eq_ok.mp h
      obtain ⟨hr, hm, _⟩ := get_act_energy_ok hs ht
      refine .read rfl rfl hr.activeTime_eq hr.pmArray_eq hr.meters ?_
      intro c hc
      obtain rfl : d = c := by simpa [Event.readsClass] using hc
      exact hm
    | getActEnergyAllClasses =>
      obtain ⟨⟨t, x⟩, ht, rfl⟩ := map_eq_ok.mp h
      exact read_all_step hs rfl rfl ht (.refl t) (fun _ ↦ rfl)
    | doInfoTime =>
      obtain ⟨_, _, rfl⟩ := map_eq_ok.mp h
      exact .idle rfl rfl (fun _ ↦ le_rfl) rfl (fun _ ↦ rfl)
    | doInfoEnergy =>
      obtain ⟨r, hr, rfl⟩ := map_eq_ok.mp h
      obtain ⟨t, x, ht, hr⟩ := do_info_energy_ok hr
      rw [hr]
      exact read_all_step hs rfl rfl ht (get_slp_energy_books host t) (slp_energy_meter t)
    | doInfoAll =>
      obtain ⟨r, hr, rfl⟩ := map_eq_ok.mp h
      obtain ⟨q, hq, hr⟩ := do_info_all_ok hr
      obtain ⟨t, x, ht, hq⟩ := do_info_energy_ok hq
      rw [hr, hq]
      exact read_all_step hs rfl rfl ht (get_slp_energy_books host t) (slp_energy_meter t)
    | energyChangeParameter cc pp vv => exact change_step hs rfl rfl rfl h
    | doChangeModelParam c p v =>
      obtain ⟨cc, pp, vv, _, _, _, h⟩ := do_change_model_param_ok h
      exact change_step hs rfl rfl rfl h

theorem EnergyStep.metered {s s' : Emu} {e : Event} (h : EnergyStep host s s' e)
    (hs : Metered s) : Metered s' := by
  intro c
  cases h with
  | idle _ _ htime _ hmeter =>
    rw [meter_ckpt_eq (hmeter c)]
    exact (hs c).trans (Nat.floor_le_floor (htime c))
  | read _ _ htime _ hmeter _ =>
    rw [int_act_time_congr htime]
    rcases hmeter c with hm | hm
    · rw [meter_ckpt_eq hm]
      exact hs c
    · rw [meter_flush_ckpt hm]
  | change _ _ _ htime hflush =>
    rw [int_act_time_congr htime, meter_flush_ckpt (hflush c)]
  | set _ _ htime hmeter =>
    rw [int_act_time_congr htime, meter_ckpt_eq (hmeter c)]
    exact hs c

theorem step_metered (s : Emu) (e : Event) (s' : Emu) (hs : Metered s)
    (h : step host s e = .ok s') : Metered s' :=
  (step_energy hs h).metered hs

theorem init_metered (pm : Parameters) (time : UInt64) : Metered (vemuInitCycles pm time) :=
  fun _ ↦ Nat.zero_le _

theorem init_owed (pm : Parameters) (time : UInt64) (c : InstrClass) :
    owed host (vemuInitCycles pm time) c = 0 := by
  simp [owed, meter, Meter.due, vemuInitCycles, intActTime]

variable (host) in
/-- The parameter changes of a run, each with the integer active time of the class when it is
made and the power it brings into force. -/
def changes (c : InstrClass) : Emu → List Event → List (ℚ × ℚ)
  | _, [] => []
  | s, e :: es => match step host s e with
    | .ok s' =>
      if e.changesParameter then (↑(intActTime s c), power host s') :: changes c s' es
      else changes c s' es
    | .error _ => []

def guestParameters (pm : Parameters) : Event → Parameters
  | .modWrite offset val =>
    if offset = setFrequency then Function.update pm 0 (.ofUInt64 val)
    else if offset = setVoltage then
      Function.update pm 1 ((Double.ofUInt64 val).scale (1 / 1000))
    else pm
  | .act _ => pm

variable (host) in
/-- The guest changes a parameter only when the class has no active time that is still to be
priced, or when the change leaves the active power as it is. -/
def Settled (c : InstrClass) (s : Emu) (e : Event) : Prop :=
  e.setsParameter = true → intActTime s c = (s.actTimeCkpt c).toNat ∨
    host.actPower (guestParameters s.pmArray e) = host.actPower s.pmArray

instance (host : Host) (c : InstrClass) (s : Emu) (e : Event) : Decidable (Settled host c s e) :=
  inferInstanceAs (Decidable (_ → _ ∨ _))

theorem set_power {s s' : Emu} {e : Event} (he : e.setsParameter = true)
    (h : step host s e = .ok s') : power host s' = host.actPower (guestParameters s.pmArray e) := by
  cases e with
  | act a => simp [Event.setsParameter] at he
  | modWrite offset val =>
    have hoff : offset = setFrequency ∨ offset = setVoltage := by
      simpa [Event.setsParameter] using he
    rcases hoff with rfl | rfl
    · rw [step, mod_write_set_frequency] at h
      obtain ⟨p, hp, rfl⟩ := pm_change_parameter_ok h
      obtain rfl : p = 0 := Fin.ext hp
      rfl
    · rw [step, mod_write_set_voltage] at h
      obtain ⟨p, hp, rfl⟩ := pm_change_parameter_ok h
      obtain rfl : p = 1 := Fin.ext hp
      rfl

theorem owed_set {s s' : Emu} {e : Event} (hs : Metered s) (he : e.setsParameter = true)
    (h : step host s e = .ok s') (c : InstrClass) :
    intActTime s' c = intActTime s c ∧
      owed host s' c = owed host s c +
        (intActTime s c - (s.actTimeCkpt c).toNat) * (power host s' - power host s) := by
  cases step_energy hs h with
  | set _ _ htime hmeter =>
    have ht := int_act_time_congr htime c
    refine ⟨ht, ?_⟩
    rw [owed, hmeter c, ht, Meter.due_reprice _ _ (power host s), owed, meter]
  | idle _ hchange | read _ hchange =>
    cases e <;> simp_all [Event.changesParameter, Event.setsParameter]
  | change _ hset => simp_all

theorem owed_step {s s' : Emu} {e : Event} (hs : Metered s) (he : e.setsParameter = false)
    (h : step host s e = .ok s') (c : InstrClass) :
    owed host s' c = owed host s c + (intActTime s' c - intActTime s c) * power host s := by
  cases step_energy hs h with
  | idle _ _ _ hpm hmeter =>
    have hp : power host s' = power host s := by rw [power, hpm, power]
    rw [owed, hmeter c, hp, Meter.due_advance _ (intActTime s c : ℚ), owed]
  | read _ _ htime hpm hmeter _ =>
    have hp : power host s' = power host s := by rw [power, hpm, power]
    have ht := int_act_time_congr htime c
    rw [ht, sub_self, zero_mul, add_zero, owed, ht, hp, owed]
    rcases hmeter c with hm | hm
    · rw [hm]
    · rw [hm, Meter.due_flush]
  | change _ _ _ htime hflush =>
    have ht := int_act_time_congr htime c
    rw [ht, sub_self, zero_mul, add_zero, owed, ht, hflush c, Meter.due_flush_self, owed]
  | set _ hset => simp_all

theorem power_step {s s' : Emu} {e : Event} (hs : Metered s) (he : e.changesParameter = false)
    (h : step host s e = .ok s') : power host s' = power host s := by
  cases step_energy hs h with
  | idle _ _ _ hpm | read _ _ _ hpm => rw [power, hpm, power]
  | change _ _ hchange => simp_all
  | set _ hset => cases e <;> simp_all [Event.changesParameter, Event.setsParameter]

theorem change_time {s s' : Emu} {e : Event} (hs : Metered s) (he : e.changesParameter = true)
    (h : step host s e = .ok s') (c : InstrClass) : intActTime s' c = intActTime s c := by
  cases step_energy hs h with
  | idle _ hchange | read _ hchange => simp_all
  | change _ _ _ htime | set _ _ htime => exact int_act_time_congr htime c

theorem owed_change {s s' : Emu} {e : Event} {c : InstrClass} (hs : Metered s)
    (he : e.changesParameter = true) (hset : Settled host c s e) (h : step host s e = .ok s') :
    owed host s' c = owed host s c := by
  cases hg : e.setsParameter
  · rw [owed_step hs hg h c, change_time hs he h c]
    ring
  · rw [(owed_set hs hg h c).2, set_power hg h]
    rcases hset hg with ht | hp
    · rw [ht]
      ring
    · rw [hp, power]
      ring

theorem owed_run {s t : Emu} {es : List Event} {c : InstrClass} (hs : Metered s)
    (h : run (step host) s es = .ok t) (hset : Always (step host) (Settled host c) s es) :
    owed host t c = owed host s c +
      bill ↑(intActTime s c) (power host s) (changes host c s es) ↑(intActTime t c) := by
  induction es generalizing s with
  | nil =>
    rw [run_nil_eq_ok] at h
    subst h
    rw [changes, bill_self, add_zero]
  | cons e es ih =>
    obtain ⟨s', he, hr⟩ := run_cons_eq_ok.mp h
    rw [always_cons he] at hset
    have hih := ih (step_metered s e s' hs he) hr hset.2
    simp only [changes, he]
    cases hc : e.changesParameter
    · have hg : e.setsParameter = false := by
        cases e <;> simp_all [Event.changesParameter, Event.setsParameter]
      rw [power_step hs hc he] at hih
      simp only [Bool.false_eq_true, ↓reduceIte]
      rw [hih, owed_step hs hg he c, bill_advance (intActTime s c : ℚ) (intActTime s' c : ℚ)]
      ring
    · rw [change_time hs hc he c] at hih
      simp only [↓reduceIte]
      rw [hih, owed_change hs hc hset.1 he, bill_change]

theorem read_class_ok {s s' : Emu} {e : Event} {c : InstrClass} (hs : Metered s)
    (he : e.readsClass c = true) (h : step host s e = .ok s') :
    s'.actEnergy c = owed host s c ∧ intActTime s' c = intActTime s c ∧
      changes host c s [e] = [] := by
  cases step_energy hs h with
  | read _ hchange htime _ _ hflush =>
    refine ⟨congrArg Meter.acc (hflush c he), int_act_time_congr htime c, ?_⟩
    simp [changes, h, hchange]
  | idle hread | change hread | set hread =>
    rcases e with a | _
    · cases a <;> simp_all [Event.readsClass, Event.readsEnergy]
    · simp_all [Event.readsClass, Event.readsEnergy]

theorem changes_append {s t : Emu} {es fs : List Event} {c : InstrClass}
    (h : run (step host) s es = .ok t) :
    changes host c s (es ++ fs) = changes host c s es ++ changes host c t fs := by
  induction es generalizing s with
  | nil =>
    rw [run_nil_eq_ok] at h
    simp [changes, h]
  | cons e es ih =>
    obtain ⟨s', he, hr⟩ := run_cons_eq_ok.mp h
    simp only [List.cons_append, changes, he, ih hr]
    split_ifs <;> simp

variable (host) in
/-- The accumulator of a class holds what the run cost: each stretch between two parameter
changes at the power in force during it. -/
def PricedInForce (c : InstrClass) (pm : Parameters) (time : UInt64) (es : List Event) (s : Emu) :
    Prop :=
  s.actEnergy c = bill 0 (host.actPower pm) (changes host c (vemuInitCycles pm time) es)
    (intActTime s c)

instance (host : Host) (c : InstrClass) (pm : Parameters) (time : UInt64) (es : List Event)
    (s : Emu) : Decidable (PricedInForce host c pm time es s) :=
  inferInstanceAs (Decidable (_ = _))

/-- In a run whose guest writes all find the class settled, every read leaves the accumulator
with the bill of the run. A guest write that comes next is charged to the right segments if and
only if it finds the class settled too. -/
theorem act_energy_priced_in_force (host : Host) (c : InstrClass) (pm : Parameters) (time : UInt64)
    (es : List Event) (t : Emu)
    (hrun : run (step host) (vemuInitCycles pm time) es = .ok t)
    (hset : Always (step host) (Settled host c) (vemuInitCycles pm time) es) :
    (∀ r s, r.readsClass c = true → step host t r = .ok s →
      PricedInForce host c pm time (es ++ [r]) s) ∧
    (∀ w r u s, w.setsParameter = true → r.readsClass c = true → step host t w = .ok u →
      step host u r = .ok s →
      (PricedInForce host c pm time (es ++ [w, r]) s ↔ Settled host c t w)) := by
  have hm := init_metered pm time
  have ht : Metered t := run_preserves step_metered hrun hm
  have howed := owed_run hm hrun hset
  rw [init_owed, zero_add] at howed
  have hzero : intActTime (vemuInitCycles pm time) c = 0 := by simp [intActTime, vemuInitCycles]
  have hpower : power host (vemuInitCycles pm time) = host.actPower pm := rfl
  rw [hzero, Nat.cast_zero, hpower] at howed
  constructor
  · intro r s hr hs
    obtain ⟨hacc, htime, hnil⟩ := read_class_ok ht hr hs
    rw [PricedInForce, changes_append hrun, hnil, List.append_nil, hacc, htime]
    exact howed
  · intro w r u s hw hr hu hs
    obtain ⟨htime, hreprice⟩ := owed_set ht hw hu c
    obtain ⟨hacc, htime', hnil⟩ := read_class_ok (step_metered t w u ht hu) hr hs
    have hchange : changes host c t [w, r] = [(↑(intActTime t c), power host u)] := by
      have hc : w.changesParameter = true := by
        cases w <;> simp_all [Event.changesParameter, Event.setsParameter]
      simpa [changes, hu, hc] using hnil
    rw [PricedInForce, changes_append hrun, hchange, bill_append_cons, hacc, htime', htime,
      bill_self, add_zero, hreprice, ← howed, add_eq_left, mul_eq_zero, sub_eq_zero, sub_eq_zero,
      set_power hw hu]
    simp [Settled, hw, power]

def settledRun : List Event :=
  [load, .act (.getActEnergy 0), .modWrite setFrequency (2 * 10 ^ 9), load]

theorem settled_run_priced :
    ∃ t s, run (step linearHost) (vemuInitCycles gigahertz 0) settledRun = .ok t ∧
      step linearHost t (.act (.getActEnergy 0)) = .ok s ∧
      PricedInForce linearHost 0 gigahertz 0 (settledRun ++ [.act (.getActEnergy 0)]) s := by
  have hok : Ends (fun _ ↦ True) (run (step linearHost) (vemuInitCycles gigahertz 0)
      (settledRun ++ [.act (.getActEnergy 0)])) := by
    decide +kernel
  obtain ⟨s, hrun, _⟩ := hok.exists
  obtain ⟨t, ht, hs⟩ := run_snoc_eq_ok.mp hrun
  have hset : Always (step linearHost) (Settled linearHost 0) (vemuInitCycles gigahertz 0)
      settledRun := by
    decide +kernel
  exact ⟨t, s, ht, hs,
    (act_energy_priced_in_force linearHost 0 gigahertz 0 settledRun t ht hset).1 _ s rfl hs⟩

theorem unsettled_run_mispriced :
    ∃ s, run (step linearHost) (vemuInitCycles gigahertz 0)
        [load, .modWrite setFrequency (2 * 10 ^ 9), .act (.getActEnergy 0)] = .ok s ∧
      ¬ PricedInForce linearHost 0 gigahertz 0
        [load, .modWrite setFrequency (2 * 10 ^ 9), .act (.getActEnergy 0)] s := by
  apply Ends.exists
  decide +kernel

end VarEmu.Emulator.ActiveEnergy
