import VarEmu.Emulator.Energy

namespace VarEmu.Emulator.Device

open State Cycles Energy Library.Execution Library.Metering Library.Truncation
open scoped BigOperators

abbrev setFaults : UInt64 := 0x000

abbrev setFrequency : UInt64 := setFaults + 8

abbrev setVoltage : UInt64 := setFrequency + 8

abbrev readCmd : UInt64 := 0xD00

abbrev exitCmd : UInt64 := 0xF00

variable (host : Host)

def noRegs : VemuRegs where
  actTime := fun _ ↦ 0
  actEnergy := fun _ ↦ 0
  cycles := fun _ ↦ 0
  totalActTime := 0
  totalActEnergy := 0
  totalCycles := 0
  slpTime := 0
  slpEnergy := 0
  faultStatus := 0
  frequency := 0
  voltage := 0

def latchClass (p : Emu × VemuRegs) (c : InstrClass) : Except Fault (Emu × VemuRegs) := do
  let (s, r) := p
  let actTime ← vemuGetActTime s c
  let (s, actEnergy) ← vemuGetActEnergy host s c
  let cycles ← vemuGetCycles s c
  .ok (s, { r with
    actTime := Function.update r.actTime c actTime
    actEnergy := Function.update r.actEnergy c actEnergy
    cycles := Function.update r.cycles c cycles })

/-- The `READ_CMD` case: the classes one by one, then the totals, each through its own getter. -/
def latch (s : Emu) : Except Fault Emu := do
  let (s, r) ← (List.finRange maxInstrClasses).foldlM (latchClass host) (s, noRegs)
  let totalActTime ← vemuGetActTimeAllClasses s
  let (s, totalActEnergy) ← vemuGetActEnergyAllClasses host s
  let totalCycles ← vemuGetCyclesAllClasses s
  let slpTime := vemuGetSlpTime s
  let slp := vemuGetSlpEnergy host s
  .ok { slp.1 with
    lastState := VemuRegs.array64 { r with
      totalActTime, totalActEnergy, totalCycles, slpTime
      slpEnergy := slp.2
      faultStatus := slp.1.vemuErrorsEnabled
      frequency := host.word (slp.1.pmArray 0)
      voltage := host.word ((slp.1.pmArray 1).scale 1000) } }

/-- A guest write to the module. Other offsets are ignored, and so is the access size. -/
def vemuModWrite (s : Emu) (offset val : UInt64) : Except Fault Emu :=
  if offset = setFaults then .ok { s with vemuErrorsEnabled := val }
  else if offset = setFrequency then vemuPmChangeParameter s 0 0 (.ofUInt64 val)
  else if offset = setVoltage then
    vemuPmChangeParameter s 0 1 ((Double.ofUInt64 val).scale (1 / 1000))
  else if offset = readCmd then latch host s
  else if offset = exitCmd then .error .exit
  else .ok s

variable {host}

theorem mod_write_set_faults (s : Emu) (val : UInt64) :
    vemuModWrite host s setFaults val = .ok { s with vemuErrorsEnabled := val } :=
  if_pos rfl

theorem mod_write_set_frequency (s : Emu) (val : UInt64) :
    vemuModWrite host s setFrequency val = vemuPmChangeParameter s 0 0 (.ofUInt64 val) := by
  unfold vemuModWrite
  rw [if_neg (by decide), if_pos rfl]

theorem mod_write_set_voltage (s : Emu) (val : UInt64) :
    vemuModWrite host s setVoltage val =
      vemuPmChangeParameter s 0 1 ((Double.ofUInt64 val).scale (1 / 1000)) := by
  unfold vemuModWrite
  rw [if_neg (by decide), if_neg (by decide), if_pos rfl]

theorem mod_write_read_cmd (s : Emu) (val : UInt64) :
    vemuModWrite host s readCmd val = latch host s := by
  unfold vemuModWrite
  rw [if_neg (by decide), if_neg (by decide), if_neg (by decide), if_pos rfl]

theorem latch_classes_books {cs : List InstrClass} {p q : Emu × VemuRegs}
    (h : cs.foldlM (latchClass host) p = .ok q) : Books p.1 q.1 := by
  induction cs generalizing p with
  | nil =>
    cases h
    exact .refl _
  | cons c cs ih =>
    obtain ⟨r, hr, h⟩ := bind_ok_iff.mp h
    obtain ⟨t, _, hr⟩ := bind_ok_iff.mp hr
    obtain ⟨⟨s, e⟩, he, hr⟩ := bind_ok_iff.mp hr
    obtain ⟨n, _, hr⟩ := bind_ok_iff.mp hr
    cases hr
    exact (get_act_energy_books he).trans (ih h)

variable (host) in
theorem latch_classes_isOk (cs : List InstrClass) (p : Emu × VemuRegs) :
    (∃ q, cs.foldlM (latchClass host) p = .ok q) ↔
      ∀ c ∈ cs, (∃ t, vemuGetActTime p.1 c = .ok t) ∧ ∃ n, vemuGetCycles p.1 c = .ok n := by
  induction cs generalizing p with
  | nil => exact ⟨fun _ c hc ↦ absurd hc List.not_mem_nil, fun _ ↦ ⟨p, rfl⟩⟩
  | cons c cs ih =>
    simp only [List.foldlM_cons, bind_ok_iff, List.forall_mem_cons]
    constructor
    · rintro ⟨r, q, hq, hr⟩
      have hcs := (ih q).mp ⟨r, hr⟩
      obtain ⟨t, ht, hq⟩ := bind_ok_iff.mp hq
      obtain ⟨⟨s, e⟩, he, hq⟩ := bind_ok_iff.mp hq
      obtain ⟨n, hn, hq⟩ := bind_ok_iff.mp hq
      cases hq
      have hb := get_act_energy_books he
      simp only [vemuGetActTime, vemuGetCycles, hb.activeTime_eq, hb.cycleCount_eq] at hcs hn
      exact ⟨⟨⟨t, ht⟩, n, hn⟩, hcs⟩
    · rintro ⟨⟨⟨t, ht⟩, n, hn⟩, hcs⟩
      have he : ∃ r, vemuGetActEnergy host p.1 c = .ok r := by
        simp [vemuGetActEnergy, ht, bind, Except.bind]
      obtain ⟨⟨s, e⟩, he⟩ := he
      have hb := get_act_energy_books he
      have hn' : vemuGetCycles s c = .ok n := by
        rw [vemuGetCycles, hb.cycleCount_eq]
        exact hn
      have hq : ∃ q, latchClass host p c = .ok q ∧ q.1 = s := by
        simp [latchClass, ht, he, hn', bind, Except.bind]
      obtain ⟨q, hq, rfl⟩ := hq
      obtain ⟨r, hr⟩ := (ih q).mpr fun d hd ↦ by
        simpa only [vemuGetActTime, vemuGetCycles, hb.activeTime_eq, hb.cycleCount_eq]
          using hcs d hd
      exact ⟨r, q, hq, hr⟩

theorem latch_isOk {s : Emu} :
    (∃ s', latch host s = .ok s') ↔
      (∀ c, (∃ t, vemuGetActTime s c = .ok t) ∧ ∃ n, vemuGetCycles s c = .ok n) ∧
      (∃ t, vemuGetActTimeAllClasses s = .ok t) ∧ ∃ n, vemuGetCyclesAllClasses s = .ok n := by
  constructor
  · rintro ⟨s', h⟩
    obtain ⟨⟨u, r⟩, hloop, h⟩ := bind_ok_iff.mp h
    obtain ⟨t, ht, h⟩ := bind_ok_iff.mp h
    obtain ⟨⟨v, e⟩, he, h⟩ := bind_ok_iff.mp h
    obtain ⟨n, hn, _⟩ := bind_ok_iff.mp h
    have hb := latch_classes_books hloop
    have hv := hb.trans (get_act_energy_all_books he)
    refine ⟨?_, ⟨t, ?_⟩, n, ?_⟩
    · intro c
      exact (latch_classes_isOk host _ _).mp ⟨_, hloop⟩ c (List.mem_finRange c)
    · rw [← ht, act_time_all_congr hb.activeTime_eq.symm]
    · rw [← hn, cycles_all_congr hv.cycleCount_eq.symm]
  · rintro ⟨hcs, ⟨t, ht⟩, n, hn⟩
    obtain ⟨⟨u, r⟩, hloop⟩ := (latch_classes_isOk host (List.finRange maxInstrClasses)
      (s, noRegs)).mpr fun c _ ↦ hcs c
    have hb := latch_classes_books hloop
    obtain ⟨⟨v, e⟩, he⟩ := (get_act_energy_all_isOk host u).mpr fun c ↦ by
      rw [vemuGetActTime, hb.activeTime_eq]
      exact (hcs c).1
    have hv := hb.trans (get_act_energy_all_books he)
    rw [← act_time_all_congr hb.activeTime_eq] at ht
    rw [← cycles_all_congr hv.cycleCount_eq] at hn
    exact ⟨_, bind_ok_iff.mpr ⟨_, hloop, bind_ok_iff.mpr ⟨_, ht, bind_ok_iff.mpr ⟨_, he,
      bind_ok_iff.mpr ⟨_, hn, rfl⟩⟩⟩⟩⟩

theorem latch_classes_words {cs : List InstrClass} {p q : Emu × VemuRegs} (hs : Metered p.1)
    (h : cs.foldlM (latchClass host) p = .ok q) :
    Reads host p.1 q.1 ∧ (∀ c ∈ cs,
        meter q.1 c = (meter p.1 c).flush (intActTime p.1 c) (host.actPower p.1.pmArray) ∧
        (q.2.actTime c).toNat = intActTime p.1 c ∧
        q.2.actEnergy c = host.word (.rat (q.1.actEnergy c)) ∧
        (q.2.cycles c).toNat = ⌊p.1.cycleCount c⌋₊) ∧
      ∀ c ∉ cs, q.2.actTime c = p.2.actTime c ∧ q.2.actEnergy c = p.2.actEnergy c ∧
        q.2.cycles c = p.2.cycles c := by
  induction cs generalizing p with
  | nil =>
    cases h
    exact ⟨.refl _, by simp, fun c _ ↦ ⟨rfl, rfl, rfl⟩⟩
  | cons c cs ih =>
    obtain ⟨r, hr, h⟩ := bind_ok_iff.mp h
    obtain ⟨t, ht, hr⟩ := bind_ok_iff.mp hr
    obtain ⟨⟨s, e⟩, he, hr⟩ := bind_ok_iff.mp hr
    obtain ⟨n, hn, hr⟩ := bind_ok_iff.mp hr
    cases hr
    obtain ⟨hread, hm, hword⟩ := get_act_energy_ok hs he
    obtain ⟨hrest, hin, hout⟩ := ih (hread.metered hs) h
    have hcount : s.cycleCount = p.1.cycleCount := by rw [hread.frame]
    rw [act_time_eq_ok] at ht
    rw [cycles_eq_ok, hcount] at hn
    refine ⟨hread.trans hrest, ?_, ?_⟩
    · intro d hd
      by_cases hdc : d ∈ cs
      · obtain ⟨hmd, htd, hed, hnd⟩ := hin d hdc
        simp only [hread.intActTime_eq, hcount] at htd hnd
        exact ⟨hread.flush_of hmd, htd, hed, hnd⟩
      · obtain rfl : d = c := by simpa [hdc] using hd
        -- Later turns of the loop find this class settled.
        have hkeep : meter q.1 d = meter s d := by
          apply hrest.keeps (m := meter p.1 d)
          rw [hread.intActTime_eq, hread.pmArray_eq, hm]
        have hacc : q.1.actEnergy d = s.actEnergy d := congrArg Meter.acc hkeep
        obtain ⟨htd, hed, hnd⟩ := hout d hdc
        rw [htd, hed, hnd, hacc]
        simp only [Function.update_self]
        exact ⟨hkeep.trans hm, ht, hword, hn⟩
    · intro d hd
      obtain ⟨hne, hdc⟩ : d ≠ c ∧ d ∉ cs := by simpa using hd
      obtain ⟨htd, hed, hnd⟩ := hout d hdc
      simp only [Function.update_of_ne hne] at htd hed hnd
      exact ⟨htd, hed, hnd⟩

/-- What a latched snapshot holds, word by word, and what latching does to the state. -/
theorem latch_ok {s s' : Emu} (hs : Metered s) (h : latch host s = .ok s') :
    ∃ (t u : Emu) (r : VemuRegs), Reads host s t ∧
      (∀ c, meter t c = (meter s c).flush (intActTime s c) (host.actPower s.pmArray)) ∧
      (vemuGetSlpEnergy host t).1 = u ∧ s' = { u with lastState := r.array64 } ∧
      (∀ c, (r.actTime c).toNat = intActTime s c) ∧
      (∀ c, r.actEnergy c = host.word (.rat (t.actEnergy c))) ∧
      (∀ c, (r.cycles c).toNat = ⌊s.cycleCount c⌋₊) ∧
      vemuGetActTimeAllClasses s = .ok r.totalActTime ∧
      r.totalActEnergy = ∑ c, r.actEnergy c ∧
      vemuGetCyclesAllClasses s = .ok r.totalCycles ∧
      r.slpTime = vemuGetSlpTime s ∧
      r.faultStatus = s.vemuErrorsEnabled := by
  obtain ⟨⟨u, r⟩, hloop, h⟩ := bind_ok_iff.mp h
  obtain ⟨totalActTime, htime, h⟩ := bind_ok_iff.mp h
  obtain ⟨⟨t, totalActEnergy⟩, henergy, h⟩ := bind_ok_iff.mp h
  obtain ⟨totalCycles, hcycles, h⟩ := bind_ok_iff.mp h
  have hslp := get_slp_energy_books host t
  generalize he : vemuGetSlpEnergy host t = slp at h hslp
  cases h
  obtain ⟨hread, hin, _⟩ := latch_classes_words (p := (s, noRegs)) (q := (u, r)) hs hloop
  obtain ⟨hread', hin', htotal⟩ := get_act_energy_all_ok (hread.metered hs) henergy
  have hall : ∀ c, meter t c = meter u c := by
    intro c
    apply hread'.keeps (m := meter s c)
    rw [hread.intActTime_eq, hread.pmArray_eq]
    exact (hin c (List.mem_finRange c)).1
  have hacc : ∀ c, t.actEnergy c = u.actEnergy c := fun c ↦ congrArg Meter.acc (hall c)
  have hst := hread.trans hread'
  refine ⟨t, slp.1, _, hst, ?_, congrArg Prod.fst he, rfl, ?_, ?_, ?_, ?_, ?_, ?_, ?_, ?_⟩
  · intro c
    exact (hall c).trans (hin c (List.mem_finRange c)).1
  · intro c
    exact (hin c (List.mem_finRange c)).2.1
  · intro c
    rw [hacc c]
    exact (hin c (List.mem_finRange c)).2.2.1
  · intro c
    exact (hin c (List.mem_finRange c)).2.2.2
  · rw [← htime]
    exact act_time_all_congr hread.activeTime_eq.symm
  · change totalActEnergy = ∑ c, r.actEnergy c
    rw [htotal]
    apply Finset.sum_congr rfl
    intro c _
    rw [hacc c]
    exact ((hin c (List.mem_finRange c)).2.2.1).symm
  · rw [← hcycles]
    exact cycles_all_congr hst.books.cycleCount_eq.symm
  · rw [hst.frame]
    rfl
  · exact (hst.books.trans hslp).vemuErrorsEnabled_eq

theorem latch_frame {s s' : Emu} (h : latch host s = .ok s') :
    ∃ t, Books s t ∧ s' = { t with lastState := s'.lastState } ∧
      VemuState.faultStatus s'.lastState = s.vemuErrorsEnabled ∧
      VemuState.frequency s'.lastState = host.word (s.pmArray 0) ∧
      VemuState.voltage s'.lastState = host.word ((s.pmArray 1).scale 1000) := by
  obtain ⟨⟨u, r⟩, hloop, h⟩ := bind_ok_iff.mp h
  obtain ⟨totalActTime, htime, h⟩ := bind_ok_iff.mp h
  obtain ⟨⟨t, totalActEnergy⟩, henergy, h⟩ := bind_ok_iff.mp h
  obtain ⟨totalCycles, hcycles, h⟩ := bind_ok_iff.mp h
  have hb := ((latch_classes_books hloop).trans (get_act_energy_all_books henergy)).trans
    (get_slp_energy_books host t)
  generalize vemuGetSlpEnergy host t = slp at h hb
  cases h
  refine ⟨_, hb, rfl, hb.vemuErrorsEnabled_eq, ?_⟩
  rw [← hb.pmArray_eq]
  exact ⟨rfl, rfl⟩

end VarEmu.Emulator.Device
