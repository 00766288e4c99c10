import VarEmu.Library.Metering
import VarEmu.Emulator.Cycles

namespace VarEmu.Emulator.Energy

open State Cycles Library.Execution Library.Metering
open scoped BigOperators

variable (host : Host)

def vemuPmActPower (s : Emu) (_c : InstrClass) : ℚ := host.actPower s.pmArray

def vemuPmSlpPower (s : Emu) : ℚ := host.slpPower s.pmArray

def vemuPmChangeParameter (s : Emu) (_c : UInt8) (parameter : UInt8) (value : Double) :
    Except Fault Emu :=
  if h : parameter.toNat < pmArraySize then
    .ok { s with pmArray := Function.update s.pmArray ⟨parameter.toNat, h⟩ value }
  else .error .assertion

def vemuGetActEnergy (s : Emu) (c : InstrClass) : Except Fault (Emu × UInt64) := do
  let currTime ← vemuGetActTime s c
  let interval := currTime - s.actTimeCkpt c
  let energy := interval.toNat * vemuPmActPower host s c
  let acc := s.actEnergy c + energy
  .ok ({ s with
    actTimeCkpt := Function.update s.actTimeCkpt c currTime
    actEnergy := Function.update s.actEnergy c acc }, host.word (.rat acc))

def addActEnergy (p : Emu × UInt64) (c : InstrClass) : Except Fault (Emu × UInt64) := do
  let (s, e) ← vemuGetActEnergy host p.1 c
  .ok (s, p.2 + e)

def vemuGetActEnergyAllClasses (s : Emu) : Except Fault (Emu × UInt64) :=
  (List.finRange maxInstrClasses).foldlM (addActEnergy host) (s, 0)

def vemuGetSlpEnergy (s : Emu) : Emu × UInt64 :=
  let currSlpTime := vemuGetSlpTime s
  let interval := (currSlpTime - s.slpTimeCkpt).toInt64
  let energy := interval.toInt * vemuPmSlpPower host s
  if interval < 0 then (s, host.word (.rat s.slpEnergy))
  else
    let acc := s.slpEnergy + energy
    ({ s with slpTimeCkpt := currSlpTime, slpEnergy := acc }, host.word (.rat acc))

def vemuEnergyChangeParameter (s : Emu) (cc pp : UInt8) (vv : Double) : Except Fault Emu := do
  let (s, _) ← vemuGetActEnergyAllClasses host s
  vemuPmChangeParameter (vemuGetSlpEnergy host s).1 cc pp vv

theorem pm_change_parameter_ok {s s' : Emu} {cc pp : UInt8} {vv : Double}
    (h : vemuPmChangeParameter s cc pp vv = .ok s') :
    ∃ p : Fin pmArraySize, p.val = pp.toNat ∧
      s' = { s with pmArray := Function.update s.pmArray p vv } := by
  unfold vemuPmChangeParameter at h
  split_ifs at h with hp
  cases h
  exact ⟨⟨_, hp⟩, rfl, rfl⟩

/-- Nothing but the energy accumulators and their checkpoints has moved. -/
def Books (s s' : Emu) : Prop :=
  s' = { s with
    actTimeCkpt := s'.actTimeCkpt, actEnergy := s'.actEnergy
    slpTimeCkpt := s'.slpTimeCkpt, slpEnergy := s'.slpEnergy }

theorem Books.refl (s : Emu) : Books s s := rfl

theorem Books.trans {s s' s'' : Emu} (h : Books s s') (h' : Books s' s'') : Books s s'' := by
  unfold Books at h h' ⊢
  rw [h', h]

theorem Books.cycleCount_eq {s s' : Emu} (h : Books s s') : s'.cycleCount = s.cycleCount := by
  rw [h]

theorem Books.activeTime_eq {s s' : Emu} (h : Books s s') : s'.activeTime = s.activeTime := by
  rw [h]

theorem Books.vemuErrorsEnabled_eq {s s' : Emu} (h : Books s s') :
    s'.vemuErrorsEnabled = s.vemuErrorsEnabled := by
  rw [h]

theorem Books.pmArray_eq {s s' : Emu} (h : Books s s') : s'.pmArray = s.pmArray := by
  rw [h]

theorem Books.lastState_eq {s s' : Emu} (h : Books s s') : s'.lastState = s.lastState := by
  rw [h]

section Frames

variable {host}

theorem get_act_energy_books {s s' : Emu} {c : InstrClass} {e : UInt64}
    (h : vemuGetActEnergy host s c = .ok (s', e)) : Books s s' := by
  obtain ⟨curr, ht, h⟩ := bind_ok_iff.mp h
  cases h
  rfl

theorem add_act_energy_fold_books {cs : List InstrClass} {p q : Emu × UInt64}
    (h : cs.foldlM (addActEnergy host) p = .ok q) : Books p.1 q.1 := by
  induction cs generalizing p with
  | nil =>
    cases h
    exact .refl _
  | cons c cs ih =>
    obtain ⟨r, hr, h⟩ := bind_ok_iff.mp h
    obtain ⟨⟨t, f⟩, ht, hr⟩ := bind_ok_iff.mp hr
    cases hr
    exact (get_act_energy_books ht).trans (ih h)

theorem add_act_energy_fold_isOk {cs : List InstrClass} {p : Emu × UInt64} :
    (∃ q, cs.foldlM (addActEnergy host) p = .ok q) ↔
      ∀ c ∈ cs, ∃ t, vemuGetActTime p.1 c = .ok t := by
  induction cs generalizing p with
  | nil => exact ⟨fun _ c hc ↦ absurd hc List.not_mem_nil, fun _ ↦ ⟨p, rfl⟩⟩
  | cons c cs ih =>
    have hkeep : ∀ q, addActEnergy host p c = .ok q →
        ∀ d, vemuGetActTime q.1 d = vemuGetActTime p.1 d := by
      intro q hq d
      obtain ⟨⟨t, f⟩, ht, hq⟩ := bind_ok_iff.mp hq
      cases hq
      simp only [vemuGetActTime, (get_act_energy_books ht).activeTime_eq]
    simp only [List.foldlM_cons, bind_ok_iff, List.forall_mem_cons]
    constructor
    · rintro ⟨r, q, hq, hr⟩
      constructor
      · obtain ⟨⟨t, f⟩, ht, _⟩ := bind_ok_iff.mp hq
        obtain ⟨curr, hcurr, _⟩ := bind_ok_iff.mp ht
        exact ⟨curr, hcurr⟩
      · intro d hd
        rw [← hkeep q hq d]
        exact ih.mp ⟨r, hr⟩ d hd
    · rintro ⟨⟨curr, hcurr⟩, hcs⟩
      have hq : ∃ q, addActEnergy host p c = .ok q := by
        simp [addActEnergy, vemuGetActEnergy, hcurr, bind, Except.bind]
      obtain ⟨q, hq⟩ := hq
      obtain ⟨r, hr⟩ := (ih (p := q)).mpr fun d hd ↦ by
        rw [hkeep q hq d]
        exact hcs d hd
      exact ⟨r, q, hq, hr⟩

variable (host) in
theorem get_act_energy_all_isOk (s : Emu) :
    (∃ q, vemuGetActEnergyAllClasses host s = .ok q) ↔ ∀ c, ∃ t, vemuGetActTime s c = .ok t := by
  rw [vemuGetActEnergyAllClasses, add_act_energy_fold_isOk]
  exact ⟨fun h c ↦ h c (List.mem_finRange c), fun h c _ ↦ h c⟩

theorem get_act_energy_all_books {s s' : Emu} {e : UInt64}
    (h : vemuGetActEnergyAllClasses host s = .ok (s', e)) : Books s s' :=
  add_act_energy_fold_books h

variable (host) in
theorem get_slp_energy_books (s : Emu) : Books s (vemuGetSlpEnergy host s).1 := by
  unfold vemuGetSlpEnergy Books
  dsimp only
  split_ifs <;> rfl

end Frames

/-- The active energy of a class as a lazily priced meter. -/
def meter (s : Emu) (c : InstrClass) : Meter ℚ := ⟨(s.actTimeCkpt c).toNat, s.actEnergy c⟩

/-- The checkpoints never run ahead of the active time, so the unsigned interval of a read is
the time that passed. -/
def Metered (s : Emu) : Prop := ∀ c, (s.actTimeCkpt c).toNat ≤ intActTime s c

structure Reads (s s' : Emu) : Prop where
  frame : s' = { s with actTimeCkpt := s'.actTimeCkpt, actEnergy := s'.actEnergy }
  meters : ∀ c, meter s' c = meter s c ∨
    meter s' c = (meter s c).flush (intActTime s c) (host.actPower s.pmArray)

variable {host}

theorem Reads.books {s s' : Emu} (h : Reads host s s') : Books s s' := by
  unfold Books
  rw [h.frame]

theorem Reads.activeTime_eq {s s' : Emu} (h : Reads host s s') : s'.activeTime = s.activeTime := by
  rw [h.frame]

theorem Reads.pmArray_eq {s s' : Emu} (h : Reads host s s') : s'.pmArray = s.pmArray := by
  rw [h.frame]

theorem Reads.intActTime_eq {s s' : Emu} (h : Reads host s s') (c : InstrClass) :
    intActTime s' c = intActTime s c := by
  unfold intActTime
  rw [h.activeTime_eq]

theorem Reads.refl (s : Emu) : Reads host s s := ⟨rfl, fun _ ↦ .inl rfl⟩

theorem Reads.trans {s s' s'' : Emu} (h : Reads host s s') (h' : Reads host s' s'') :
    Reads host s s'' := by
  constructor
  · rw [h'.frame, h.frame]
  · intro c
    have hc := h'.meters c
    rw [h.intActTime_eq, h.pmArray_eq] at hc
    rcases h.meters c with hm | hm
    · rwa [hm] at hc
    · rw [hm, Meter.flush_flush] at hc
      exact .inr (hc.elim id id)

theorem meter_ckpt_eq {s s' : Emu} {c : InstrClass} (h : meter s' c = meter s c) :
    s'.actTimeCkpt c = s.actTimeCkpt c := by
  have hk : ((s'.actTimeCkpt c).toNat : ℚ) = (s.actTimeCkpt c).toNat := congrArg Meter.ckpt h
  exact UInt64.toNat_inj.mp (by exact_mod_cast hk)

theorem meter_flush_ckpt {s s' : Emu} {c : InstrClass} {t : ℕ} {p : ℚ}
    (h : meter s' c = (meter s c).flush t p) : (s'.actTimeCkpt c).toNat = t := by
  have hk : ((s'.actTimeCkpt c).toNat : ℚ) = t := congrArg Meter.ckpt h
  exact_mod_cast hk

theorem Reads.metered {s s' : Emu} (h : Reads host s s') (hs : Metered s) : Metered s' := by
  intro c
  rw [h.intActTime_eq]
  rcases h.meters c with hm | hm
  · rw [meter_ckpt_eq hm]
    exact hs c
  · rw [meter_flush_ckpt hm]

theorem get_act_energy_ok {s s' : Emu} {c : InstrClass} {e : UInt64} (hs : Metered s)
    (h : vemuGetActEnergy host s c = .ok (s', e)) :
    Reads host s s' ∧
      meter s' c = (meter s c).flush (intActTime s c) (host.actPower s.pmArray) ∧
      e = host.word (.rat (s'.actEnergy c)) := by
  obtain ⟨curr, ht, h⟩ := bind_ok_iff.mp h
  cases h
  rw [act_time_eq_ok] at ht
  have hle : s.actTimeCkpt c ≤ curr := by
    rw [UInt64.le_iff_toNat_le, ht]
    exact hs c
  have hflush : (⟨curr.toNat, s.actEnergy c + (curr - s.actTimeCkpt c).toNat *
      vemuPmActPower host s c⟩ : Meter ℚ) =
      (meter s c).flush (intActTime s c) (host.actPower s.pmArray) := by
    have hsub : ((curr - s.actTimeCkpt c).toNat : ℚ) =
        intActTime s c - (s.actTimeCkpt c).toNat := by
      rw [UInt64.toNat_sub_of_le _ _ hle, ht, Nat.cast_sub (hs c)]
    simp only [Meter.flush, Meter.due, meter, vemuPmActPower, hsub, ht]
  refine ⟨⟨rfl, ?_⟩, ?_, ?_⟩
  · intro d
    by_cases hd : d = c
    · subst hd
      right
      simpa [meter] using hflush
    · left
      simp [meter, Function.update_of_ne hd]
  · simpa [meter] using hflush
  · simp

theorem Reads.keeps {s s' : Emu} (h : Reads host s s') {m : Meter ℚ} {c : InstrClass}
    (hm : meter s c = m.flush (intActTime s c) (host.actPower s.pmArray)) :
    meter s' c = meter s c := by
  have hc := h.meters c
  rwa [hm, Meter.flush_flush, or_self, ← hm] at hc

theorem Reads.flush_of {s t s' : Emu} (h : Reads host s t) {c : InstrClass}
    (hm : meter s' c = (meter t c).flush (intActTime t c) (host.actPower t.pmArray)) :
    meter s' c = (meter s c).flush (intActTime s c) (host.actPower s.pmArray) := by
  rw [h.intActTime_eq, h.pmArray_eq] at hm
  rcases h.meters c with hc | hc
  · rwa [hc] at hm
  · rwa [hc, Meter.flush_flush] at hm

theorem add_act_energy_fold {cs : List InstrClass} {p q : Emu × UInt64} (hs : Metered p.1)
    (h : cs.foldlM (addActEnergy host) p = .ok q) :
    Reads host p.1 q.1 ∧
      (∀ c ∈ cs, meter q.1 c =
        (meter p.1 c).flush (intActTime p.1 c) (host.actPower p.1.pmArray)) ∧
      q.2 = p.2 + (cs.map fun c ↦ host.word (.rat (q.1.actEnergy c))).sum := by
  induction cs generalizing p with
  | nil =>
    cases h
    exact ⟨.refl _, by simp, by simp⟩
  | cons c cs ih =>
    obtain ⟨r, hr, h⟩ := bind_ok_iff.mp h
    obtain ⟨⟨t, f⟩, ht, hr⟩ := bind_ok_iff.mp hr
    cases hr
    obtain ⟨hread, hm, hword⟩ := get_act_energy_ok hs ht
    obtain ⟨hrest, hin, hsum⟩ := ih (hread.metered hs) h
    have hmt : meter t c = (meter p.1 c).flush (intActTime t c) (host.actPower t.pmArray) := by
      rw [hread.intActTime_eq, hread.pmArray_eq, hm]
    have hkeep := hrest.keeps hmt
    refine ⟨hread.trans hrest, ?_, ?_⟩
    · intro d hd
      rcases List.mem_cons.mp hd with rfl | hd
      · exact hkeep.trans hm
      · exact hread.flush_of (hin d hd)
    · have hacc : q.1.actEnergy c = t.actEnergy c := congrArg Meter.acc hkeep
      rw [hsum, List.map_cons, List.sum_cons, hacc, ← hword, add_assoc]

/-- A read of all classes settles every one of them, and returns the sum of what they report. -/
theorem get_act_energy_all_ok {s s' : Emu} {e : UInt64} (hs : Metered s)
    (h : vemuGetActEnergyAllClasses host s = .ok (s', e)) :
    Reads host s s' ∧
      (∀ c, meter s' c = (meter s c).flush (intActTime s c) (host.actPower s.pmArray)) ∧
      e = ∑ c, host.word (.rat (s'.actEnergy c)) := by
  obtain ⟨hr, hm, he⟩ := add_act_energy_fold (p := (s, 0)) (q := (s', e)) hs h
  refine ⟨hr, fun c ↦ hm c (List.mem_finRange c), ?_⟩
  simpa only [zero_add, Fin.sum_univ_def] using he

end VarEmu.Emulator.Energy
