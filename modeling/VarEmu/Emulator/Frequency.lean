import VarEmu.Emulator.Machine

namespace VarEmu.Emulator.Frequency

open State Cycles Energy Device Monitor Machine Library.Execution Library.Truncation

variable {host : Host}

def frequencyWritten (e : Event) : Option Double :=
  match e.parameterWritten with
  | some (p, v) => if p = 0 then some v else none
  | none => none

theorem step_frequency {s s' : Emu} {e : Event} (h : step host s e = .ok s') :
    s'.pmArray 0 = (frequencyWritten e).getD (s.pmArray 0) := by
  rw [step_parameter h, Event.parameter, frequencyWritten]
  cases e.parameterWritten with
  | none => rfl
  | some w =>
    have hzero : w.1.toNat = (0 : Fin pmArraySize).val ↔ w.1 = 0 := UInt8.toNat_inj (b := 0)
    simp only [hzero]
    split_ifs <;> rfl

theorem frequency_throughout (G : Double → Prop) {s t : Emu} {es : List Event}
    (h : run (step host) s es = .ok t) :
    Throughout (step host) (fun u ↦ G (u.pmArray 0)) s es ↔
      G (s.pmArray 0) ∧ ∀ e ∈ es, ∀ v ∈ frequencyWritten e, G v := by
  induction es generalizing s with
  | nil => simp [Throughout]
  | cons e es ih =>
    obtain ⟨s', he, hr⟩ := run_cons_eq_ok.mp h
    rw [throughout_cons he, ih hr, step_frequency he, List.forall_mem_cons]
    cases hw : frequencyWritten e with
    | none => simp
    | some v => simp

/-- The integer part of the parameter is a word, and not zero. -/
def PositiveWord : Double → Prop
  | .rat q => 1 ≤ q ∧ q < 2 ^ 64
  | .nonfinite => False

instance : DecidablePred PositiveWord
  | .rat _ => inferInstanceAs (Decidable (_ ∧ _))
  | .nonfinite => inferInstanceAs (Decidable False)

theorem to_uint64_positive {v : Double} :
    (∃ hz, v.toUInt64 = .ok hz ∧ hz ≠ 0) ↔ PositiveWord v := by
  cases v with
  | nonfinite => simp [Double.toUInt64, PositiveWord]
  | rat q =>
    simp only [Double.toUInt64, toUInt64_eq_ok, PositiveWord]
    constructor
    · rintro ⟨hz, h, hne⟩
      have hfloor : hz.toNat = ⌊q⌋₊ := truncate_toNat h
      have hpos : 0 < ⌊q⌋₊ := by
        rw [← hfloor]
        exact UInt64.pos_iff_ne_zero.mpr hne
      unfold truncate at h
      split_ifs at h with hq
      exact ⟨Nat.floor_pos.mp hpos, hq.2⟩
    · rintro ⟨hone, hlt⟩
      refine ⟨_, if_pos ⟨by linarith, hlt⟩, fun hzero ↦ ?_⟩
      have hfloor : ⌊q⌋₊ = 0 := by rw [← toNat_ofNat_floor hlt, hzero, UInt64.toNat_zero]
      exact hone.not_gt (Nat.floor_eq_zero.mp hfloor)

/-- The divisor of the cycle clock is a non-zero word all along a run if and only if the
configured frequency and every value written to it lie between one hertz and `2 ^ 64`. -/
theorem divisor_nonzero_iff (host : Host) (pm : Parameters) (time : UInt64) (es : List Event)
    (t : Emu) (hrun : run (step host) (vemuInitCycles pm time) es = .ok t) :
    Throughout (step host) (fun s ↦ ∃ hz, divisor s = .ok hz ∧ hz ≠ 0) (vemuInitCycles pm time)
        es ↔
      PositiveWord (pm 0) ∧ ∀ e ∈ es, ∀ v ∈ frequencyWritten e, PositiveWord v := by
  simp only [divisor, to_uint64_positive]
  exact frequency_throughout PositiveWord hrun

def soundWrites : List Event :=
  [load, .modWrite setFrequency (2 * 10 ^ 9),
    .act (.doChangeModelParam (bytes "\"0\"") (bytes "\"0\"") (bytes "\"5e8\"")), load]

theorem sound_writes_nonzero :
    Throughout (step linearHost) (fun s ↦ ∃ hz, divisor s = .ok hz ∧ hz ≠ 0)
      (vemuInitCycles gigahertz 0) soundWrites := by
  have hok : Ends (fun _ ↦ True) (run (step linearHost) (vemuInitCycles gigahertz 0)
      soundWrites) := by
    decide +kernel
  obtain ⟨t, ht, _⟩ := hok.exists
  have hstart : PositiveWord (gigahertz 0) := by decide +kernel
  have hwrites : ∀ e ∈ soundWrites, ∀ v ∈ frequencyWritten e, PositiveWord v := by
    decide +kernel
  exact (divisor_nonzero_iff linearHost gigahertz 0 soundWrites t ht).mpr ⟨hstart, hwrites⟩

theorem zero_write_divides :
    ∃ s, run (step linearHost) (vemuInitCycles gigahertz 0) [.modWrite setFrequency 0] = .ok s ∧
      divisor s = .ok 0 ∧ step linearHost s load = .error .divisionByZero := by
  have hok : Ends (fun s ↦ divisor s = .ok 0) (run (step linearHost) (vemuInitCycles gigahertz 0)
      [.modWrite setFrequency 0]) := by
    decide +kernel
  obtain ⟨s, hs, hzero⟩ := hok.exists
  refine ⟨s, hs, hzero, ?_⟩
  rw [load, ldr, step, perform, vemuIncrementCycles, dif_pos (by decide), hzero]
  rfl

end VarEmu.Emulator.Frequency
