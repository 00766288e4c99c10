import VarEmu.Emulator.Device
import VarEmu.Emulator.Monitor

namespace VarEmu.Emulator.Machine

open State Cycles Energy Device Monitor Library.Execution Library.Metering

/-- What happens inside the emulator: instructions retire, `vm_clock` moves, the processor goes
to sleep and is polled for work, and monitor commands run. -/
inductive Activity
  | retire (tb : VemuTbInfo)
  | clock (now : UInt64)
  | sleepStart
  | activeStart
  | getActEnergy (c : InstrClass)
  | getActEnergyAllClasses
  | doInfoTime
  | doInfoEnergy
  | doInfoAll
  | energyChangeParameter (cc pp : UInt8) (vv : Double)
  | doChangeModelParam (c p v : CString)
  deriving DecidableEq

inductive Event
  | act (a : Activity)
  | modWrite (offset val : UInt64)
  deriving DecidableEq

variable (host : Host)

def perform (s : Emu) : Activity → Except Fault Emu
  | .retire tb => vemuIncrementCycles s tb
  | .clock now => .ok { s with vmClock := now }
  | .sleepStart => vemuSleepStart s
  | .activeStart => vemuActiveStart s
  | .getActEnergy c => (vemuGetActEnergy host s c).map Prod.fst
  | .getActEnergyAllClasses => (vemuGetActEnergyAllClasses host s).map Prod.fst
  | .doInfoTime => (vemuDoInfoTime s).map fun _ ↦ s
  | .doInfoEnergy => (vemuDoInfoEnergy host s).map Prod.fst
  | .doInfoAll => (vemuDoInfoAll host s).map Prod.fst
  | .energyChangeParameter cc pp vv => vemuEnergyChangeParameter host s cc pp vv
  | .doChangeModelParam c p v => vemuDoChangeModelParam host s c p v

def step (s : Emu) : Event → Except Fault Emu
  | .act a => perform host s a
  | .modWrite offset val => vemuModWrite host s offset val

def Event.retires : Event → Bool
  | .act (.retire _) => true
  | _ => false

def Event.setsParameter : Event → Bool
  | .modWrite offset _ => offset == setFrequency || offset == setVoltage
  | _ => false

def Event.changesParameter : Event → Bool
  | .act (.energyChangeParameter ..) | .act (.doChangeModelParam ..) => true
  | e => e.setsParameter

def Event.parameterWritten : Event → Option (UInt8 × Double)
  | .modWrite offset val =>
    if offset = setFrequency then some (0, .ofUInt64 val)
    else if offset = setVoltage then some (1, (Double.ofUInt64 val).scale (1 / 1000))
    else none
  | .act (.energyChangeParameter _ pp vv) => some (pp, vv)
  | .act (.doChangeModelParam _ p v) =>
    match unquote p, unquote v with
    | .ok pp, .ok vv => some (toUInt8 (strtol pp), strtod vv)
    | _, _ => none
  | _ => none

def Event.readsClass (c : InstrClass) : Event → Bool
  | .act (.getActEnergy d) => d == c
  | .act .getActEnergyAllClasses | .act .doInfoEnergy | .act .doInfoAll => true
  | .modWrite offset _ => offset == readCmd
  | _ => false

def Event.readsEnergy : Event → Bool
  | .act (.getActEnergy _) | .act .getActEnergyAllClasses => true
  | .act .doInfoEnergy | .act .doInfoAll => true
  | .modWrite offset _ => offset == readCmd
  | _ => false

variable {host}

theorem map_eq_ok {α β : Type} {x : Except Fault α} {f : α → β} {b : β} :
    x.map f = .ok b ↔ ∃ a, x = .ok a ∧ f a = b := by
  cases x <;> simp [Except.map]

theorem do_info_energy_ok {s : Emu} {r : Emu × UInt64 × UInt64}
    (h : vemuDoInfoEnergy host s = .ok r) :
    ∃ t e, vemuGetActEnergyAllClasses host s = .ok (t, e) ∧ r.1 = (vemuGetSlpEnergy host t).1 := by
  obtain ⟨⟨t, e⟩, ht, h⟩ := bind_ok_iff.mp h
  cases h
  exact ⟨t, e, ht, rfl⟩

theorem do_info_all_ok {s : Emu} {r : Emu × (UInt64 × UInt64) × (UInt64 × UInt64)}
    (h : vemuDoInfoAll host s = .ok r) :
    ∃ q, vemuDoInfoEnergy host s = .ok q ∧ r.1 = q.1 := by
  obtain ⟨⟨t, e⟩, ht, h⟩ := bind_ok_iff.mp h
  obtain ⟨time, _, h⟩ := bind_ok_iff.mp h
  cases h
  exact ⟨(t, e), ht, rfl⟩

theorem do_change_model_param_ok {s s' : Emu} {c p v : CString}
    (h : vemuDoChangeModelParam host s c p v = .ok s') :
    ∃ cc pp vv, unquote c = .ok cc ∧ unquote p = .ok pp ∧ unquote v = .ok vv ∧
      vemuEnergyChangeParameter host s (toUInt8 (strtol cc)) (toUInt8 (strtol pp)) (strtod vv) =
        .ok s' := by
  obtain ⟨cc, hc, h⟩ := bind_ok_iff.mp h
  obtain ⟨pp, hp, h⟩ := bind_ok_iff.mp h
  obtain ⟨vv, hv, h⟩ := bind_ok_iff.mp h
  exact ⟨cc, pp, vv, hc, hp, hv, h⟩

theorem energy_change_parameter_ok {s s' : Emu} {cc pp : UInt8} {vv : Double}
    (h : vemuEnergyChangeParameter host s cc pp vv = .ok s') :
    ∃ (t u : Emu) (e : UInt64) (p : Fin pmArraySize),
      vemuGetActEnergyAllClasses host s = .ok (t, e) ∧
      u = (vemuGetSlpEnergy host t).1 ∧ p.val = pp.toNat ∧
      s' = { u with pmArray := Function.update u.pmArray p vv } := by
  obtain ⟨⟨t, e⟩, ht, h⟩ := bind_ok_iff.mp h
  obtain ⟨p, hp, hs⟩ := pm_change_parameter_ok h
  exact ⟨t, _, e, p, ht, rfl, hp, hs⟩

theorem perform_reads_books {s s' : Emu} {a : Activity} (ha : (Event.act a).readsEnergy = true)
    (h : perform host s a = .ok s') : Books s s' := by
  cases a with
  | getActEnergy c =>
    obtain ⟨⟨t, e⟩, ht, rfl⟩ := map_eq_ok.mp h
    exact get_act_energy_books ht
  | getActEnergyAllClasses =>
    obtain ⟨⟨t, e⟩, ht, rfl⟩ := map_eq_ok.mp h
    exact get_act_energy_all_books ht
  | doInfoEnergy =>
    obtain ⟨r, hr, rfl⟩ := map_eq_ok.mp h
    obtain ⟨t, e, ht, hr⟩ := do_info_energy_ok hr
    exact hr ▸ (get_act_energy_all_books ht).trans (get_slp_energy_books host t)
  | doInfoAll =>
    obtain ⟨r, hr, rfl⟩ := map_eq_ok.mp h
    obtain ⟨q, hq, hr⟩ := do_info_all_ok hr
    obtain ⟨t, e, ht, hq⟩ := do_info_energy_ok hq
    exact hr ▸ hq ▸ (get_act_energy_all_books ht).trans (get_slp_energy_books host t)
  | _ => simp [Event.readsEnergy] at ha

theorem energy_change_parameter_books {s s' : Emu} {cc pp : UInt8} {vv : Double}
    (h : vemuEnergyChangeParameter host s cc pp vv = .ok s') :
    ∃ (t : Emu) (p : Fin pmArraySize), Books s t ∧ p.val = pp.toNat ∧
      s' = { t with pmArray := Function.update s.pmArray p vv } := by
  obtain ⟨t, u, e, p, ht, rfl, hp, rfl⟩ := energy_change_parameter_ok h
  have hb := (get_act_energy_all_books ht).trans (get_slp_energy_books host t)
  refine ⟨_, p, hb, hp, ?_⟩
  rw [hb.pmArray_eq]

/-- What an event does to everything but the values of the energy books. -/
inductive Outcome (s s' : Emu) : Event → Prop
  | retire {tb : VemuTbInfo} {c : InstrClass} {hz : UInt64} (hd : divisor s = .ok hz)
      (hs : s' = { s with
        cycleCount := Function.update s.cycleCount c (s.cycleCount c + tb.instrInfo.cycles)
        activeTime := Function.update s.activeTime c
          (s.activeTime c + tb.instrInfo.cycles * periodNs hz) }) :
      Outcome s s' (.act (.retire tb))
  | tick {now : UInt64} (hs : s' = { s with vmClock := now }) : Outcome s s' (.act (.clock now))
  | sleep {act : UInt64} (hact : vemuGetActTimeAllClasses s = .ok act)
      (hs : s' = { s with
        lastSleepTime := s.lastActiveTimeVm + (act - s.lastActiveTimeCycles)
        enteredSleepMode := true }) : Outcome s s' (.act .sleepStart)
  | wake {act : UInt64} (hsleep : s.enteredSleepMode = true)
      (hact : vemuGetActTimeAllClasses s = .ok act)
      (hs : s' = { s with
        totalSleepTime := s.totalSleepTime + (s.vmClock - s.lastSleepTime).toInt64
        lastActiveTimeVm := s.vmClock
        lastActiveTimeCycles := act
        enteredSleepMode := false }) : Outcome s s' (.act .activeStart)
  | books {e : Event} (he : e.parameterWritten = none) (hs : Books s s') : Outcome s s' e
  | change {e : Event} {t : Emu} {p : Fin pmArraySize} {pp : UInt8} {v : Double}
      (he : e.parameterWritten = some (pp, v)) (hp : p.val = pp.toNat) (ht : Books s t)
      (hs : s' = { t with pmArray := Function.update s.pmArray p v }) : Outcome s s' e
  | latch {t : Emu} {val : UInt64} (ht : Books s t)
      (hs : s' = { t with lastState := s'.lastState })
      (hfaults : VemuState.faultStatus s'.lastState = s.vemuErrorsEnabled) :
      Outcome s s' (.modWrite readCmd val)
  | faults {val : UInt64} (hs : s' = { s with vemuErrorsEnabled := val }) :
      Outcome s s' (.modWrite setFaults val)

theorem change_outcome {s s' : Emu} {cc pp : UInt8} {v : Double} {e : Event}
    (he : e.parameterWritten = some (pp, v))
    (h : vemuEnergyChangeParameter host s cc pp v = .ok s') : Outcome s s' e := by
  obtain ⟨t, p, ht, hp, hs⟩ := energy_change_parameter_books h
  exact .change he hp ht hs

theorem mod_write_outcome {s s' : Emu} {offset val : UInt64}
    (h : vemuModWrite host s offset val = .ok s') : Outcome s s' (.modWrite offset val) := by
  unfold vemuModWrite at h
  split_ifs at h with hfaults hfreq hvolt hcmd
  · cases h
    subst hfaults
    exact .faults rfl
  · obtain ⟨p, hp, hs⟩ := pm_change_parameter_ok h
    subst hfreq
    exact .change rfl hp (.refl s) hs
  · obtain ⟨p, hp, hs⟩ := pm_change_parameter_ok h
    subst hvolt
    exact .change rfl hp (.refl s) hs
  · obtain ⟨t, ht, hs, hw, _⟩ := latch_frame h
    subst hcmd
    exact .latch ht hs hw
  · cases h
    exact .books ((if_neg hfreq).trans (if_neg hvolt)) (.refl s)

theorem step_outcome {s s' : Emu} {e : Event} (h : step host s e = .ok s') : Outcome s s' e := by
  cases e with
  | modWrite offset val => exact mod_write_outcome h
  | act a =>
    cases a with
    | retire tb =>
      obtain ⟨c, hz, _, hd, _, hs⟩ := increment_cycles_ok h
      exact .retire hd hs
    | clock now =>
      cases h
      exact .tick rfl
    | sleepStart =>
      obtain ⟨act, hact, hs⟩ := sleep_start_ok h
      exact .sleep hact hs
    | activeStart =>
      rcases active_start_ok h with ⟨_, rfl⟩ | ⟨hsleep, act, hact, hs⟩
      · exact .books rfl (.refl _)
      · exact .wake hsleep hact hs
    | getActEnergy | getActEnergyAllClasses | doInfoEnergy | doInfoAll =>
      simp only [step] at h
      exact .books rfl (perform_reads_books rfl h)
    | doInfoTime =>
      obtain ⟨_, _, rfl⟩ := map_eq_ok.mp h
      exact .books rfl (.refl _)
    | energyChangeParameter cc pp v => exact change_outcome rfl h
    | doChangeModelParam c p v =>
      obtain ⟨cc, pp, vv, _, hp, hv, h⟩ := do_change_model_param_ok h
      exact change_outcome (by simp [Event.parameterWritten, hp, hv]) h

def Event.parameter (e : Event) (p : Fin pmArraySize) (d : Double) : Double :=
  match e.parameterWritten with
  | some (pp, v) => if pp.toNat = p.val then v else d
  | none => d

theorem step_parameter {s s' : Emu} {e : Event} (h : step host s e = .ok s')
    (p : Fin pmArraySize) : s'.pmArray p = e.parameter p (s.pmArray p) := by
  unfold Event.parameter
  cases step_outcome h with
  | retire _ hs | tick hs | sleep _ hs | wake _ _ hs | faults hs =>
    subst hs
    rfl
  | books he hs => rw [hs.pmArray_eq, he]
  | latch ht hs =>
    rw [hs, ht.pmArray_eq]
    rfl
  | @change _ _ q pp v he hq _ hs =>
    subst hs
    rw [he]
    dsimp only
    split_ifs with hp
    · obtain rfl : q = p := Fin.ext (hq.trans hp)
      exact Function.update_self q v s.pmArray
    · apply Function.update_of_ne
      rintro rfl
      exact hp hq.symm

/-- A host whose active power is the frequency in hertz. -/
def linearHost : Host where
  actPower pm := match pm 0 with
    | .rat q => q
    | .nonfinite => 0
  slpPower _ := 1
  outOfRange _ := 0

def gigahertz : Parameters := fun _ ↦ .rat (10 ^ 9)

def ldrEntry : VemuInstrInfo := ⟨0x590, "LDR ofip", 0, 3, false⟩

def ldr : Activity := .retire ⟨0xE5910000, ldrEntry⟩

def load : Event := .act ldr

end VarEmu.Emulator.Machine
