import VarEmu.Emulator.ActiveEnergy
import VarEmu.Emulator.SleepClock

namespace VarEmu.Emulator.Snapshots

open State Cycles Energy Device Machine ActiveEnergy SleepClock
open Library.Execution Library.Truncation
open scoped BigOperators

variable {host : Host}

def intTotalActTime (s : Emu) : ℕ := ⌊∑ c, s.activeTime c⌋₊

structure SnapshotOf (s : Emu) (w : VemuState) : Prop where
  actTime_eq : ∀ c, (VemuState.actTime w c).toNat = intActTime s c
  cycles_eq : ∀ c, (VemuState.cycles w c).toNat = ⌊s.cycleCount c⌋₊
  totalActTime_eq : (VemuState.totalActTime w).toNat = intTotalActTime s
  totalCycles_eq : (VemuState.totalCycles w).toNat = ∑ c, ⌊s.cycleCount c⌋₊
  totalActEnergy_eq : VemuState.totalActEnergy w = ∑ c, VemuState.actEnergy w c
  slpTime_eq : VemuState.slpTime w = vemuGetSlpTime s

theorem latch_snapshot {s s' : Emu} (hs : Metered s) (h : latch host s = .ok s') :
    SnapshotOf s s'.lastState := by
  obtain ⟨t, u, r, _, _, _, rfl, htime, _, hcycles, htotal, henergy, hcount, hslp, _⟩ :=
    latch_ok hs h
  constructor
  · simpa using htime
  · simpa using hcycles
  · simpa [intTotalActTime] using act_time_all_eq_ok.mp htotal
  · simpa using cycles_all_eq hcount
  · simpa using henergy
  · simpa using hslp

theorem SnapshotOf.totals {s : Emu} {w : VemuState} (h : SnapshotOf s w) :
    (VemuState.totalCycles w).toNat = ∑ c, (VemuState.cycles w c).toNat ∧
    VemuState.totalActEnergy w = ∑ c, VemuState.actEnergy w c ∧
    ∑ c, (VemuState.actTime w c).toNat ≤ (VemuState.totalActTime w).toNat ∧
    (VemuState.totalActTime w).toNat ≤ ∑ c, (VemuState.actTime w c).toNat + 3 := by
  simp only [h.totalCycles_eq, h.cycles_eq, h.totalActTime_eq, h.actTime_eq, intTotalActTime,
    intActTime]
  refine ⟨trivial, h.totalActEnergy_eq, sum_floor_le _ _ fun _ _ ↦ zero_le, ?_⟩
  have hlt := floor_sum_lt Finset.univ s.activeTime (fun _ _ ↦ zero_le) Finset.univ_nonempty
  rw [Finset.card_univ, Fintype.card_fin] at hlt
  exact Nat.le_of_lt_succ hlt

theorem step_counts {s s' : Emu} {e : Event} (h : step host s e = .ok s') :
    (∀ c, s.activeTime c ≤ s'.activeTime c) ∧ ∀ c, s.cycleCount c ≤ s'.cycleCount c := by
  cases step_clock h with
  | quiet _ _ htime hcount => exact ⟨fun c ↦ (congrFun htime c).ge, fun c ↦ (congrFun hcount c).ge⟩
  | retire _ _ _ htime hcount => exact ⟨htime, hcount⟩
  | tick _ hs | sleep _ _ hs | wake _ _ _ hs =>
    subst hs
    exact ⟨fun _ ↦ le_rfl, fun _ ↦ le_rfl⟩

theorem run_counts {s t : Emu} {es : List Event} (h : run (step host) s es = .ok t) :
    (∀ c, s.activeTime c ≤ t.activeTime c) ∧ ∀ c, s.cycleCount c ≤ t.cycleCount c := by
  refine run_preserves (I := fun u ↦ (∀ c, s.activeTime c ≤ u.activeTime c) ∧
    ∀ c, s.cycleCount c ≤ u.cycleCount c) ?_ h ⟨fun _ ↦ le_rfl, fun _ ↦ le_rfl⟩
  rintro u e u' ⟨htime, hcount⟩ he
  obtain ⟨htime', hcount'⟩ := step_counts he
  exact ⟨fun c ↦ (htime c).trans (htime' c), fun c ↦ (hcount c).trans (hcount' c)⟩

theorem int_total_mono {s t : Emu} (h : ∀ c, s.activeTime c ≤ t.activeTime c) :
    intTotalActTime s ≤ intTotalActTime t :=
  Nat.floor_le_floor (Finset.sum_le_sum fun c _ ↦ h c)

def tick : Event → Option UInt64
  | .act (.clock now) => some now
  | _ => none

/-- The clock is that of the host, which does not go back and stays within `int64_t`, the
modelled active time does too, and no instruction retires during a sleep. -/
def HostClock (s : Emu) (e : Event) : Prop :=
  RetiresAwake s e ∧ intTotalActTime s < 2 ^ 63 ∧
    ∀ now ∈ tick e, s.vmClock ≤ now ∧ now.toNat < 2 ^ 63

def endsInterval : Event → Bool
  | .act .activeStart => true
  | .modWrite offset _ => offset == readCmd
  | _ => false

/-- A sleep is left, or latched, only once the clock has reached its corrected entry time. -/
def EntryReached (s : Emu) (e : Event) : Prop :=
  endsInterval e = true → s.enteredSleepMode = true → s.lastSleepTime ≤ s.vmClock

instance (s : Emu) (e : Event) : Decidable (HostClock s e) :=
  -- By the option, and not by all the words there are.
  have : Decidable (∀ now ∈ tick e, s.vmClock ≤ now ∧ now.toNat < 2 ^ 63) :=
    Option.decidableForallMem (tick e)
  inferInstanceAs (Decidable (_ ∧ _ ∧ _))

instance (s : Emu) (e : Event) : Decidable (EntryReached s e) :=
  inferInstanceAs (Decidable (_ → _ → _))

structure Timely (t0 : UInt64) (s : Emu) : Prop where
  conserved : Conserved t0 s
  start_le : t0 ≤ s.lastActiveTimeVm
  vm_le : s.lastActiveTimeVm ≤ s.vmClock
  vm_lt : s.vmClock.toNat < 2 ^ 63
  cycles_le : s.lastActiveTimeCycles.toNat ≤ intTotalActTime s

def rawSlpTime (s : Emu) : Int64 :=
  if s.enteredSleepMode then s.totalSleepTime + (s.vmClock - s.lastSleepTime).toInt64
  else s.totalSleepTime

theorem slp_time_toNat (s : Emu) :
    ((vemuGetSlpTime s).toNat : ℤ) = max 0 (rawSlpTime s).toInt := by
  change (((if rawSlpTime s < 0 then 0 else (rawSlpTime s).toUInt64) : UInt64).toNat : ℤ) = _
  have hzero : (0 : Int64).toInt = 0 := rfl
  split_ifs with h
  · rw [Int64.lt_iff_toInt_lt, hzero] at h
    rw [max_eq_left h.le]
    rfl
  · rw [Int64.lt_iff_toInt_lt, hzero, not_lt] at h
    have hint : (rawSlpTime s).toInt = ((rawSlpTime s).toUInt64.toNat : ℤ).bmod (2 ^ 64) :=
      BitVec.toInt_eq_toNat_bmod _
    have hlt := (rawSlpTime s).toUInt64.toNat_lt
    rw [max_eq_right h]
    rw [Int.bmod_def] at hint
    omega

theorem toInt_of_balance {x : Int64} {a b c : UInt64} (h : x.toUInt64 + c = a - b) (hb : b ≤ a)
    (ha : a.toNat < 2 ^ 63) (hc : c.toNat < 2 ^ 63) : x.toInt = a.toNat - b.toNat - c.toNat := by
  have hx : x.toUInt64 = a - b - c := by
    rw [← h]
    abel
  have hnat : x.toUInt64.toNat = (2 ^ 64 - c.toNat + (a.toNat - b.toNat)) % 2 ^ 64 := by
    rw [hx, UInt64.toNat_sub, UInt64.toNat_sub_of_le _ _ hb]
  have hint : x.toInt = (x.toUInt64.toNat : ℤ).bmod (2 ^ 64) := BitVec.toInt_eq_toNat_bmod _
  rw [UInt64.le_iff_toNat_le] at hb
  rw [hint, hnat, Int.bmod_def]
  omega

def savedSleep (t0 : UInt64) (s : Emu) : ℤ :=
  s.lastActiveTimeVm.toNat - t0.toNat - s.lastActiveTimeCycles.toNat

def idleTime (t0 : UInt64) (s : Emu) : ℤ := s.vmClock.toNat - t0.toNat - intTotalActTime s

/-- What the sleep time has reached: a sleep counts from its entry time on. -/
def reach (t0 : UInt64) (s : Emu) : ℤ :=
  if s.enteredSleepMode then max (savedSleep t0 s) (idleTime t0 s) else savedSleep t0 s

namespace Timely

variable {t0 : UInt64} {s : Emu}

theorem raw_awake (h : Timely t0 s) (hact : intTotalActTime s < 2 ^ 63)
    (hawake : s.enteredSleepMode = false) : (rawSlpTime s).toInt = savedSleep t0 s := by
  have hvm := UInt64.le_iff_toNat_le.mp h.vm_le
  rw [rawSlpTime, hawake]
  exact toInt_of_balance h.conserved.balance h.start_le (hvm.trans_lt h.vm_lt)
    (h.cycles_le.trans_lt hact)

theorem raw_asleep (h : Timely t0 s) (hact : intTotalActTime s < 2 ^ 63)
    (hsleep : s.enteredSleepMode = true) : (rawSlpTime s).toInt = idleTime t0 s := by
  obtain ⟨act, hok, hsum⟩ := h.conserved.asleep hsleep
  rw [act_time_all_eq_ok] at hok
  rw [rawSlpTime, hsleep, idleTime, intTotalActTime, ← hok]
  refine toInt_of_balance ?_ (UInt64.le_trans h.start_le h.vm_le) h.vm_lt (hok ▸ hact)
  simpa only [↓reduceIte, Int64.toUInt64_add, UInt64.toUInt64_toInt64] using hsum

theorem entry_toNat (h : Timely t0 s) (hact : intTotalActTime s < 2 ^ 63)
    (hsleep : s.enteredSleepMode = true) :
    s.lastSleepTime.toNat =
      s.lastActiveTimeVm.toNat + (intTotalActTime s - s.lastActiveTimeCycles.toNat) := by
  obtain ⟨act, hok, hentry⟩ := h.conserved.entry hsleep
  rw [act_time_all_eq_ok] at hok
  have hle := h.cycles_le
  have hvm := UInt64.le_iff_toNat_le.mp h.vm_le
  have hlt := h.vm_lt
  rw [intTotalActTime, ← hok] at hle hact ⊢
  rw [hentry, UInt64.toNat_add, UInt64.toNat_sub_of_le _ _ (UInt64.le_iff_toNat_le.mpr hle)]
  exact Nat.mod_eq_of_lt (by omega)

theorem saved_le_idle (h : Timely t0 s) (hact : intTotalActTime s < 2 ^ 63)
    (hsleep : s.enteredSleepMode = true) (hentry : s.lastSleepTime ≤ s.vmClock) :
    savedSleep t0 s ≤ idleTime t0 s := by
  rw [UInt64.le_iff_toNat_le, h.entry_toNat hact hsleep] at hentry
  have hle := h.cycles_le
  unfold savedSleep idleTime
  omega

theorem raw_le_reach (h : Timely t0 s) (hact : intTotalActTime s < 2 ^ 63) :
    (rawSlpTime s).toInt ≤ reach t0 s := by
  unfold reach
  split_ifs with hsleep
  · rw [h.raw_asleep hact hsleep]
    exact le_max_right _ _
  · rw [h.raw_awake hact (by simpa using hsleep)]

theorem raw_eq_reach (h : Timely t0 s) (hact : intTotalActTime s < 2 ^ 63)
    (hentry : s.enteredSleepMode = true → s.lastSleepTime ≤ s.vmClock) :
    (rawSlpTime s).toInt = reach t0 s := by
  unfold reach
  split_ifs with hsleep
  · rw [h.raw_asleep hact hsleep, max_eq_right (h.saved_le_idle hact hsleep (hentry hsleep))]
  · rw [h.raw_awake hact (by simpa using hsleep)]

end Timely

theorem int_total_congr {s s' : Emu} (h : s'.activeTime = s.activeTime) :
    intTotalActTime s' = intTotalActTime s := by
  rw [intTotalActTime, h, intTotalActTime]

theorem init_timely (pm : Parameters) {t0 : UInt64} (h : t0.toNat < 2 ^ 63) :
    Timely t0 (vemuInitCycles pm t0) :=
  ⟨init_conserved pm t0, UInt64.le_refl _, UInt64.le_refl _, h, Nat.zero_le _⟩

theorem step_timely {t0 : UInt64} (s : Emu) (e : Event) (s' : Emu) (hs : Timely t0 s)
    (hclock : HostClock s e) (h : step host s e = .ok s') : Timely t0 s' := by
  have hcons := step_conserved s e s' hs.conserved hclock.1 h
  have hact := int_total_mono (step_counts h).1
  cases step_clock h with
  | quiet hkeep hvm | retire _ hkeep hvm =>
    refine ⟨hcons, ?_, ?_, ?_, ?_⟩
    · rw [hkeep.lastActiveTimeVm_eq]
      exact hs.start_le
    · rw [hkeep.lastActiveTimeVm_eq, hvm]
      exact hs.vm_le
    · rw [hvm]
      exact hs.vm_lt
    · rw [hkeep.lastActiveTimeCycles_eq]
      exact hs.cycles_le.trans hact
  | tick now hs' =>
    subst hs'
    obtain ⟨hle, hlt⟩ := hclock.2.2 now rfl
    exact ⟨hcons, hs.start_le, UInt64.le_trans hs.vm_le hle, hlt, hs.cycles_le⟩
  | sleep act _ hs' =>
    subst hs'
    exact ⟨hcons, hs.start_le, hs.vm_le, hs.vm_lt, hs.cycles_le⟩
  | wake act _ hok hs' =>
    subst hs'
    exact ⟨hcons, UInt64.le_trans hs.start_le hs.vm_le, UInt64.le_refl _, hs.vm_lt,
      (act_time_all_eq_ok.mp hok).le⟩

theorem reach_congr {t0 : UInt64} {s s' : Emu} (hkeep : SameTimes s s')
    (hvm : s'.vmClock = s.vmClock) (hact : intTotalActTime s' = intTotalActTime s) :
    reach t0 s' = reach t0 s := by
  simp only [reach, savedSleep, idleTime, hkeep.enteredSleepMode_eq, hkeep.lastActiveTimeVm_eq,
    hkeep.lastActiveTimeCycles_eq, hvm, hact]

theorem step_reach {t0 : UInt64} {s s' : Emu} {e : Event} (hs : Timely t0 s)
    (hclock : HostClock s e) (hentry : EntryReached s e) (h : step host s e = .ok s') :
    reach t0 s ≤ reach t0 s' := by
  cases step_clock h with
  | quiet hkeep hvm htime => exact (reach_congr hkeep hvm (int_total_congr htime)).ge
  | retire tb hkeep hvm =>
    have hawake : s.enteredSleepMode = false := hclock.1 rfl
    simp [reach, savedSleep, hkeep.enteredSleepMode_eq, hawake, hkeep.lastActiveTimeVm_eq,
      hkeep.lastActiveTimeCycles_eq]
  | tick now hs' =>
    subst hs'
    have hle := UInt64.le_iff_toNat_le.mp (hclock.2.2 now rfl).1
    have hidle : idleTime t0 s ≤ idleTime t0 { s with vmClock := now } := by
      simp only [idleTime, intTotalActTime]
      omega
    unfold reach
    split_ifs
    · exact max_le_max le_rfl hidle
    · exact le_rfl
  | sleep act _ hs' =>
    subst hs'
    calc reach t0 s ≤ max (savedSleep t0 s) (idleTime t0 s) := by
          unfold reach
          split_ifs
          · exact le_rfl
          · exact le_max_left _ _
      _ = reach t0 _ := (if_pos rfl).symm
  | wake act hsleep hok hs' =>
    subst hs'
    have hle := hs.saved_le_idle hclock.2.1 hsleep (hentry rfl hsleep)
    have hact : intTotalActTime s = act.toNat := (act_time_all_eq_ok.mp hok).symm
    rw [reach, if_pos hsleep, max_eq_right hle]
    simp [reach, savedSleep, idleTime, hact]

theorem run_reach {t0 : UInt64} {s t : Emu} {es : List Event} (hs : Timely t0 s)
    (h : run (step host) s es = .ok t) (hclock : Always (step host) HostClock s es)
    (hentry : Always (step host) EntryReached s es) : Timely t0 t ∧ reach t0 s ≤ reach t0 t := by
  refine run_invariant (I := fun u ↦ Timely t0 u ∧ reach t0 s ≤ reach t0 u) ?_ h
    (hclock.and hentry) ⟨hs, le_rfl⟩
  rintro u e u' ⟨hu, hle⟩ ⟨hc, he⟩ hstep
  exact ⟨step_timely u e u' hu hc hstep, hle.trans (step_reach hu hc he hstep)⟩

/-- The later word is at least the earlier one, and their unsigned difference is the amount
between them. -/
def Grows (x y : UInt64) : Prop := x ≤ y ∧ (y - x).toNat = y.toNat - x.toNat

theorem grows_of_toNat_le {x y : UInt64} (h : x.toNat ≤ y.toNat) : Grows x y := by
  have hle : x ≤ y := UInt64.le_iff_toNat_le.mpr h
  exact ⟨hle, UInt64.toNat_sub_of_le _ _ hle⟩

theorem SnapshotOf.counters_grow {s t : Emu} {v w : VemuState} (hs : SnapshotOf s v)
    (ht : SnapshotOf t w) (htime : ∀ c, s.activeTime c ≤ t.activeTime c)
    (hcount : ∀ c, s.cycleCount c ≤ t.cycleCount c) :
    (∀ c, Grows (VemuState.cycles v c) (VemuState.cycles w c)) ∧
    (∀ c, Grows (VemuState.actTime v c) (VemuState.actTime w c)) ∧
    Grows (VemuState.totalActTime v) (VemuState.totalActTime w) ∧
    Grows (VemuState.totalCycles v) (VemuState.totalCycles w) := by
  refine ⟨fun c ↦ grows_of_toNat_le ?_, fun c ↦ grows_of_toNat_le ?_, grows_of_toNat_le ?_,
    grows_of_toNat_le ?_⟩
  · rw [hs.cycles_eq, ht.cycles_eq]
    exact Nat.floor_le_floor (hcount c)
  · rw [hs.actTime_eq, ht.actTime_eq]
    exact Nat.floor_le_floor (htime c)
  · rw [hs.totalActTime_eq, ht.totalActTime_eq]
    exact int_total_mono htime
  · rw [hs.totalCycles_eq, ht.totalCycles_eq]
    exact Finset.sum_le_sum fun c _ ↦ Nat.floor_le_floor (hcount c)

/-- Between two snapshots of a run the cycle and active time counters never decrease. The sleep
time does not either, as long as every sleep that is left or latched in between has reached its
corrected entry time. -/
theorem snapshot_counters_grow (host : Host) (pm : Parameters) (t0 x y : UInt64)
    (es fs : List Event) (s a t b : Emu)
    (hs : run (step host) (vemuInitCycles pm t0) es = .ok s)
    (ha : step host s (.modWrite readCmd x) = .ok a)
    (ht : run (step host) a fs = .ok t)
    (hb : step host t (.modWrite readCmd y) = .ok b) :
    (∀ c, Grows (VemuState.cycles a.lastState c) (VemuState.cycles b.lastState c)) ∧
    (∀ c, Grows (VemuState.actTime a.lastState c) (VemuState.actTime b.lastState c)) ∧
    Grows (VemuState.totalActTime a.lastState) (VemuState.totalActTime b.lastState) ∧
    Grows (VemuState.totalCycles a.lastState) (VemuState.totalCycles b.lastState) ∧
    (t0.toNat < 2 ^ 63 →
      Always (step host) HostClock (vemuInitCycles pm t0)
        (es ++ .modWrite readCmd x :: (fs ++ [.modWrite readCmd y])) →
      Always (step host) EntryReached a (fs ++ [.modWrite readCmd y]) →
      Grows (VemuState.slpTime a.lastState) (VemuState.slpTime b.lastState)) := by
  have hms : Metered s := run_preserves step_metered hs (init_metered pm t0)
  have hmt : Metered t := run_preserves step_metered ht (step_metered s _ a hms ha)
  have hlatch := ha
  have hlatch' := hb
  rw [step, mod_write_read_cmd] at hlatch hlatch'
  have hsnap := latch_snapshot hms hlatch
  have hsnap' := latch_snapshot hmt hlatch'
  obtain ⟨htime, hcount⟩ := step_counts ha
  obtain ⟨htime', hcount'⟩ := run_counts ht
  obtain ⟨hcycles, hact, htotal, hall⟩ := hsnap.counters_grow hsnap'
    (fun c ↦ (htime c).trans (htime' c)) (fun c ↦ (hcount c).trans (hcount' c))
  refine ⟨hcycles, hact, htotal, hall, fun hstart hclock hentry ↦ grows_of_toNat_le ?_⟩
  rw [always_append hs, always_cons ha, always_append ht] at hclock
  rw [always_append ht] at hentry
  obtain ⟨hes, hx, hfs, hy⟩ := hclock
  have hts : Timely t0 s := run_invariant step_timely hs hes (init_timely pm hstart)
  have hta : Timely t0 a := step_timely s _ a hts hx ha
  obtain ⟨htt, hreach⟩ := run_reach hta ht hfs hentry.1
  have hsa : reach t0 a = reach t0 s := by
    cases step_clock ha with
    | quiet hkeep hvm htime => exact reach_congr hkeep hvm (int_total_congr htime)
  have hslp : (rawSlpTime s).toInt ≤ (rawSlpTime t).toInt := by
    rw [htt.raw_eq_reach hy.1.2.1 (hentry.2.1 rfl)]
    exact (hts.raw_le_reach hx.2.1).trans (hsa.ge.trans hreach)
  have hle : ((vemuGetSlpTime s).toNat : ℤ) ≤ (vemuGetSlpTime t).toNat := by
    rw [slp_time_toNat, slp_time_toNat]
    exact max_le_max le_rfl hslp
  rw [hsnap.slpTime_eq, hsnap'.slpTime_eq]
  exact_mod_cast hle

def firstSleep : List Event := [.act .sleepStart, .act (.clock 100), .act .activeStart]

def secondSleep (now : UInt64) : List Event :=
  [load, .act .sleepStart, .act (.clock now), .act .activeStart]

theorem late_wake_grows :
    ∃ s a t b, run (step linearHost) (vemuInitCycles gigahertz 0) firstSleep = .ok s ∧
      step linearHost s (.modWrite readCmd 0) = .ok a ∧
      run (step linearHost) a (secondSleep 110) = .ok t ∧
      step linearHost t (.modWrite readCmd 0) = .ok b ∧
      Grows (VemuState.slpTime a.lastState) (VemuState.slpTime b.lastState) := by
  have hok : Ends (fun _ ↦ True) (run (step linearHost) (vemuInitCycles gigahertz 0)
      (firstSleep ++ .modWrite readCmd 0 :: (secondSleep 110 ++ [.modWrite readCmd 0]))) := by
    decide +kernel
  obtain ⟨b, hb, _⟩ := hok.exists
  obtain ⟨s, hs, hb⟩ := run_append_eq_ok.mp hb
  obtain ⟨a, ha, hb⟩ := run_cons_eq_ok.mp hb
  obtain ⟨t, ht, hb⟩ := run_snoc_eq_ok.mp hb
  have hclock : Always (step linearHost) HostClock (vemuInitCycles gigahertz 0)
      (firstSleep ++ .modWrite readCmd 0 :: (secondSleep 110 ++ [.modWrite readCmd 0])) := by
    decide +kernel
  have hentry : Always (step linearHost) EntryReached (vemuInitCycles gigahertz 0)
      (firstSleep ++ .modWrite readCmd 0 :: (secondSleep 110 ++ [.modWrite readCmd 0])) := by
    decide +kernel
  rw [always_append hs, always_cons ha] at hentry
  exact ⟨s, a, t, b, hs, ha, ht, hb, (snapshot_counters_grow linearHost gigahertz 0 0 0 firstSleep
    (secondSleep 110) s a t b hs ha ht hb).2.2.2.2 (by decide) hclock hentry.2.2⟩

/-- Woken a nanosecond after the first sleep ended, the processor takes two nanoseconds of the
sleep time back. -/
theorem early_wake_shrinks :
    ∃ a b, run (step linearHost) (vemuInitCycles gigahertz 0)
        (firstSleep ++ [.modWrite readCmd 0]) = .ok a ∧
      run (step linearHost) a (secondSleep 101 ++ [.modWrite readCmd 0]) = .ok b ∧
      VemuState.slpTime b.lastState < VemuState.slpTime a.lastState := by
  have hok : Ends (fun a ↦ Ends (fun b ↦ VemuState.slpTime b.lastState <
      VemuState.slpTime a.lastState)
      (run (step linearHost) a (secondSleep 101 ++ [.modWrite readCmd 0])))
      (run (step linearHost) (vemuInitCycles gigahertz 0)
        (firstSleep ++ [.modWrite readCmd 0])) := by
    decide +kernel
  obtain ⟨a, ha, h⟩ := hok.exists
  obtain ⟨b, hb, hlt⟩ := h.exists
  exact ⟨a, b, ha, hb, hlt⟩

end VarEmu.Emulator.Snapshots
