import VarEmu.Emulator.Snapshots
import VarEmu.Kernel.Accounting

namespace VarEmu.Kernel.Coherence

open Emulator.State Driver Events Library.Execution
open Emulator.Cycles (vemuInitCycles)
open Emulator.Energy (Metered)
open Emulator.Device (mod_write_read_cmd)
open Emulator.ActiveEnergy (step_metered init_metered)
open Emulator.Snapshots (SnapshotOf latch_snapshot)
open Emulator.Machine (Activity linearHost gigahertz ldr load)
open scoped BigOperators

variable {host : Host}

/-- The totals of cycles and active energy are the sums over the classes. -/
structure Coherent (w : VemuState) : Prop where
  cycles : VemuState.totalCycles w = ∑ c, VemuState.cycles w c
  actEnergy : VemuState.totalActEnergy w = ∑ c, VemuState.actEnergy w c

theorem coherent_zero : Coherent fun _ ↦ 0 where
  cycles := by simp [VemuState.totalCycles, VemuState.cycles]
  actEnergy := by simp [VemuState.totalActEnergy, VemuState.actEnergy]

/-- The relation is linear, so it is carried through modular deltas. -/
theorem coherent_of_delta {w target new old : VemuState}
    (h : ∀ i, i.val < vemuStateNVars - 3 → w i = target i + (new i - old i))
    (ht : Coherent target) (hn : Coherent new) (ho : Coherent old) : Coherent w := by
  have hcycles : ∀ c, VemuState.cycles w c =
      VemuState.cycles target c + (VemuState.cycles new c - VemuState.cycles old c) :=
    fun c ↦ h _ (by fin_cases c <;> decide)
  have henergy : ∀ c, VemuState.actEnergy w c =
      VemuState.actEnergy target c + (VemuState.actEnergy new c - VemuState.actEnergy old c) :=
    fun c ↦ h _ (by fin_cases c <;> decide)
  constructor
  · simp only [hcycles, Finset.sum_add_distrib, Finset.sum_sub_distrib, ← ht.cycles, ← hn.cycles,
      ← ho.cycles]
    exact h 14 (by decide)
  · simp only [henergy, Finset.sum_add_distrib, Finset.sum_sub_distrib, ← ht.actEnergy,
      ← hn.actEnergy, ← ho.actEnergy]
    exact h 13 (by decide)

theorem snapshot_coherent {s : Emu} {w : VemuState} (h : SnapshotOf s w) : Coherent w where
  cycles := by
    have htotal := h.totals.1
    have hlt := (VemuState.totalCycles w).toNat_lt
    apply UInt64.toNat_inj.mp
    rw [Fin.sum_univ_four] at htotal ⊢
    simp only [UInt64.toNat_add]
    omega
  actEnergy := h.totalActEnergy_eq

structure Sound (k : KernelState Emu) : Prop where
  metered : Metered k.dev
  pin : Coherent k.pin
  pout : Coherent k.pout
  sys : Coherent k.sys
  vemu : ∀ t, Coherent (k.vemu t)

theorem boot_sound (pm : Parameters) (time : UInt64) : Sound (boot (vemuInitCycles pm time)) where
  metered := init_metered pm time
  pin := coherent_zero
  pout := coherent_zero
  sys := coherent_zero
  vemu _ := coherent_zero

theorem iowrite32_metered {s s' : Emu} {offset : UInt64} {val : UInt32} (hs : Metered s)
    (h : (emulator host).iowrite32 s offset val = .ok s') : Metered s' :=
  step_metered s (.modWrite offset val.toUInt64) s' hs h

theorem read_state_sound {k : KernelState Emu} {target w : VemuState} {dev : Emu}
    (hk : Metered k.dev) (h : vemuReadState (emulator host) k target = .ok (dev, w)) :
    Metered dev ∧ (Coherent target → Coherent w) := by
  rcases read_state_ok h with ⟨_, rfl, rfl⟩ | ⟨_, hd, rfl⟩
  · exact ⟨hk, id⟩
  · have hlatch := (mod_write_read_cmd _ _).symm.trans ((emulator_iowrite32 _ _ _).symm.trans hd)
    exact ⟨iowrite32_metered hk hd, fun _ ↦ snapshot_coherent (latch_snapshot hk hlatch)⟩

theorem step_sound (k : KernelState Emu) (e : Event Activity) (k' : KernelState Emu) (hk : Sound k)
    (h : step (emulator host) k e = .ok k') : Sound k' := by
  cases step_outcome h with
  | quiet _ hs =>
    rw [hs]
    exact ⟨hk.metered, hk.pin, hk.pout, hk.sys, hk.vemu⟩
  | hardware a hact hs =>
    rw [hs]
    exact ⟨step_metered _ (.act a) _ hk.metered hact, hk.pin, hk.pout, hk.sys, hk.vemu⟩
  | latch _ hread hs =>
    rw [hs]
    exact ⟨(read_state_sound hk.metered hread).1, hk.pin, hk.pout, hk.sys, hk.vemu⟩
  | write _ _ _ _ hdev hs =>
    rw [hs]
    exact ⟨iowrite32_metered hk.metered hdev, hk.pin, hk.pout, hk.sys, hk.vemu⟩
  | init _ _ hs =>
    rw [hs]
    exact ⟨hk.metered, coherent_zero, coherent_zero, coherent_zero, hk.vemu⟩
  | fork _ hs =>
    rw [hs]
    refine ⟨hk.metered, hk.pin, hk.pout, hk.sys, ?_⟩
    intro t
    simp only [dupTaskStruct, Function.update_idem]
    by_cases ht : t = k.nrTasks
    · rw [ht, Function.update_self]
      exact coherent_zero
    · rw [Function.update_of_ne ht]
      exact hk.vemu t
  | out _ _ _ _ hread hs =>
    obtain ⟨hdev, hpout⟩ := read_state_sound hk.metered hread
    have hpout := hpout hk.pout
    rw [hs]
    refine ⟨hdev, hk.pin, hpout, hk.sys, ?_⟩
    intro t
    dsimp only
    by_cases ht : t = k.current
    · rw [ht, Function.update_self]
      exact coherent_of_delta (fun i hi ↦ saved_counter _ _ _ hi) (hk.vemu _) hpout hk.pin
    · rw [Function.update_of_ne ht]
      exact hk.vemu t
  | into _ _ _ hread hfaults hs =>
    obtain ⟨hd, hpin⟩ := read_state_sound hk.metered hread
    have hpin := hpin hk.pin
    have hdev : Metered k'.dev := by
      rw [hs]
      rcases hfaults with ⟨_, rfl⟩ | ⟨_, hw⟩
      · exact hd
      · exact iowrite32_metered hd hw
    rw [hs] at hdev ⊢
    exact ⟨hdev, hpin, hk.pout,
      coherent_of_delta (fun i hi ↦ add_delta_counter _ _ _ hi) hk.sys hpin hk.pout, hk.vemu⟩

/-- Every snapshot of the device has coherent totals, and so have the counters of the kernel and
of every task in every state of every run. -/
theorem totals_coherent (host : Host) (pm : Parameters) (time : UInt64) :
    (∀ es s val s', run (Emulator.Machine.step host) (vemuInitCycles pm time) es = .ok s →
      Emulator.Machine.step host s (.modWrite Emulator.Device.readCmd val) = .ok s' →
      (VemuState.totalCycles s'.lastState).toNat =
          ∑ c, (VemuState.cycles s'.lastState c).toNat ∧
        VemuState.totalActEnergy s'.lastState = ∑ c, VemuState.actEnergy s'.lastState c ∧
        ∑ c, (VemuState.actTime s'.lastState c).toNat ≤
          (VemuState.totalActTime s'.lastState).toNat ∧
        (VemuState.totalActTime s'.lastState).toNat ≤
          ∑ c, (VemuState.actTime s'.lastState c).toNat + 3) ∧
    (∀ es k, run (step (emulator host)) (boot (vemuInitCycles pm time)) es = .ok k →
      Coherent k.sys ∧ ∀ t, Coherent (k.vemu t)) := by
  constructor
  · intro es s val s' hs hs'
    have hm : Metered s := run_preserves step_metered hs (init_metered pm time)
    have hlatch := (mod_write_read_cmd _ _).symm.trans hs'
    exact (latch_snapshot hm hlatch).totals
  · intro es k hk
    have hsound : Sound k := run_preserves step_sound hk (boot_sound pm time)
    exact ⟨hsound.sys, hsound.vemu⟩

theorem tour_coherent :
    ∃ k, run (step (emulator linearHost)) (boot (vemuInitCycles gigahertz 0))
        Accounting.tour = .ok k ∧ Coherent k.sys ∧ Coherent (k.vemu 1) ∧
      ∃ s s', run (Emulator.Machine.step linearHost) (vemuInitCycles gigahertz 0) [load] = .ok s ∧
        Emulator.Machine.step linearHost s (.modWrite Emulator.Device.readCmd 0) = .ok s' ∧
        (VemuState.totalCycles s'.lastState).toNat =
          ∑ c, (VemuState.cycles s'.lastState c).toNat := by
  have hok : Ends (fun _ ↦ True) (run (step (emulator linearHost))
      (boot (vemuInitCycles gigahertz 0)) Accounting.tour) := by
    decide +kernel
  have hok' : Ends (fun _ ↦ True) (run (Emulator.Machine.step linearHost)
      (vemuInitCycles gigahertz 0) ([load] ++ [.modWrite Emulator.Device.readCmd 0])) := by
    decide +kernel
  obtain ⟨k, hk, _⟩ := hok.exists
  obtain ⟨s', hs', _⟩ := hok'.exists
  obtain ⟨s, hs, hs'⟩ := run_snoc_eq_ok.mp hs'
  obtain ⟨hdevice, hkernel⟩ := totals_coherent linearHost gigahertz 0
  exact ⟨k, hk, (hkernel _ k hk).1, (hkernel _ k hk).2 1, s, s', hs, hs',
    (hdevice [load] s 0 s' hs hs').1⟩

end VarEmu.Kernel.Coherence
