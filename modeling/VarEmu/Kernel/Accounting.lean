import Mathlib.Algebra.BigOperators.Option
import VarEmu.Library.Accounts
import VarEmu.Kernel.Events

namespace VarEmu.Kernel.Accounting

open Emulator.State Driver Events Library.Execution Library.Accounts
open Emulator.Cycles (vemuInitCycles)
open Emulator.Machine (Activity linearHost gigahertz ldr)
open scoped BigOperators

variable {D A : Type} {hw : Hardware D A}

/-- Only created tasks are scheduled, those to come have no counts yet, and before the window is
mapped there are no counts at all. -/
structure WellFormed (k : KernelState D) : Prop where
  current_lt : k.current < k.nrTasks
  next_lt : ∀ next, k.window = .switching next → next < k.nrTasks
  fresh : ∀ t, k.nrTasks ≤ t → k.vemu t = fun _ ↦ 0
  clean : k.basePointer = false →
    k.pin = (fun _ ↦ 0) ∧ k.pout = (fun _ ↦ 0) ∧ k.sys = (fun _ ↦ 0) ∧ ∀ t, k.vemu t = fun _ ↦ 0

theorem boot_wellFormed (dev : D) : WellFormed (boot dev) where
  current_lt := Nat.one_pos
  next_lt := nofun
  fresh _ _ := rfl
  clean _ := ⟨rfl, rfl, rfl, fun _ ↦ rfl⟩

theorem saved_zero : saved (fun _ ↦ 0) (fun _ ↦ 0) (fun _ ↦ 0) = fun _ ↦ 0 := by
  funext i
  fin_cases i <;> rfl

theorem add_delta_zero : vemuAddDelta (fun _ ↦ 0) (fun _ ↦ 0) (fun _ ↦ 0) = fun _ ↦ 0 := by
  funext i
  simp [vemuAddDelta]

theorem fork_vemu {k : KernelState D} (hk : WellFormed k) : (dupTaskStruct k).vemu = k.vemu := by
  simp only [dupTaskStruct, Function.update_idem]
  rw [← hk.fresh k.nrTasks le_rfl, Function.update_eq_self]

theorem step_wellFormed (k : KernelState D) (e : Event A) (k' : KernelState D) (hk : WellFormed k)
    (h : step hw k e = .ok k') : WellFormed k' := by
  cases step_outcome h with
  | quiet _ hs | hardware _ _ hs | latch _ _ hs | write _ _ _ _ _ hs =>
    rw [hs]
    exact ⟨hk.current_lt, hk.next_lt, hk.fresh, hk.clean⟩
  | init _ hb hs =>
    subst hs
    exact ⟨hk.current_lt, hk.next_lt, hk.fresh, nofun⟩
  | fork hidle hs =>
    subst hs
    refine ⟨Nat.lt_succ_of_lt hk.current_lt, ?_, ?_, ?_⟩
    · intro next hn
      exact absurd (hidle.1.symm.trans hn) nofun
    · intro t ht
      rw [fork_vemu hk]
      exact hk.fresh t (Nat.le_of_succ_le ht)
    · rw [fork_vemu hk]
      exact hk.clean
  | out _ _ _ hnext hread hs =>
    subst hs
    refine ⟨hk.current_lt, hnext, ?_, ?_⟩
    · intro t ht
      have hne : t ≠ k.current := (hk.current_lt.trans_le ht).ne'
      simp only [Function.update_of_ne hne]
      exact hk.fresh t ht
    · intro hb
      obtain ⟨hpin, hpout, hsys, hvemu⟩ := hk.clean hb
      rcases read_state_ok hread with ⟨_, _, rfl⟩ | ⟨hb', _⟩
      · refine ⟨hpin, hpout, hsys, ?_⟩
        intro t
        simp only [hpin, hpout, hvemu, saved_zero, Function.update_apply, ite_self]
      · exact absurd (hb.symm.trans hb') nofun
  | into _ _ hnext hread _ hs =>
    subst hs
    refine ⟨?_, nofun, hk.fresh, ?_⟩
    · rcases hnext with hn | rfl
      · exact hk.next_lt _ hn
      · exact hk.current_lt
    · intro hb
      obtain ⟨hpin, hpout, hsys, hvemu⟩ := hk.clean hb
      rcases read_state_ok hread with ⟨_, _, rfl⟩ | ⟨hb', _⟩
      · refine ⟨hpin, hpout, ?_, hvemu⟩
        simp only [hpin, hpout, hsys, add_delta_zero]
      · exact absurd (hb.symm.trans hb') nofun

/-- One counter as accounts that share a meter: the tasks and, under `none`, the kernel itself.
While a task runs, the last reading charged is that of `vemu_process_in`. -/
def ledger (k : KernelState D) (i : Fin vemuStateNVars) : Ledger (Option ℕ) UInt64 where
  mark := if k.window = .running then k.pin i else k.pout i
  account
    | none => k.sys i
    | some t => k.vemu t i

def holders (k : KernelState D) : Finset (Option ℕ) := Finset.insertNone (Finset.range k.nrTasks)

/-- Each hook charges the meter to one account: the first to the task it takes off the
processor, the second to the kernel. Nothing else moves an account. -/
theorem step_ledger {k k' : KernelState D} {e : Event A} (hk : WellFormed k)
    (h : step hw k e = .ok k') {i : Fin vemuStateNVars} (hi : i.val < vemuStateNVars - 3) :
    ledger k' i = ledger k i ∨
    (callsOut e = true ∧ ledger k' i = (ledger k i).charge (some k.current) (k'.pout i)) ∨
    (callsIn e = true ∧ ledger k' i = (ledger k i).charge none (k'.pin i)) := by
  cases step_outcome h with
  | quiet _ hs | hardware _ _ hs | latch _ _ hs | write _ _ _ _ _ hs =>
    left
    rw [hs]
    rfl
  | init hidle hb hs =>
    left
    subst hs
    obtain ⟨hpin, _, hsys, _⟩ := hk.clean hb
    simp [ledger, variabilityInit, hpin, hsys, hidle.1]
  | fork _ hs =>
    left
    subst hs
    rw [ledger, fork_vemu hk]
    rfl
  | out hout hrun hwindow _ _ hs =>
    right
    left
    subst hs
    refine ⟨hout, ?_⟩
    simp only [ledger, Ledger.charge, if_neg hwindow, if_pos hrun, Ledger.mk.injEq, true_and]
    funext a
    cases a with
    | none => simp
    | some t =>
      by_cases ht : t = k.current
      · subst ht
        simp [saved_counter _ _ _ hi]
      · simp [ht]
  | into hin hrun _ _ _ hs =>
    right
    right
    subst hs
    refine ⟨hin, ?_⟩
    simp only [ledger, Ledger.charge, if_neg hrun, if_true, Ledger.mk.injEq, true_and]
    funext a
    cases a with
    | none => simp [add_delta_counter _ _ _ hi]
    | some t => simp

theorem step_holders {k k' : KernelState D} {e : Event A} (h : step hw k e = .ok k') :
    k'.nrTasks = k.nrTasks ∨ (k'.nrTasks = k.nrTasks + 1 ∧ k' = dupTaskStruct k) := by
  cases step_outcome h with
  | quiet _ hs | hardware _ _ hs | latch _ _ hs | write _ _ _ _ _ hs | init _ _ hs
  | out _ _ _ _ _ hs | into _ _ _ _ _ hs =>
    have hn := congrArg KernelState.nrTasks hs
    exact .inl hn
  | fork _ hs => exact .inr ⟨congrArg KernelState.nrTasks hs, hs⟩

def Balances (k : KernelState D) : Prop :=
  WellFormed k ∧ ∀ i, i.val < vemuStateNVars - 3 → (ledger k i).Balanced (holders k)

theorem boot_balances (dev : D) : Balances (boot dev) := by
  refine ⟨boot_wellFormed dev, ?_⟩
  intro i _
  simp [Ledger.Balanced, holders, ledger, boot]

theorem step_balances (k : KernelState D) (e : Event A) (k' : KernelState D) (hk : Balances k)
    (h : step hw k e = .ok k') : Balances k' := by
  obtain ⟨hwf, hbal⟩ := hk
  refine ⟨step_wellFormed k e k' hwf h, ?_⟩
  intro i hi
  have hcurrent : some k.current ∈ holders k := by
    simpa [holders] using hwf.current_lt
  have hkernel : none ∈ holders k := by simp [holders]
  have hb : (ledger k' i).Balanced (holders k) := by
    rcases step_ledger hwf h hi with hl | ⟨_, hl⟩ | ⟨_, hl⟩
    · rw [hl]
      exact hbal i hi
    · rw [hl]
      exact (hbal i hi).charge hcurrent _
    · rw [hl]
      exact (hbal i hi).charge hkernel _
  rcases step_holders h with hn | ⟨hn, hs⟩
  · rwa [holders, hn]
  · have hnew : (ledger k' i).account (some k.nrTasks) = 0 := by
      rw [hs]
      simp [ledger, dupTaskStruct]
    have hinsert := hb.insert (by simp [holders]) hnew
    convert hinsert using 1
    ext a
    simp only [holders, hn, Finset.mem_insert, Finset.range_add_one]
    cases a with
    | none => simp
    | some t => simp

variable (hw) in
def hardwareValue (k : KernelState D) : VemuState :=
  match hw.iowrite32 k.dev readCmd 1 with
  | .ok dev => hw.memcpyFromio dev
  | .error _ => fun _ ↦ 0

structure Interval where
  task : ℕ
  opened : VemuState
  closed : VemuState

variable (hw) in
/-- The intervals of a run. The one in progress when the window is mapped was opened at zero. -/
def intervals : VemuState → KernelState D → List (Event A) → List Interval
  | _, _, [] => []
  | opened, k, e :: es => match step hw k e with
    | .ok k' =>
      if k.basePointer && callsOut e then
        ⟨k.current, opened, hardwareValue hw k⟩ :: intervals opened k' es
      else if k.basePointer && callsIn e then intervals (hardwareValue hw k) k' es
      else intervals opened k' es
    | .error _ => []

def attributed (t : ℕ) (i : Fin vemuStateNVars) (ivs : List Interval) : UInt64 :=
  (ivs.map fun iv ↦ if iv.task = t then iv.closed i - iv.opened i else 0).sum

theorem read_state_value {k : KernelState D} {target w : VemuState} {dev : D}
    (h : vemuReadState hw k target = .ok (dev, w)) :
    w = if k.basePointer then hardwareValue hw k else target := by
  rcases read_state_ok h with ⟨hb, _, rfl⟩ | ⟨hb, hd, rfl⟩
  · simp [hb]
  · simp [hb, hardwareValue, hd]

variable (hw) in
def closedBy (k : KernelState D) (e : Event A) : List Interval :=
  if k.basePointer && callsOut e then [⟨k.current, k.pin, hardwareValue hw k⟩] else []

theorem attributed_append (t : ℕ) (i : Fin vemuStateNVars) (ivs jvs : List Interval) :
    attributed t i (ivs ++ jvs) = attributed t i ivs + attributed t i jvs := by
  simp [attributed]

theorem attributed_unclosed {k : KernelState D} {e : Event A}
    (h : (k.basePointer && callsOut e) = false) (t : ℕ) (i : Fin vemuStateNVars) :
    attributed t i (closedBy hw k e) = 0 := by
  rw [closedBy, h]
  rfl

theorem step_attributed {k k' : KernelState D} {e : Event A} (hk : WellFormed k)
    (h : step hw k e = .ok k') (t : ℕ) {i : Fin vemuStateNVars} (hi : i.val < vemuStateNVars - 3) :
    k'.vemu t i = k.vemu t i + attributed t i (closedBy hw k e) := by
  cases step_outcome h with
  | quiet he hs =>
    rw [attributed_unclosed (by simp [(silent_hooks he).1]), add_zero, hs]
  | hardware _ _ hs | write _ _ _ _ _ hs =>
    rw [attributed_unclosed (by simp [callsOut]), add_zero, hs]
  | latch hhw _ hs =>
    rw [attributed_unclosed (by simp [callsOut, hhw]), add_zero, hs]
    rfl
  | init _ hb hs =>
    rw [attributed_unclosed (by simp [hb]), add_zero, hs]
    rfl
  | fork _ hs =>
    rw [attributed_unclosed (by simp [callsOut]), add_zero, hs, fork_vemu hk]
  | into hin _ _ _ _ hs =>
    rw [attributed_unclosed (by simp [calls_in_not_out hin]), add_zero, hs]
  | out hout _ _ _ hread hs =>
    subst hs
    have hpout := read_state_value hread
    cases hb : k.basePointer with
    | false =>
      obtain ⟨hpin, hpout', _, _⟩ := hk.clean hb
      rw [attributed_unclosed (by simp [hb]), add_zero]
      by_cases ht : t = k.current
      · simp [ht, saved_counter _ _ _ hi, hpout, hb, hpin, hpout']
      · simp [ht]
    | true =>
      simp only [closedBy, hb, hout, Bool.and_true, ↓reduceIte]
      by_cases ht : t = k.current
      · simp [ht, saved_counter _ _ _ hi, hpout, hb, attributed]
      · simp [ht, Ne.symm ht, attributed]

theorem step_pin {k k' : KernelState D} {e : Event A} (hk : WellFormed k)
    (h : step hw k e = .ok k') :
    k'.pin = if k.basePointer && callsIn e then hardwareValue hw k else k.pin := by
  cases step_outcome h with
  | quiet he hs =>
    have hpin := congrArg KernelState.pin hs
    simp only [(silent_hooks he).2, Bool.and_false, Bool.false_eq_true, ↓reduceIte]
    exact hpin
  | hardware _ _ hs | write _ _ _ _ _ hs | latch _ _ hs | fork _ hs =>
    have hpin := congrArg KernelState.pin hs
    simp only [callsIn, Bool.and_false, Bool.false_eq_true, ↓reduceIte]
    exact hpin
  | init _ hb hs => simp [hb, hs, variabilityInit, (hk.clean hb).1]
  | out hout _ _ _ _ hs => simp [calls_out_not_in hout, hs]
  | into hin _ _ hread _ hs => simp [hin, hs, read_state_value hread]

theorem intervals_cons {k k' : KernelState D} {e : Event A} {es : List (Event A)}
    (hk : WellFormed k) (h : step hw k e = .ok k') :
    intervals hw k.pin k (e :: es) = closedBy hw k e ++ intervals hw k'.pin k' es := by
  rw [step_pin hk h]
  simp only [intervals, h, closedBy]
  cases k.basePointer with
  | false => simp
  | true =>
    cases hout : callsOut e with
    | false => cases callsIn e <;> simp
    | true => simp [calls_out_not_in hout]

theorem run_attributed {k k' : KernelState D} {es : List (Event A)} (hk : WellFormed k)
    (h : run (step hw) k es = .ok k') (t : ℕ) {i : Fin vemuStateNVars}
    (hi : i.val < vemuStateNVars - 3) :
    k'.vemu t i = k.vemu t i + attributed t i (intervals hw k.pin k es) := by
  induction es generalizing k with
  | nil =>
    rw [run_nil_eq_ok] at h
    subst h
    simp [intervals, attributed]
  | cons e es ih =>
    obtain ⟨m, hm, hr⟩ := run_cons_eq_ok.mp h
    rw [ih (step_wellFormed k e m hk hm) hr, step_attributed hk hm t hi,
      intervals_cons hk hm, attributed_append, add_assoc]

/-- In every state of every run from boot, the counts of the kernel and of all tasks add up to
the reading of the last hook, and each task has been given exactly its own intervals. -/
theorem accounting_balances (hw : Hardware D A) (dev : D) (es : List (Event A))
    (k : KernelState D) (hrun : run (step hw) (boot dev) es = .ok k) (i : Fin vemuStateNVars)
    (hi : i.val < 17) :
    (k.window = .running → k.sys i + ∑ t ∈ Finset.range k.nrTasks, k.vemu t i = k.pin i) ∧
    (k.window ≠ .running → k.sys i + ∑ t ∈ Finset.range k.nrTasks, k.vemu t i = k.pout i) ∧
    ∀ t, k.vemu t i = attributed t i (intervals hw (fun _ ↦ 0) (boot dev) es) := by
  have hbal : Balances k := run_preserves step_balances hrun (boot_balances dev)
  have hsum := hbal.2 i hi
  rw [Ledger.Balanced, holders, Finset.sum_insertNone] at hsum
  refine ⟨?_, ?_, ?_⟩
  · intro hwin
    simpa [ledger, hwin] using hsum
  · intro hwin
    simpa [ledger, hwin] using hsum
  · intro t
    rw [run_attributed (boot_wellFormed dev) hrun t hi]
    simp [boot]

def tour : List (Event Activity) :=
  [.hardware ldr, .variabilityInit, .dupTaskStruct, .hardware ldr, .prepareTaskSwitch 1,
    .hardware ldr, .finishTaskSwitch, .hardware ldr, .sysVarRegRead readProc, .hardware ldr,
    .sysVarRegReadProcIn, .copyFail, .hardware ldr, .prepareTaskSwitch 0, .hardware ldr,
    .finishTaskSwitch]

theorem tour_balances :
    ∃ k, run (step (emulator linearHost)) (boot (vemuInitCycles gigahertz 0)) tour = .ok k ∧
      k.sys 14 + ∑ t ∈ Finset.range k.nrTasks, k.vemu t 14 = k.pin 14 ∧
      k.vemu 1 14 = attributed 1 14 (intervals (emulator linearHost) (fun _ ↦ 0)
        (boot (vemuInitCycles gigahertz 0)) tour) := by
  have hok : Ends (fun k ↦ k.window = .running)
      (run (step (emulator linearHost)) (boot (vemuInitCycles gigahertz 0)) tour) := by
    decide +kernel
  obtain ⟨k, hk, hwin⟩ := hok.exists
  have h := accounting_balances (emulator linearHost) (vemuInitCycles gigahertz 0) tour k hk 14
    (by decide)
  exact ⟨k, hk, h.1 hwin, h.2.2 1⟩

end VarEmu.Kernel.Accounting
