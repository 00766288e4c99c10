import VarEmu.Kernel.Accounting

namespace VarEmu.Kernel.UserCopy

open Emulator.State Driver Events Accounting Library.Execution
open Emulator.Cycles (vemuInitCycles)
open Emulator.Machine (Activity linearHost gigahertz ldr)

variable {D A : Type} {hw : Hardware D A}

def note (k k' : KernelState D) (v : ℕ → VemuState) : Event A → ℕ → VemuState
  | .sysVarRegRead offset =>
    if offset &&& readHw ≠ 0 then Function.update v k.current k'.tmp
    else if offset &&& readProc ≠ 0 then Function.update v k.current (k'.vemu k.current)
    else v
  | _ => v

variable (hw) in
/-- The value each task's last `READ_HW` or `READ_PROC` of the run is to deliver. -/
def taken : (ℕ → VemuState) → KernelState D → List (Event A) → ℕ → VemuState :=
  journal (step hw) fun k e k' v ↦ note k k' v e

def delivered (k : KernelState D) : Option (List UInt64) :=
  match k.copy k.current with
  | some c =>
    if h : c.sent.length + 1 = vemuStateNVars then
      some (c.sent ++ [k.source k.current c.source ⟨c.sent.length, by omega⟩])
    else none
  | none => none

/-- What a call of the current task is to deliver: a `READ_SYS` the counters of the kernel as
they are now. -/
def promised (k : KernelState D) (v : ℕ → VemuState) : Source → VemuState
  | .tmp | .proc => v k.current
  | .sys => k.sys

/-- A task is not switched out with a `READ_PROC` copy under way, nor with a `READ_SYS` copy
that has begun, and no `READ_HW` is made while another one's copy is under way. -/
def Undisturbed (k : KernelState D) : Event A → Prop
  | .prepareTaskSwitch _ =>
    ∀ c ∈ k.copy k.current, c.source = .tmp ∨ (c.source = .sys ∧ c.sent = [])
  | .sysVarRegRead offset =>
    offset &&& readHw ≠ 0 → ∀ t < k.nrTasks, ∀ c ∈ k.copy t, c.source ≠ .tmp
  | _ => True

instance (k : KernelState D) : DecidablePred (Undisturbed (A := A) k)
  | .prepareTaskSwitch _ => inferInstanceAs (Decidable (∀ c ∈ k.copy k.current, _ ∨ _ ∧ _))
  | .sysVarRegRead _ =>
    inferInstanceAs (Decidable (_ → ∀ t < k.nrTasks, ∀ c ∈ k.copy t, c.source ≠ .tmp))
  | .hardware _ | .variabilityInit | .dupTaskStruct | .finishTaskSwitch | .sysVarRegReadProcIn
  | .copyWord | .copyFail | .sysVarRegWrite _ _ => inferInstanceAs (Decidable True)

def Holds (c : Copy) (v : VemuState) : Prop := c.sent = (List.ofFn v).take c.sent.length

theorem holds_nil (source : Source) (v : VemuState) : Holds ⟨source, []⟩ v := by
  simp [Holds]

theorem Holds.snoc {c : Copy} {v : VemuState} (h : Holds c v)
    (hlt : c.sent.length < vemuStateNVars) :
    c.sent ++ [v ⟨c.sent.length, hlt⟩] = (List.ofFn v).take (c.sent.length + 1) := by
  have hlen : c.sent.length < (List.ofFn v).length := hlt.trans_eq List.length_ofFn.symm
  rw [List.take_succ_eq_append_getElem hlen, ← h, List.getElem_ofFn]

/-- The copy has taken its words from the value it is to deliver, and that value is still there
for the rest. Only a copy out of `vemu_state_tmp`, or one that has not begun, can wait while
other tasks run. -/
def Faithful (k : KernelState D) (v : ℕ → VemuState) (t : ℕ) (c : Copy) : Prop :=
  match c.source with
  | .tmp => k.tmp = v t ∧ Holds c k.tmp
  | .proc => k.window = .running ∧ t = k.current ∧ k.vemu t = v t ∧ Holds c (k.vemu t)
  | .sys => c.sent = [] ∨ (k.window = .running ∧ t = k.current ∧ Holds c k.sys)

structure Intact (k : KernelState D) (v : ℕ → VemuState) : Prop where
  owner_lt : ∀ t, ∀ c ∈ k.copy t, t < k.nrTasks
  faithful : ∀ t, ∀ c ∈ k.copy t, Faithful k v t c
  readProc : k.window = .readProc → k.vemu k.current = v k.current
  unmapped : k.basePointer = false → k.tmp = fun _ ↦ 0

theorem boot_intact (dev : D) (v : ℕ → VemuState) : Intact (boot dev) v where
  owner_lt := nofun
  faithful := nofun
  readProc := nofun
  unmapped _ := rfl

/-- A copy that other tasks may overtake. -/
def Parked (c : Copy) : Prop := c.source = .tmp ∨ (c.source = .sys ∧ c.sent = [])

section Steps

variable {k k' : KernelState D} {v v' : ℕ → VemuState}

theorem Faithful.parked {t : ℕ} {c : Copy} (h : Faithful k v t c)
    (hrest : k.window = .running → t ≠ k.current) : Parked c := by
  rcases c with ⟨source, sent⟩
  cases source with
  | tmp => exact .inl rfl
  | proc => exact absurd h.2.1 (hrest h.1)
  | sys =>
    rcases h with h | h
    · exact .inr ⟨rfl, h⟩
    · exact absurd h.2.1 (hrest h.1)

theorem Intact.parked_of_idle (hi : Intact k v)
    (hidle : k.window = .running → k.copy k.current = none) (t : ℕ) (c : Copy)
    (hc : c ∈ k.copy t) : Parked c := by
  apply (hi.faithful t c hc).parked
  intro hrun ht
  subst ht
  rw [hidle hrun] at hc
  exact nomatch hc

theorem Intact.of_parked (hi : Intact k v) (hp : ∀ t, ∀ c ∈ k.copy t, Parked c)
    (hcopy : k'.copy = k.copy) (hn : k.nrTasks ≤ k'.nrTasks)
    (hv : ∀ t, ∀ c ∈ k.copy t, c.source = .tmp → k'.tmp = k.tmp ∧ v' t = v t)
    (hread : k'.window = .readProc → k'.vemu k'.current = v' k'.current)
    (hunmapped : k'.basePointer = false → k'.tmp = fun _ ↦ 0) : Intact k' v' where
  owner_lt t c hc := by
    rw [hcopy] at hc
    exact (hi.owner_lt t c hc).trans_le hn
  faithful t c hc := by
    rw [hcopy] at hc
    have hf := hi.faithful t c hc
    have hpc := hp t c hc
    have hvc := hv t c hc
    rcases c with ⟨source, sent⟩
    cases source with
    | tmp =>
      obtain ⟨htmp, hvt⟩ := hvc rfl
      exact ⟨htmp.trans (hf.1.trans hvt.symm), htmp ▸ hf.2⟩
    | proc => exact absurd hpc nofun
    | sys => exact .inl (hpc.resolve_left nofun).2
  readProc := hread
  unmapped := hunmapped

theorem Intact.setCopy (hi : Intact k v) (hcur : k.current < k.nrTasks) (o : Option Copy)
    (ho : ∀ c ∈ o, Faithful k v k.current c) :
    Intact { k with copy := Function.update k.copy k.current o } v where
  owner_lt t c hc := by
    dsimp only at hc
    by_cases ht : t = k.current
    · exact ht ▸ hcur
    · rw [Function.update_of_ne ht] at hc
      exact hi.owner_lt t c hc
  faithful t c hc := by
    dsimp only at hc
    by_cases ht : t = k.current
    · subst ht
      rw [Function.update_self] at hc
      exact ho c hc
    · rw [Function.update_of_ne ht] at hc
      exact hi.faithful t c hc
  readProc := hi.readProc
  unmapped := hi.unmapped

theorem Intact.copyWord (hi : Intact k v) (hcur : k.current < k.nrTasks)
    (hrun : k.window = .running) (h : copyWord k = .ok k') : Intact k' v := by
  obtain ⟨c, hlt, hc, rfl⟩ := copy_word_ok h
  apply hi.setCopy hcur
  intro d hd
  split_ifs at hd
  · exact nomatch hd
  · cases hd
    have hf := hi.faithful k.current c hc
    have hnext : ∀ w : VemuState, k.source k.current c.source = w → Holds c w →
        Holds ⟨c.source, c.sent ++ [k.source k.current c.source ⟨c.sent.length, hlt⟩]⟩ w := by
      rintro w rfl hw
      rw [Holds, List.length_append, List.length_singleton]
      exact hw.snoc hlt
    rcases c with ⟨source, sent⟩
    cases source with
    | tmp => exact ⟨hf.1, hnext k.tmp rfl hf.2⟩
    | proc => exact ⟨hrun, rfl, hf.2.2.1, hnext (k.vemu k.current) rfl hf.2.2.2⟩
    | sys =>
      have hw : Holds ⟨.sys, sent⟩ k.sys := by
        rcases hf with hf | hf
        · cases hf
          exact holds_nil _ _
        · exact hf.2.2
      exact .inr ⟨hrun, rfl, hnext k.sys rfl hw⟩

theorem Intact.prepareTaskSwitch {next : ℕ} (hi : Intact k v)
    (hc : Undisturbed (A := A) k (.prepareTaskSwitch next))
    (h : vemuProcessOut hw k = .ok k') : Intact { k' with window := .switching next } v := by
  obtain ⟨dev, pout, _, rfl⟩ := process_out_ok h
  have hp : ∀ t, ∀ c ∈ k.copy t, Parked c := by
    intro t c hcopy
    by_cases ht : t = k.current
    · subst ht
      exact hc c hcopy
    · exact (hi.faithful t c hcopy).parked fun _ ↦ ht
  exact hi.of_parked hp rfl le_rfl (fun _ _ _ _ ↦ ⟨rfl, rfl⟩) nofun hi.unmapped

theorem Intact.processIn {next : ℕ} (hi : Intact k v) (hwin : k.window ≠ .running)
    (h : vemuProcessIn hw { k with current := next, window := .running } = .ok k') :
    Intact k' v := by
  obtain ⟨d, pin, dev, _, rfl, _⟩ := process_in_ok h
  have hp := hi.parked_of_idle fun hrun ↦ absurd hrun hwin
  exact hi.of_parked hp rfl le_rfl (fun _ _ _ _ ↦ ⟨rfl, rfl⟩) nofun hi.unmapped

theorem Intact.readHw {dev : D} {tmp : VemuState} (hi : Intact k v) (hidle : Idle k)
    (hcur : k.current < k.nrTasks) (hc : ∀ t < k.nrTasks, ∀ c ∈ k.copy t, c.source ≠ .tmp)
    (h : vemuReadState hw k k.tmp = .ok (dev, tmp)) :
    Intact (KernelState.openCopy { k with dev, tmp } .tmp) (Function.update v k.current tmp) := by
  have hbase : Intact { k with dev, tmp } (Function.update v k.current tmp) := by
    refine hi.of_parked (hi.parked_of_idle fun _ ↦ hidle.2) rfl le_rfl ?_ ?_ ?_
    · exact fun t c hcopy hs ↦ absurd hs (hc t (hi.owner_lt t c hcopy) c hcopy)
    · exact fun hwin ↦ absurd (hidle.1.symm.trans hwin) nofun
    · intro hb
      rcases read_state_ok h with ⟨_, _, rfl⟩ | ⟨hb', _⟩
      · exact hi.unmapped hb
      · exact absurd (hb.symm.trans hb') nofun
  apply hbase.setCopy hcur
  intro c hcopy
  cases hcopy
  exact ⟨by simp, holds_nil _ _⟩

theorem Intact.sysVarRegRead {offset : Int32} (hi : Intact k v) (hidle : Idle k)
    (hcur : k.current < k.nrTasks) (hc : Undisturbed (A := A) k (.sysVarRegRead offset))
    (h : sysVarRegRead hw k offset = .ok k') :
    Intact k' (note (A := A) k k' v (.sysVarRegRead offset)) := by
  unfold Driver.sysVarRegRead at h
  simp only [note]
  split_ifs at h ⊢ with hhw hproc hsys
  · obtain ⟨⟨dev, tmp⟩, hr, h⟩ := bind_ok_iff.mp h
    cases h
    exact hi.readHw hidle hcur (hc hhw) hr
  · obtain ⟨m, hm, h⟩ := bind_ok_iff.mp h
    obtain ⟨dev, pout, _, rfl⟩ := process_out_ok hm
    cases h
    refine hi.of_parked (hi.parked_of_idle fun _ ↦ hidle.2) rfl le_rfl ?_ ?_ hi.unmapped
    · intro t c hcopy _
      refine ⟨rfl, Function.update_of_ne ?_ _ _⟩
      rintro rfl
      rw [hidle.2] at hcopy
      exact nomatch hcopy
    · intro _
      simp
  · cases h
    apply hi.setCopy hcur
    intro c hcopy
    cases hcopy
    exact .inl rfl
  · cases h
    exact hi

theorem step_intact {e : Event A} (hk : WellFormed k) (hi : Intact k v) (hc : Undisturbed k e)
    (h : step hw k e = .ok k') : Intact k' (note k k' v e) := by
  cases e with
  | hardware a =>
    obtain ⟨dev, _, h⟩ := bind_ok_iff.mp h
    cases h
    exact ⟨hi.owner_lt, hi.faithful, hi.readProc, hi.unmapped⟩
  | variabilityInit =>
    obtain ⟨hidle, h⟩ := guard_ok_iff.mp h
    cases h
    refine hi.of_parked (hi.parked_of_idle fun _ ↦ hidle.1.2) rfl le_rfl ?_ ?_ ?_
    · exact fun _ _ _ _ ↦ ⟨(hi.unmapped hidle.2).symm, rfl⟩
    · intro hwin
      simp [variabilityInit, hidle.1.1] at hwin
    · intro hb
      simp [variabilityInit] at hb
  | dupTaskStruct =>
    obtain ⟨hidle, h⟩ := guard_ok_iff.mp h
    cases h
    have hnew : k.copy k.nrTasks = none := by
      cases hcopy : k.copy k.nrTasks with
      | none => rfl
      | some c => exact absurd (hi.owner_lt _ c hcopy) (lt_irrefl _)
    refine hi.of_parked (hi.parked_of_idle fun _ ↦ hidle.2) ?_ (Nat.le_succ _) ?_ ?_ hi.unmapped
    · rw [dupTaskStruct, ← hnew, Function.update_eq_self]
    · exact fun _ _ _ _ ↦ ⟨rfl, rfl⟩
    · intro hwin
      simp [dupTaskStruct, hidle.1] at hwin
  | prepareTaskSwitch next =>
    obtain ⟨-, h⟩ := guard_ok_iff.mp h
    obtain ⟨m, hm, h⟩ := bind_ok_iff.mp h
    cases h
    exact hi.prepareTaskSwitch hc hm
  | finishTaskSwitch =>
    obtain ⟨next, hwin, h⟩ := finish_task_switch_ok h
    exact hi.processIn (by simp [hwin]) h
  | sysVarRegRead offset =>
    obtain ⟨hidle, h⟩ := guard_ok_iff.mp h
    exact hi.sysVarRegRead hidle hk.current_lt hc h
  | sysVarRegReadProcIn =>
    obtain ⟨hwin, h⟩ := guard_ok_iff.mp h
    obtain ⟨m, hm, h⟩ := bind_ok_iff.mp h
    cases h
    have hm' : Intact m v := hi.processIn (by simp [hwin]) hm
    obtain ⟨d, pin, dev, _, rfl, _⟩ := process_in_ok hm
    apply hm'.setCopy hk.current_lt
    intro c hcopy
    cases hcopy
    exact ⟨rfl, rfl, hi.readProc hwin, holds_nil _ _⟩
  | copyWord =>
    obtain ⟨hrun, h⟩ := guard_ok_iff.mp h
    exact hi.copyWord hk.current_lt hrun h
  | copyFail =>
    obtain ⟨-, h⟩ := guard_ok_iff.mp h
    cases h
    exact hi.setCopy hk.current_lt none (by simp)
  | sysVarRegWrite offset val =>
    obtain ⟨-, h⟩ := guard_ok_iff.mp h
    rw [sys_var_reg_write_frame h]
    exact ⟨hi.owner_lt, hi.faithful, hi.readProc, hi.unmapped⟩

theorem run_intact {es : List (Event A)} (hk : WellFormed k) (hi : Intact k v)
    (h : run (step hw) k es = .ok k') (hc : Always (step hw) Undisturbed k es) :
    Intact k' (taken hw v k es) := by
  refine (run_journal (R := fun v k ↦ WellFormed k ∧ Intact k v) ?_ h hc ⟨hk, hi⟩).2
  intro v k e m hk hc hm
  exact ⟨step_wellFormed k e m hk.1 hm, step_intact hk.1 hk.2 hc hm⟩

end Steps

/-- In a run in which no copy is disturbed, every call delivers the words of one value: the
snapshot it latched, its own counters as it left them, or the counters of the kernel. -/
theorem copies_atomic (hw : Hardware D A) (dev : D) (es : List (Event A)) (k : KernelState D)
    (c : Copy) (words : List UInt64)
    (hrun : run (step hw) (boot dev) es = .ok k)
    (hcond : Always (step hw) Undisturbed (boot dev) es)
    (hc : k.copy k.current = some c) (hwords : delivered k = some words) :
    words = List.ofFn (promised k (taken hw (fun _ _ ↦ 0) (boot dev) es) c.source) := by
  have hi := run_intact (boot_wellFormed dev) (boot_intact dev fun _ _ ↦ 0) hrun hcond
  have hf := hi.faithful k.current c hc
  simp only [delivered, hc] at hwords
  split_ifs at hwords with hlen
  cases hwords
  have hlt : c.sent.length < vemuStateNVars := by omega
  have hall : ∀ w : VemuState, Holds c w → c.sent ++ [w ⟨c.sent.length, hlt⟩] = List.ofFn w := by
    intro w hw
    rw [hw.snoc hlt, hlen, List.take_of_length_le List.length_ofFn.le]
  rcases c with ⟨source, sent⟩
  cases source with
  | tmp =>
    rw [promised, ← hf.1]
    exact hall k.tmp hf.2
  | proc =>
    rw [promised, ← hf.2.2.1]
    exact hall (k.vemu k.current) hf.2.2.2
  | sys =>
    rcases hf with hf | hf
    · cases hf
      exact absurd hlen (by decide)
    · exact hall k.sys hf.2.2

def interruptedCopy (between : List (Event Activity)) : List (Event Activity) :=
  [.variabilityInit, .dupTaskStruct, .sysVarRegRead readHw] ++ List.replicate 10 .copyWord ++
    [.prepareTaskSwitch 1, .hardware ldr, .finishTaskSwitch] ++ between ++
    [.prepareTaskSwitch 0, .finishTaskSwitch] ++ List.replicate 9 .copyWord

theorem read_sys_between_atomic :
    ∃ k c words, run (step (emulator linearHost)) (boot (vemuInitCycles gigahertz 0))
        (interruptedCopy [.sysVarRegRead readSys]) = .ok k ∧
      k.copy k.current = some c ∧ delivered k = some words ∧
      words = List.ofFn (promised k (taken (emulator linearHost) (fun _ _ ↦ 0)
        (boot (vemuInitCycles gigahertz 0)) (interruptedCopy [.sysVarRegRead readSys]))
        c.source) := by
  have hok : Ends (fun k ↦ (k.copy k.current).isSome ∧ (delivered k).isSome)
      (run (step (emulator linearHost)) (boot (vemuInitCycles gigahertz 0))
        (interruptedCopy [.sysVarRegRead readSys])) := by
    decide +kernel
  have hcond : Always (step (emulator linearHost)) Undisturbed (boot (vemuInitCycles gigahertz 0))
      (interruptedCopy [.sysVarRegRead readSys]) := by
    decide +kernel
  obtain ⟨k, hk, hc, hw⟩ := hok.exists
  obtain ⟨c, hc⟩ := Option.isSome_iff_exists.mp hc
  obtain ⟨words, hw⟩ := Option.isSome_iff_exists.mp hw
  exact ⟨k, c, words, hk, hc, hw, copies_atomic _ _ _ k c words hk hcond hc hw⟩

def tornRun : List (Event Activity) :=
  interruptedCopy (.sysVarRegRead readHw :: List.replicate 20 .copyWord)

theorem torn_run_mixes :
    ∃ k c words, run (step (emulator linearHost)) (boot (vemuInitCycles gigahertz 0))
        tornRun = .ok k ∧
      k.copy k.current = some c ∧ delivered k = some words ∧
      words ≠ List.ofFn (promised k (taken (emulator linearHost) (fun _ _ ↦ 0)
        (boot (vemuInitCycles gigahertz 0)) tornRun) c.source) ∧
      words ≠ List.ofFn k.tmp := by
  have hok : Ends (fun k ↦ ∃ c ∈ k.copy k.current, ∃ words ∈ delivered k,
      words ≠ List.ofFn (promised k (taken (emulator linearHost) (fun _ _ ↦ 0)
        (boot (vemuInitCycles gigahertz 0)) tornRun) c.source) ∧
      words ≠ List.ofFn k.tmp)
      (run (step (emulator linearHost)) (boot (vemuInitCycles gigahertz 0)) tornRun) := by
    decide +kernel
  obtain ⟨k, hk, c, hc, words, hw, h⟩ := hok.exists
  exact ⟨k, c, words, hk, hc, hw, h⟩

end VarEmu.Kernel.UserCopy
