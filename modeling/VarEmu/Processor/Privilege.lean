import VarEmu.Processor.RegisterBanks

namespace VarEmu.Processor.Privilege

open Translator.Errors Library.Bits Library.Reactive ExceptionFrame Mmu Modes StatusRegister
  RegisterBanks

section Transparency

variable {core : Core} {env : ArmState} {old : Mode} {v : ExceptionVector}

/-- Taking an exception writes the link register and the saved status of its own mode only. -/
theorem enter_get (a : Arch) (hbank : v.newMode.bank ≠ old.bank) {r : Reg} (hr : r ≠ .pc) :
    (a.enter core v).get old r = a.get old r := by
  cases r with
  | low i => rfl
  | high i => rfl
  | sp => rfl
  | lr => exact Function.update_of_ne hbank.symm _ _
  | pc => exact absurd rfl hr

theorem bad_mode_switch_mode {w : UInt32} {m : Mode} (h : Mode.ofBits w = some m) :
    badModeSwitch w = decide (m = .smc) := by
  rw [badModeSwitch, h]

theorem write_all {a : Arch} {w : UInt32} (h : badModeSwitch (w &&& cpsrM) = false) :
    a.writeCpsr w 0xFFFFFFFF = { a with cpsr := w } := by
  have hall : (a.cpsr &&& ~~~0xFFFFFFFF) ||| (w &&& 0xFFFFFFFF) = w := by
    rw [show ~~~(0xFFFFFFFF : UInt32) = 0 by decide, UInt32.and_zero, UInt32.zero_or]
    exact UInt32.and_neg_one
  rw [Arch.writeCpsr, h, if_neg Bool.false_ne_true, hall]

/-- What the interrupted program finds when it goes on. -/
structure Resumed (env r : ArmState) : Prop where
  cpsr : cpsrRead r = cpsrRead env
  regs : ∀ q : Reg, q ≠ .pc → r.regs q.index = env.regs q.index
  pc : r.regs 15 = env.regs 15 &&& ~~~1

theorem return_resumes {g : ArmState} (h : Normal env) (hold : env.mode = some old)
    (hsmc : old ≠ .smc) (hg : Normal g) (hspsr : g.spsr = cpsrRead env)
    (hregs : ∀ q : Reg, q ≠ .pc → (arch g).get old q = (arch env).get old q) :
    ∃ r, genExceptionReturn g (env.regs 15) = some r ∧ Resumed env r := by
  obtain ⟨hn, ha⟩ := arch_store_reg hg .pc (env.regs 15)
  obtain ⟨r, hr, hrn, hra⟩ := @arch_cpsr_write _ hn g.spsr 0xFFFFFFFF (by decide)
  have hmode : Mode.ofBits (cpsrRead env &&& cpsrM) = some old := by
    rw [cpsr_read_mode h]
    exact hold
  have hgood : badModeSwitch (g.spsr &&& cpsrM) = false := by
    rw [hspsr, bad_mode_switch_mode hmode, decide_eq_false hsmc]
  rw [ha, write_all hgood, hspsr] at hra
  have hcpsr : cpsrRead r = cpsrRead env := congrArg Arch.cpsr hra
  have hrmode : r.mode = some old := by
    rw [ArmState.mode, ← cpsr_read_mode hrn, hcpsr, hmode]
  have hget (q : Reg) : r.regs q.index = (arch r).get old q := by
    rw [arch_eq hrmode]
    exact (registers_get r old q).symm
  refine ⟨r, hr, hcpsr, fun q hq ↦ ?_, ?_⟩
  · have hset : ((arch g).set .pc (env.regs 15)).get old q = (arch g).get old q := by
      cases q <;> first | rfl | exact absurd rfl hq
    rw [hget q, hra]
    refine hset.trans ((hregs q hq).trans ?_)
    rw [arch_eq hold]
    exact registers_get env old q
  · exact (hget .pc).trans (congrArg (·.pc) hra)

/-- An exception is transparent: whatever its handler does, nested exceptions included, if it
leaves its saved status and the registers of the interrupted mode as they were, the program that
was interrupted goes on with its status and its registers. -/
theorem exception_transparent (h : Normal env) (hold : env.mode = some old) (hsmc : old ≠ .smc)
    {x : ExceptionIndex} {imm : UInt32} (hx : course core env.thumb env.isUser imm x = .enter v)
    (hbank : v.newMode.bank ≠ old.bank) (reply : UInt32) :
    ∃ e, armCpuDoInterrupt core imm reply env x = some e ∧ e.mode = some v.newMode ∧
      ∀ ops,
        (final (step core) e ops).spsr = e.spsr →
        (∀ q : Reg, q ≠ .pc → (arch (final (step core) e ops)).get old q = (arch e).get old q) →
        ∃ r, genExceptionReturn (final (step core) e ops) (e.regs 14 - v.offset) = some r ∧
          Resumed env r := by
  obtain ⟨e, he, hn, hmode, ha⟩ := arch_interrupt h reply hx
  have hentered := (arch_registers hmode).symm.trans (congrArg Arch.toRegisters ha)
  have hspsr : e.spsr = cpsrRead env := by
    refine (registers_spsr e v.newMode).symm.trans ?_
    rw [hentered]
    exact Function.update_self _ _ _
  have hlr : e.regs 14 = env.regs 15 + v.offset := by
    refine (registers_get e v.newMode .lr).symm.trans ?_
    rw [hentered]
    exact Function.update_self _ _ _
  refine ⟨e, he, hmode, fun ops hkeep hregs ↦ ?_⟩
  rw [hlr, add_sub_cancel_right]
  refine return_resumes h hold hsmc (run_normal hn ops) (hkeep.trans hspsr) fun q hq ↦ ?_
  rw [hregs q hq, ha]
  exact enter_get _ hbank hq

theorem exception_transparent_irq :
    ∃ e, armCpuDoInterrupt armV7 0 0 (start .usr) .irq = some e ∧
      ∃ r, genExceptionReturn e (e.regs 14 - 4) = some r ∧ Resumed (start .usr) r := by
  obtain ⟨e, he, -, hrun⟩ := @exception_transparent armV7 _ _ _ (start_normal .usr)
    (start_mode .usr) (by decide) .irq 0 rfl (by decide) 0
  exact ⟨e, he, hrun [] rfl fun _ _ ↦ rfl⟩

end Transparency

section Monitor

variable {core : Core} {a : Arch}

theorem mode_congr {b : Arch} (h : b.cpsr &&& cpsrM = a.cpsr &&& cpsrM) : b.mode = a.mode := by
  rw [Arch.mode, Arch.mode, h]

/-- The mode field takes a mode other than monitor mode, or it stays. -/
theorem write_cpsr_mode (a : Arch) (val : UInt32) {mask : UInt32} (hc : Closed mask) :
    (a.writeCpsr val mask).mode = a.mode ∨
      badModeSwitch (val &&& cpsrM) = false ∧
        (a.writeCpsr val mask).cpsr &&& cpsrM = val &&& cpsrM := by
  have hfield {m : UInt32} (hm : Closed m) :
      ((a.cpsr &&& ~~~m) ||| (val &&& m)) &&& cpsrM =
        (if m &&& cpsrM = 0 then a.cpsr else val) &&& cpsrM := merge_group (hm _ (by simp))
  cases hbad : badModeSwitch (val &&& cpsrM) with
  | true =>
    have hkeep : mask &&& ~~~cpsrM &&& cpsrM = 0 := by
      rw [UInt32.and_assoc, UInt32.not_and_self, UInt32.and_zero]
    refine .inl (mode_congr ?_)
    rw [Arch.writeCpsr, hbad, if_pos rfl, hfield (closed_without_mode hc), if_pos hkeep]
  | false =>
    rw [Arch.writeCpsr, hbad, if_neg Bool.false_ne_true]
    by_cases h0 : mask &&& cpsrM = 0
    · exact .inl (mode_congr ((hfield hc).trans (by rw [if_pos h0])))
    · exact .inr ⟨rfl, (hfield hc).trans (by rw [if_neg h0])⟩

theorem write_cpsr_not_monitor (ha : a.mode ≠ .smc) (val : UInt32) {mask : UInt32}
    (hc : Closed mask) : (a.writeCpsr val mask).mode ≠ .smc := by
  rcases write_cpsr_mode a val hc with h | ⟨hgood, h⟩
  · rwa [h]
  · rw [Arch.mode, h]
    intro hsmc
    cases ho : Mode.ofBits (val &&& cpsrM) with
    | none => simp [ho] at hsmc
    | some m =>
      rw [bad_mode_switch_mode ho] at hgood
      rw [ho, Option.getD_some] at hsmc
      exact of_decide_eq_false hgood hsmc

theorem enter_mode (a : Arch) {v : ExceptionVector} (hv : MasksInterrupts v) :
    (a.enter core v).mode = v.newMode := by
  have hmask : v.mask &&& cpsrM = 0 := masks_mode hv
  have hnew : v.newMode.bits &&& cpsrM = v.newMode.bits := by cases v.newMode <;> rfl
  have hthumb {p : Prop} [Decidable p] : (if p then cpsrT else 0) &&& cpsrM = 0 := by
    split_ifs <;> decide
  have hclear : ~~~(cpsrM ||| cpsrIT ||| cpsrT) &&& cpsrM = 0 := by decide
  rw [Arch.mode, Arch.enter, word_or_and, word_or_and, word_or_and, hmask, hnew, hthumb,
    UInt32.and_assoc, hclear, UInt32.and_zero, UInt32.zero_or, UInt32.or_zero, UInt32.or_zero,
    of_bits_bits, Option.getD_some]

theorem bx_mode (a : Arch) (addr : UInt32) :
    ((a.cpsr &&& ~~~cpsrT) ||| if bit addr 0 then cpsrT else 0) &&& cpsrM = a.cpsr &&& cpsrM := by
  have hthumb {p : Prop} [Decidable p] : (if p then cpsrT else 0) &&& cpsrM = 0 := by
    split_ifs <;> decide
  rw [word_or_and, hthumb, UInt32.and_assoc, show ~~~cpsrT &&& cpsrM = cpsrM by decide,
    UInt32.or_zero]

def isSmc : Op → Bool
  | .interrupt .smc _ _ => true
  | _ => false

theorem privileged_not_monitor (ha : a.mode ≠ .smc) {q : Reply × Arch} (hq : q.2.mode ≠ .smc) :
    (a.privileged q).2.mode ≠ .smc := by
  unfold Arch.privileged
  split_ifs
  · exact ha
  · exact hq

theorem step_not_monitor (ha : a.mode ≠ .smc) {op : Op} (hop : isSmc op = false) :
    (a.step core op).2.mode ≠ .smc := by
  cases op with
  | read r => exact ha
  | write r val => exact ha
  | bx addr =>
    have hmode : ((a.step core (.bx addr)).2).mode = a.mode := mode_congr (bx_mode a addr)
    rwa [hmode]
  | mrs spsr =>
    cases spsr with
    | false => exact ha
    | true => exact privileged_not_monitor ha ha
  | msr spsr flags val =>
    cases spsr with
    | false => exact write_cpsr_not_monitor ha val (msr_mask_closed _ _ _ _)
    | true => exact privileged_not_monitor ha ha
  | cps insn =>
    rw [Arch.step]
    split_ifs
    · exact ha
    · exact write_cpsr_not_monitor ha _ (cps_mask_closed insn)
  | readUser r => exact privileged_not_monitor ha ha
  | writeUser r val => exact privileged_not_monitor ha ha
  | srs mode amode writeback =>
    refine privileged_not_monitor ha ?_
    unfold Arch.srs
    split
    · exact ha
    · dsimp only
      split_ifs <;> exact ha
  | exceptionReturn pc =>
    exact privileged_not_monitor ha (write_cpsr_not_monitor (a := a.set .pc pc) ha _ (by decide))
  | rfe pc cpsr =>
    exact privileged_not_monitor ha (write_cpsr_not_monitor ha cpsr (by decide))
  | interrupt x imm reply =>
    have hx : x ≠ .smc := fun h ↦ by simp [h, isSmc] at hop
    rw [Arch.step, Arch.interrupt]
    split
    · exact ha
    · exact ha
    · next hv =>
      obtain ⟨hmasks, hsmc⟩ := course_vector hv
      rw [enter_mode _ hmasks]
      exact mt hsmc hx

/-- Monitor mode is entered by its own exception and in no other way: no write of the status
register reaches it, so that an exception taken there does not return there either. -/
theorem monitor_entered_by_smc {env : ArmState} (h : Normal env) (hm : env.mode ≠ some .smc)
    {ops : List Op} (hs : Respects (step core) (Sound core) env ops)
    (hops : ∀ op ∈ ops, isSmc op = false) : (final (step core) env ops).mode ≠ some .smc := by
  obtain ⟨m, hmode⟩ := Option.isSome_iff_exists.mp h.mode
  obtain ⟨-, hn, ha⟩ := run_agrees h hs
  have hstart : (arch env).mode ≠ .smc := by
    rw [arch_mode h hmode]
    exact fun he ↦ hm (he ▸ hmode)
  have hfinal : (final (Arch.step core) (arch env) ops).mode ≠ .smc :=
    final_invariant (I := fun a ↦ a.mode ≠ .smc) (fun _ _ ha hop ↦ step_not_monitor ha hop)
      hstart (respects_of_forall hops (arch env))
  intro hsmc
  rw [← ha, arch_mode hn hsmc] at hfinal
  exact hfinal rfl

theorem monitor_entered_by_smc_msr :
    (final (step armV7) (start .svc) [.msr false 1 0x16, .cps 0x20016, .rfe 0 0x16]).mode ≠
      some .smc :=
  monitor_entered_by_smc (start_normal .svc) (by rw [start_mode]; decide)
    ⟨trivial, trivial, trivial, trivial⟩ (by decide)

end Monitor

section User

variable {core : Core} {a b c : Arch}

/-- The bits of the status register that are out of reach of user mode. -/
abbrev cpsrPrivileged : UInt32 := ~~~(cpsrUser ||| cpsrIT ||| cpsrT)

/-- Nothing that user mode must not touch has changed. -/
structure Confined (a b : Arch) : Prop where
  cpsr : b.cpsr &&& cpsrPrivileged = a.cpsr &&& cpsrPrivileged
  sp : ∀ k ≠ 0, b.sp k = a.sp k
  lr : ∀ k ≠ 0, b.lr k = a.lr k
  spsr : b.spsr = a.spsr
  fiq : b.high true = a.high true

theorem Confined.refl (a : Arch) : Confined a a :=
  ⟨rfl, fun _ _ ↦ rfl, fun _ _ ↦ rfl, rfl, rfl⟩

theorem Confined.trans (h : Confined a b) (h' : Confined b c) : Confined a c where
  cpsr := h'.cpsr.trans h.cpsr
  sp k hk := (h'.sp k hk).trans (h.sp k hk)
  lr k hk := (h'.lr k hk).trans (h.lr k hk)
  spsr := h'.spsr.trans h.spsr
  fiq := h'.fiq.trans h.fiq

theorem Confined.mode (h : Confined a b) : b.mode = a.mode := by
  have hM : cpsrPrivileged &&& cpsrM = cpsrM := by decide
  refine mode_congr ?_
  rw [← hM, ← UInt32.and_assoc, ← UInt32.and_assoc, h.cpsr]

theorem confined_cpsr {w : UInt32} (h : w &&& cpsrPrivileged = a.cpsr &&& cpsrPrivileged) :
    Confined a { a with cpsr := w } := { Confined.refl a with cpsr := h }

theorem confined_set (hu : a.mode = .usr) (r : Reg) (val : UInt32) : Confined a (a.set r val) := by
  rw [Arch.set, hu]
  cases r with
  | low i => exact { Confined.refl a with }
  | high i => exact { Confined.refl a with fiq := by simp [Registers.set] }
  | sp => exact { Confined.refl a with sp := fun k hk ↦ Function.update_of_ne hk _ _ }
  | lr => exact { Confined.refl a with lr := fun k hk ↦ Function.update_of_ne hk _ _ }
  | pc => exact { Confined.refl a with }

theorem msr_mask_user (flags : Fin 16) (spsr : Bool) :
    ∃ m, msrMask core flags spsr true = m &&& cpsrUser := ⟨_, rfl⟩

theorem confined_msr (a : Arch) (flags : Fin 16) (val : UInt32) :
    Confined a (a.writeCpsr val (msrMask core flags false true)) := by
  obtain ⟨m, hm⟩ := @msr_mask_user core flags false
  have hreach (k : UInt32) : m &&& cpsrUser &&& k &&& cpsrPrivileged = 0 := by
    rw [UInt32.and_assoc m, UInt32.and_assoc m, UInt32.and_comm cpsrUser, UInt32.and_assoc k,
      show cpsrUser &&& cpsrPrivileged = 0 by decide, UInt32.and_zero, UInt32.and_zero]
  have hmask {p : Prop} [Decidable p] :
      (if p then m &&& cpsrUser &&& ~~~cpsrM else m &&& cpsrUser) &&& cpsrPrivileged = 0 := by
    split_ifs
    · exact hreach _
    · have h := hreach (-1)
      rwa [UInt32.and_neg_one] at h
  refine confined_cpsr ?_
  rw [hm, merge_group (.inl hmask), if_pos hmask]

def isInterrupt : Op → Bool
  | .interrupt _ _ _ => true
  | _ => false

theorem confined_step (hu : a.mode = .usr) {op : Op} (hop : isInterrupt op = false) :
    Confined a (a.step core op).2 := by
  have hrefused {q : Reply × Arch} : Confined a (a.privileged q).2 := by
    rw [Arch.privileged, if_pos hu]
    exact .refl a
  cases op with
  | read r => exact .refl a
  | write r val => exact confined_set hu r val
  | bx addr =>
    have hbx : ((a.cpsr &&& ~~~cpsrT) ||| if bit addr 0 then cpsrT else 0) &&& cpsrPrivileged =
        a.cpsr &&& cpsrPrivileged := by
      have hthumb : (if bit addr 0 then cpsrT else 0) &&& cpsrPrivileged = 0 := by
        split_ifs <;> decide
      rw [word_or_and, hthumb, UInt32.and_assoc,
        show ~~~cpsrT &&& cpsrPrivileged = cpsrPrivileged by decide, UInt32.or_zero]
    exact (confined_cpsr hbx).trans (confined_set ((confined_cpsr hbx).mode.trans hu) .pc addr)
  | mrs spsr =>
    cases spsr with
    | false => exact .refl a
    | true => exact hrefused
  | msr spsr flags val =>
    cases spsr with
    | false =>
      rw [Arch.step, hu]
      exact confined_msr a flags val
    | true => exact hrefused
  | cps insn =>
    rw [Arch.step, if_pos hu]
    exact .refl a
  | readUser r => exact hrefused
  | writeUser r val => exact hrefused
  | srs mode amode writeback => exact hrefused
  | exceptionReturn pc => exact hrefused
  | rfe pc cpsr => exact hrefused
  | interrupt x imm reply => exact absurd hop (by simp [isInterrupt])

/-- Until an exception is taken, code in user mode stays there, and it changes neither the
privileged bits of the status register nor a register of another mode. -/
theorem user_confined {env : ArmState} (h : Normal env) (hu : env.mode = some .usr)
    {ops : List Op} (hops : ∀ op ∈ ops, isInterrupt op = false) :
    (final (step core) env ops).mode = some .usr ∧
      Confined (arch env) (arch (final (step core) env ops)) := by
  have hstep (s : ArmState) (op : Op)
      (hs : Normal s ∧ s.mode = some .usr ∧ Confined (arch env) (arch s))
      (hop : isInterrupt op = false) :
      Normal (step core s op).2 ∧ (step core s op).2.mode = some .usr ∧
        Confined (arch env) (arch (step core s op).2) := by
    obtain ⟨hn, hm, hc⟩ := hs
    have huser : s.isUser = true := by rw [is_user_eq hm, decide_eq_true rfl]
    have hsound : Sound core s op := by
      cases op with
      | interrupt x imm reply => exact absurd hop (by simp [isInterrupt])
      | readUser r => exact fun hf ↦ absurd huser (by simp [hf])
      | writeUser r val => exact fun hf ↦ absurd huser (by simp [hf])
      | srs mode amode writeback => exact fun hf ↦ absurd huser (by simp [hf])
      | _ => trivial
    obtain ⟨-, hn', ha⟩ := step_agrees hn op hsound
    have hconfined : Confined (arch s) (arch (step core s op).2) :=
      ha ▸ confined_step (arch_mode hn hm) hop
    obtain ⟨m, hm'⟩ := Option.isSome_iff_exists.mp hn'.mode
    have husr := hconfined.mode
    rw [arch_mode hn' hm', arch_mode hn hm] at husr
    exact ⟨hn', husr ▸ hm', hc.trans hconfined⟩
  have hfinal := final_invariant hstep ⟨h, hu, .refl _⟩ (respects_of_forall hops env)
  exact hfinal.2

theorem user_confined_msr :
    (final (step armV7) (start .usr) [.msr false 15 0x1f, .bx 1, .rfe 0 0x1f]).mode = some .usr ∧
      Confined (arch (start .usr))
        (arch (final (step armV7) (start .usr) [.msr false 15 0x1f, .bx 1, .rfe 0 0x1f])) :=
  user_confined (start_normal .usr) (start_mode .usr) (by decide)

end User

end VarEmu.Processor.Privilege
