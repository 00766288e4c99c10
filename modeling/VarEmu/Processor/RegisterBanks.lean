import VarEmu.Library.Banks
import VarEmu.Library.Reactive
import VarEmu.Processor.StatusRegister

namespace VarEmu.Processor.RegisterBanks

open Translator.Errors Library.Bits Library.Banks Library.Reactive ExceptionFrame Mmu Modes
  StatusRegister

/-- The registers of all modes, each with a place of its own. -/
@[ext]
structure Registers where
  low : Fin 8 → UInt32
  high : Bool → Fin 5 → UInt32
  sp : Fin 7 → UInt32
  lr : Fin 7 → UInt32
  spsr : Fin 7 → UInt32
  pc : UInt32

def Registers.get (f : Registers) (m : Mode) : Reg → UInt32
  | .low i => f.low i
  | .high i => f.high (m = .fiq) i
  | .sp => f.sp m.bank
  | .lr => f.lr m.bank
  | .pc => f.pc

def Registers.set (f : Registers) (m : Mode) (val : UInt32) : Reg → Registers
  | .low i => { f with low := Function.update f.low i val }
  | .high i =>
    { f with
      high := Function.update f.high (m = .fiq) (Function.update (f.high (m = .fiq)) i val) }
  | .sp => { f with sp := Function.update f.sp m.bank val }
  | .lr => { f with lr := Function.update f.lr m.bank val }
  | .pc => { f with pc := val }

section View

variable (env : ArmState) (m : Mode) (live : Reg → UInt32)

def highBank : Banked Bool (Fin 5 → UInt32) where
  live i := live (.high i)
  saved fiq := if fiq then env.fiqRegs else env.usrRegs
  current := m = .fiq

def spBank : Banked (Fin 7) UInt32 := ⟨live .sp, env.bankedR13, m.bank⟩

def lrBank : Banked (Fin 7) UInt32 := ⟨live .lr, env.bankedR14, m.bank⟩

def spsrBank : Banked (Fin 7) UInt32 := ⟨env.spsr, env.bankedSpsr, m.bank⟩

def assemble : Registers where
  low i := live (.low i)
  high := (highBank env m live).view
  sp := (spBank env m live).view
  lr := (lrBank env m live).view
  spsr := (spsrBank env m).view
  pc := live .pc

/-- The registers that a state stands for when `m` is its mode. -/
def registers : Registers := assemble env m fun r ↦ env.regs r.index

theorem index_injective : Function.Injective Reg.index := by
  rintro (i | i | _ | _ | _) (j | j | _ | _ | _) <;> simp [Reg.index, Fin.ext_iff] <;> omega

theorem assemble_get (r : Reg) : (assemble env m live).get m r = live r := by
  cases r with
  | low i => rfl
  | high i => exact congrFun (view_current (highBank env m live)) i
  | sp => exact view_current (spBank env m live)
  | lr => exact view_current (lrBank env m live)
  | pc => rfl

theorem assemble_update (r : Reg) (val : UInt32) :
    assemble env m (Function.update live r val) = (assemble env m live).set m val r := by
  cases r with
  | low i =>
    have hlow : (fun j ↦ Function.update live (.low i) val (.low j)) =
        Function.update (fun j ↦ live (.low j)) i val :=
      Function.update_comp_eq_of_injective live (fun _ _ h ↦ Reg.low.inj h) i val
    simp [assemble, highBank, spBank, lrBank, Registers.set, hlow]
  | high i =>
    have hhigh : (fun j ↦ Function.update live (.high i) val (.high j)) =
        Function.update (fun j ↦ live (.high j)) i val :=
      Function.update_comp_eq_of_injective live (fun _ _ h ↦ Reg.high.inj h) i val
    have hview := view_live (highBank env m live) (Function.update (fun j ↦ live (.high j)) i val)
    have hcur := view_current (highBank env m live)
    simp only [highBank] at hview hcur
    simp [assemble, highBank, spBank, lrBank, Registers.set, hhigh, hview, hcur]
  | sp =>
    have hview := view_live (spBank env m live) val
    simp only [spBank] at hview
    simp [assemble, highBank, spBank, lrBank, Registers.set, hview]
  | lr =>
    have hview := view_live (lrBank env m live) val
    simp only [lrBank] at hview
    simp [assemble, highBank, spBank, lrBank, Registers.set, hview]
  | pc => simp [assemble, highBank, spBank, lrBank, Registers.set]

theorem registers_get (r : Reg) : (registers env m).get m r = env.regs r.index :=
  assemble_get env m _ r

theorem registers_set (r : Reg) (val : UInt32) :
    registers { env with regs := Function.update env.regs r.index val } m =
      (registers env m).set m val r := by
  rw [registers, registers, ← assemble_update]
  exact congrArg (assemble env m)
    (Function.update_comp_eq_of_injective env.regs index_injective r val)

theorem registers_spsr : (registers env m).spsr m.bank = env.spsr := view_current (spsrBank env m)

theorem registers_set_spsr (val : UInt32) :
    registers { env with spsr := val } m =
      { registers env m with spsr := Function.update (registers env m).spsr m.bank val } := by
  exact congrArg (fun spsr ↦ { registers env m with spsr := spsr })
    (view_live (spsrBank env m) val)

end View

section Switch

variable {env : ArmState} {old mode : Mode}

theorem high_regs_eq (regs : Fin 16 → UInt32) :
    highRegs regs = fun i ↦ regs (Reg.high i).index := rfl

theorem with_high_regs_high (regs : Fin 16 → UInt32) (high : Fin 5 → UInt32) (i : Fin 5) :
    withHighRegs regs high (Reg.high i).index = high i := by
  have h : 8 ≤ i.val + 8 ∧ i.val + 8 < 13 := by omega
  simp [withHighRegs, Reg.index, h]

theorem with_high_regs_other (regs : Fin 16 → UInt32) (high : Fin 5 → UInt32) {r : Reg}
    (hr : ∀ i, r ≠ .high i) : withHighRegs regs high r.index = regs r.index := by
  cases r with
  | low i =>
    have h : ¬(8 ≤ i.val ∧ i.val < 13) := by omega
    simp [withHighRegs, Reg.index, h]
  | high i => exact absurd rfl (hr i)
  | sp => rfl
  | lr => rfl
  | pc => rfl

theorem swap_high_regs_other {r : Reg} (hr : ∀ i, r ≠ .high i) :
    (swapHighRegs env old mode).regs r.index = env.regs r.index := by
  unfold swapHighRegs
  split_ifs
  · exact with_high_regs_other _ _ hr
  · exact with_high_regs_other _ _ hr
  · rfl

theorem swap_high_regs_banks :
    (swapHighRegs env old mode).bankedR13 = env.bankedR13 ∧
      (swapHighRegs env old mode).bankedR14 = env.bankedR14 ∧
      (swapHighRegs env old mode).bankedSpsr = env.bankedSpsr ∧
      (swapHighRegs env old mode).spsr = env.spsr := by
  unfold swapHighRegs
  split_ifs <;> exact ⟨rfl, rfl, rfl, rfl⟩

theorem swap_high_regs_high (hne : mode ≠ old) :
    (highBank (swapHighRegs env old mode) mode
        fun r ↦ (swapHighRegs env old mode).regs r.index).view =
      (highBank env old fun r ↦ env.regs r.index).view := by
  rw [← view_switch (highBank env old fun r ↦ env.regs r.index) (mode = .fiq)]
  unfold swapHighRegs
  split_ifs with hold hfiq
  · have hmode : mode ≠ .fiq := fun h ↦ hne (h.trans hold.symm)
    funext fiq
    cases fiq <;> simp [highBank, Banked.switch, Banked.view, with_high_regs_high, hold, hmode,
      high_regs_eq]
  · funext fiq
    cases fiq <;> simp [highBank, Banked.switch, Banked.view, with_high_regs_high, hold, hfiq,
      high_regs_eq]
  · simp [highBank, Banked.switch, Banked.view, hold, hfiq]

/-- A switch of the mode moves registers between the state and its banks, and none of the
registers of any mode changes. -/
theorem registers_switch (hmode : env.mode = some old) :
    (switchMode env mode).map (registers · mode) = some (registers env old) := by
  rw [switchMode, hmode, Option.map_some, Option.map_some, Option.some_inj]
  split_ifs with hsame
  · rw [hsame]
  obtain ⟨h13, h14, hspsr, hlive⟩ := @swap_high_regs_banks env old mode
  set e := swapHighRegs env old mode with he
  have hsp : e.regs 13 = env.regs 13 := swap_high_regs_other (r := .sp) (by simp)
  have hlr : e.regs 14 = env.regs 14 := swap_high_regs_other (r := .lr) (by simp)
  have hpc : e.regs 15 = env.regs 15 := swap_high_regs_other (r := .pc) (by simp)
  have hlow (i : Fin 8) : e.regs (Reg.low i).index = env.regs (Reg.low i).index :=
    swap_high_regs_other (r := .low i) (by simp)
  have hbanked {r : Reg} (hsp : r ≠ .sp) (hlr : r ≠ .lr) :
      (loadBank (saveBank e old.bank) mode.bank).regs r.index = e.regs r.index := by
    have h13 : r.index ≠ 13 := fun h ↦ hsp (index_injective h)
    have h14 : r.index ≠ 14 := fun h ↦ hlr (index_injective h)
    simp [loadBank, saveBank, h13, h14]
  ext1
  · funext i
    exact (hbanked (by simp) (by simp)).trans (hlow i)
  · refine Eq.trans ?_ (swap_high_regs_high hsame)
    simp only [registers, assemble, highBank, hbanked (r := .high _) (by simp) (by simp)]
    rfl
  · refine Eq.trans ?_ (view_switch (spBank env old fun r ↦ env.regs r.index) mode.bank)
    simp [registers, assemble, spBank, Banked.switch, loadBank, saveBank, Reg.index, h13, hsp]
  · refine Eq.trans ?_ (view_switch (lrBank env old fun r ↦ env.regs r.index) mode.bank)
    simp [registers, assemble, lrBank, Banked.switch, loadBank, saveBank, Reg.index, h14, hlr]
  · refine Eq.trans ?_ (view_switch (spsrBank env old) mode.bank)
    simp [registers, assemble, spsrBank, Banked.switch, loadBank, saveBank, hspsr, hlive]
  · exact (hbanked (r := .pc) (by simp) (by simp)).trans hpc

end Switch

/-- A processor with a register for each mode and one status register: nothing moves when the
mode changes. -/
structure Arch extends Registers where
  cpsr : UInt32
  control : Control

def Arch.mode (a : Arch) : Mode := (Mode.ofBits (a.cpsr &&& cpsrM)).getD .usr

def Arch.set (a : Arch) (r : Reg) (val : UInt32) : Arch :=
  { a with
    toRegisters := a.toRegisters.set a.mode (if r = .pc then val &&& ~~~1 else val) r }

def Arch.writeCpsr (a : Arch) (val mask : UInt32) : Arch :=
  let mask := if badModeSwitch (val &&& cpsrM) then mask &&& ~~~cpsrM else mask
  { a with cpsr := (a.cpsr &&& ~~~mask) ||| (val &&& mask) }

def Arch.writeSpsr (a : Arch) (val : UInt32) : Arch :=
  { a with spsr := Function.update a.spsr a.mode.bank val }

def Arch.enter (a : Arch) (core : Core) (v : ExceptionVector) : Arch :=
  { a with
    spsr := Function.update a.spsr v.newMode.bank a.cpsr
    lr := Function.update a.lr v.newMode.bank (a.pc + v.offset)
    pc := v.addr + a.control.vectorBase core (v.newMode = .smc ∨ a.mode = .smc)
    cpsr := (a.cpsr &&& ~~~(cpsrM ||| cpsrIT ||| cpsrT)) ||| v.newMode.bits ||| v.mask |||
      if a.control.entersThumb core (bit a.cpsr 5) then cpsrT else 0 }

def Arch.serve (a : Arch) (reply : UInt32) (x : ExceptionIndex) : Arch :=
  { a with
    low := Function.update a.low ⟨0, by decide⟩ reply
    pc := if x = .bkpt then a.pc + 2 else a.pc }

def Arch.interrupt (a : Arch) (core : Core) (imm reply : UInt32) (x : ExceptionIndex) :
    Reply × Arch :=
  match course core (bit a.cpsr 5) (a.mode = .usr) imm x with
  | .stop => (.stopped, a)
  | .serve => (.done, a.serve reply x)
  | .enter v =>
    (.done, { a with control := a.control.note (a.mode = Mode.smc) x }.enter core v)

def Arch.srs (a : Arch) (mode : UInt32) (amode : AddressMode) (writeback : Bool) : Reply × Arch :=
  match Mode.ofBits mode with
  | none => (.stopped, a)
  | some m =>
    let addr := a.sp m.bank + amode.offsets.before
    (.stored addr (a.lr a.mode.bank) (a.spsr a.mode.bank),
      if writeback then
        { a with sp := Function.update a.sp m.bank (addr + 4 + amode.offsets.after) }
      else a)

def Arch.privileged (a : Arch) (next : Reply × Arch) : Reply × Arch :=
  if a.mode = .usr then (.undefined, a) else next

def Arch.step (core : Core) (a : Arch) : Op → Reply × Arch
  | .read r => (.value (a.get a.mode r), a)
  | .write r val => (.done, a.set r val)
  | .bx addr =>
    let t : UInt32 := if bit addr 0 then cpsrT else 0
    (.done, { a with cpsr := (a.cpsr &&& ~~~cpsrT) ||| t }.set .pc addr)
  | .mrs false => (.value (a.cpsr &&& ~~~cpsrExec), a)
  | .mrs true => a.privileged (.value (a.spsr a.mode.bank), a)
  | .msr false flags val =>
    (.done, a.writeCpsr val (msrMask core flags false (a.mode = .usr)))
  | .msr true flags val =>
    let mask := msrMask core flags true (a.mode = .usr)
    a.privileged (.done, a.writeSpsr ((a.spsr a.mode.bank &&& ~~~mask) ||| (val &&& mask)))
  | .cps insn =>
    if a.mode = .usr then (.done, a) else (.done, a.writeCpsr (cpsVal insn) (cpsMask insn))
  | .readUser r => a.privileged (.value (a.get .usr r), a)
  | .writeUser r val => a.privileged (.done, { a with toRegisters := a.toRegisters.set .usr val r })
  | .srs mode amode writeback => a.privileged (a.srs (mode &&& 0x1f) amode writeback)
  | .exceptionReturn pc =>
    a.privileged (.done, (a.set .pc pc).writeCpsr (a.spsr a.mode.bank) 0xFFFFFFFF)
  | .rfe pc cpsr => a.privileged (.done, (a.writeCpsr cpsr 0xFFFFFFFF).set .pc pc)
  | .interrupt x imm reply => a.interrupt core imm reply x

/-- What the source relies on: a user register other than the program counter, a stack pointer
of another mode that is not a second name of the current one, an exception that it can handle. -/
def Sound (core : Core) (env : ArmState) : Op → Prop
  | .readUser r | .writeUser r _ =>
    env.isUser = false → r ≠ .pc ∧ (env.mode = some .sys → r ≠ .sp ∧ r ≠ .lr)
  | .srs mode _ _ =>
    env.isUser = false → ∃ m, Mode.ofBits (mode &&& 0x1f) = some m ∧
      (env.mode = some m ∨ env.mode.map Mode.bank ≠ some m.bank)
  | .interrupt x imm _ => course core env.thumb env.isUser imm x ≠ .stop
  | _ => True

/-- What a state of the emulator stands for. -/
def arch (env : ArmState) : Arch where
  toRegisters := registers env (env.mode.getD .usr)
  cpsr := cpsrRead env
  control := env.control

section Abstraction

variable {env e : ArmState} {m : Mode}

theorem arch_eq (hm : env.mode = some m) :
    arch env = ⟨registers env m, cpsrRead env, env.control⟩ := by
  rw [arch, hm, Option.getD_some]

theorem arch_registers (hm : env.mode = some m) : (arch env).toRegisters = registers env m := by
  rw [arch_eq hm]

theorem arch_mode (h : Normal env) (hm : env.mode = some m) : (arch env).mode = m := by
  have hcpsr : Mode.ofBits (cpsrRead env &&& cpsrM) = some m := by
    rw [cpsr_read_mode h]
    exact hm
  rw [Arch.mode, arch, hcpsr, Option.getD_some]

theorem of_bits_bits : ∀ m : Mode, Mode.ofBits m.bits = some m := by
  rintro (_ | _ | _ | _ | _ | _ | _ | _) <;> rfl

theorem bits_of_of_bits {w : UInt32} (h : Mode.ofBits w = some m) : m.bits = w := by
  have := List.find?_some h
  simpa using this

theorem is_user_eq (hm : env.mode = some m) : env.isUser = decide (m = .usr) := by
  rw [ArmState.isUser, ← bits_of_of_bits hm]
  cases m <;> rfl

/-- The emulator and the processor do the same: the same reply, and states that agree. -/
structure Agrees (p : Reply × ArmState) (q : Reply × Arch) : Prop where
  reply : p.1 = q.1
  normal : Normal p.2
  arch : arch p.2 = q.2

theorem agrees_self (h : Normal env) (r : Reply) : Agrees (r, env) (r, arch env) := ⟨rfl, h, rfl⟩

theorem agrees_done {a : Arch} {next : Option ArmState}
    (h : ∃ e, next = some e ∧ Normal e ∧ arch e = a) : Agrees (done env next) (.done, a) := by
  obtain ⟨e, rfl, hn, ha⟩ := h
  exact ⟨rfl, hn, ha⟩

theorem agrees_privileged (h : Normal env) {p : Reply × ArmState} {q : Reply × Arch}
    (hpq : (arch env).mode ≠ .usr → Agrees p q) :
    Agrees (privileged env p) ((arch env).privileged q) := by
  obtain ⟨m, hm⟩ := Option.isSome_iff_exists.mp h.mode
  rw [privileged, Arch.privileged, is_user_eq hm, arch_mode h hm]
  rw [arch_mode h hm] at hpq
  by_cases hu : m = .usr
  · simpa [hu] using agrees_self h .undefined
  · simpa [hu] using hpq hu

theorem normal_regs (h : Normal env) (regs : Fin 16 → UInt32) : Normal { env with regs := regs } :=
  { h with }

theorem arch_regs (h : Normal env) (r : Reg) (val : UInt32) :
    arch { env with regs := Function.update env.regs r.index val } =
      { arch env with toRegisters := (arch env).toRegisters.set (arch env).mode val r } := by
  obtain ⟨m, hm⟩ := Option.isSome_iff_exists.mp h.mode
  have hm' : { env with regs := Function.update env.regs r.index val }.mode = some m := hm
  rw [arch_mode h hm, arch_eq hm, arch_eq hm', registers_set]
  rfl

theorem arch_store_reg (h : Normal env) (r : Reg) (val : UInt32) :
    Normal (storeReg env r val) ∧ arch (storeReg env r val) = (arch env).set r val :=
  ⟨normal_regs h _, arch_regs h r _⟩

theorem arch_spsr (h : Normal env) (val : UInt32) :
    arch { env with spsr := val } = (arch env).writeSpsr val := by
  obtain ⟨m, hm⟩ := Option.isSome_iff_exists.mp h.mode
  have hm' : { env with spsr := val }.mode = some m := hm
  rw [Arch.writeSpsr, arch_mode h hm, arch_eq hm, arch_eq hm', registers_set_spsr]
  rfl

theorem switch_mode_some (hm : env.mode = some m) (mode : Mode) :
    ∃ e, switchMode env mode = some e ∧ registers e mode = registers env m := by
  have h := @registers_switch env m mode hm
  obtain ⟨e, he, hregs⟩ := Option.map_eq_some_iff.mp h
  exact ⟨e, he, hregs⟩

section CpsrWrite

variable {val mask : UInt32}

theorem mode_not_cached {i : ℕ} (hi : i < 32) (hm : bit cpsrM i = true) :
    bit cachedCpsrBits i = false := by
  interval_cases i <;> first | rfl | exact absurd hm (by decide)

theorem write_uncached_mode (hc : mask &&& cpsrM = 0 ∨ mask &&& cpsrM = cpsrM) :
    (writeUncached env val mask).uncachedCpsr &&& cpsrM =
      (if mask &&& cpsrM = 0 then env.uncachedCpsr else val) &&& cpsrM := by
  have hmask : mask &&& ~~~cachedCpsrBits &&& cpsrM = mask &&& cpsrM := by
    rw [UInt32.and_assoc, show ~~~cachedCpsrBits &&& cpsrM = cpsrM by decide]
  rw [writeUncached, merge_group (hmask.symm ▸ hc), hmask]

theorem registers_write_flags (m : Mode) :
    registers (cpsrWriteFlags env val mask) m = registers env m := by
  rw [cpsr_write_flags_eq]
  rfl

theorem write_flags_control : (cpsrWriteFlags env val mask).control = env.control := by
  rw [cpsr_write_flags_eq]

/-- Bits that the register already has can be left out of a mask. -/
theorem merge_same {x k : UInt32} (h : (x ^^^ val) &&& mask &&& k = 0) :
    (x &&& ~~~mask) ||| (val &&& mask) =
      (x &&& ~~~(mask &&& ~~~k)) ||| (val &&& (mask &&& ~~~k)) := by
  refine eq_of_bits fun i hi ↦ ?_
  have hbit := congrArg (bit · i) h
  simp only [bit, UInt32.toBitVec_and, UInt32.toBitVec_xor, BitVec.getLsbD_and,
    BitVec.getLsbD_xor] at hbit
  rw [bit_merge _ _ _ hi, bit_merge _ _ _ hi, bit_and, bit_not _ hi]
  simp only [bit]
  cases hm : mask.toBitVec.getLsbD i <;> cases hk : k.toBitVec.getLsbD i <;> simp_all

theorem same_bits {x k : UInt32} (h : (x ^^^ val) &&& mask &&& k = 0) (hk : mask &&& k = k) :
    val &&& k = x &&& k := by
  rw [UInt32.and_assoc, hk] at h
  refine eq_of_bits fun i _ ↦ ?_
  have hbit := congrArg (bit · i) h
  simp only [bit, UInt32.toBitVec_and, UInt32.toBitVec_xor, BitVec.getLsbD_and,
    BitVec.getLsbD_xor] at hbit ⊢
  cases hi : k.toBitVec.getLsbD i <;> simp_all

theorem mode_xor (h : Normal env) :
    (cpsrRead env ^^^ val) &&& mask &&& cpsrM = (env.uncachedCpsr ^^^ val) &&& mask &&& cpsrM := by
  refine eq_of_bits fun i hi ↦ ?_
  have hbit := congrArg (bit · i) (cpsr_read_mode h)
  simp only [bit, UInt32.toBitVec_and, UInt32.toBitVec_xor, BitVec.getLsbD_and,
    BitVec.getLsbD_xor] at hbit ⊢
  cases hk : cpsrM.toBitVec.getLsbD i <;> simp_all

theorem closed_without_mode (hc : Closed mask) : Closed (mask &&& ~~~cpsrM) :=
  hc.and (by decide)

theorem arch_written (h : Normal env) (hc : Closed mask) {k : UInt32} {mode : Mode}
    (hstatus : e = withRegisters (cpsrWriteFlags env val mask) e)
    (hregs : registers e mode = registers env m)
    (hmode : (writeUncached e val k).mode = some mode)
    (hk : ∀ i, bit cachedCpsrBits i = true → bit k i = bit mask i) :
    Normal (writeUncached e val k) ∧
      arch (writeUncached e val k) =
        ⟨registers env m, (cpsrRead env &&& ~~~k) ||| (val &&& k), env.control⟩ := by
  have hsome : (writeUncached e val k).mode.isSome := by rw [hmode, Option.isSome_some]
  obtain ⟨hn, hcpsr⟩ := write_uncached_cpsr h hc hstatus hk hsome
  refine ⟨hn, ?_⟩
  rw [arch_eq hmode, hcpsr]
  congr 1
  exact (congrArg (·.control) hstatus).trans write_flags_control

theorem without_mode_cached {i : ℕ} (hi : bit cachedCpsrBits i = true) :
    bit (mask &&& ~~~cpsrM) i = bit mask i := by
  have hlt := cached_lt hi
  have hm : bit cpsrM i = false := by
    cases hm : bit cpsrM i
    · rfl
    · rw [mode_not_cached hlt hm] at hi
      exact absurd hi Bool.false_ne_true
  rw [bit_and, bit_not _ hlt, hm, Bool.not_false, Bool.and_true]

/-- A write of the status register leaves every register of every mode as it is. -/
theorem arch_cpsr_write (h : Normal env) (val : UInt32) {mask : UInt32} (hc : Closed mask) :
    ∃ e, cpsrWrite env val mask = some e ∧ Normal e ∧ arch e = (arch env).writeCpsr val mask := by
  obtain ⟨m, hm⟩ := Option.isSome_iff_exists.mp h.mode
  set f := cpsrWriteFlags env val mask with hf
  have hu : f.uncachedCpsr = env.uncachedCpsr := cpsr_write_flags_uncached
  have hclosed : mask &&& cpsrM = 0 ∨ mask &&& cpsrM = cpsrM := hc _ (by simp)
  have hfm : f.mode = some m := by rw [ArmState.mode, hu]; exact hm
  have hregs : registers f m = registers env m := registers_write_flags m
  rw [arch_eq hm, Arch.writeCpsr, cpsrWrite, ← hf, hu]
  by_cases hswitch : (env.uncachedCpsr ^^^ val) &&& mask &&& cpsrM ≠ 0
  · rw [if_pos hswitch]
    have hall : mask &&& cpsrM = cpsrM := by
      refine hclosed.resolve_left fun h0 ↦ hswitch ?_
      rw [UInt32.and_assoc, h0, UInt32.and_zero]
    cases hbad : badModeSwitch (val &&& cpsrM)
    · have hsome : ∃ mode, Mode.ofBits (val &&& cpsrM) = some mode := by
        rw [badModeSwitch] at hbad
        cases ho : Mode.ofBits (val &&& cpsrM)
        · simp [ho] at hbad
        · exact ⟨_, rfl⟩
      obtain ⟨mode, ho⟩ := hsome
      obtain ⟨e, he, hregs'⟩ := switch_mode_some hfm mode
      have hmode : (writeUncached e val mask).mode = some mode := by
        rw [ArmState.mode, write_uncached_mode (.inr hall), hall, if_neg (by decide), ho]
      obtain ⟨hn, ha⟩ := arch_written h hc (switch_mode_status he) (hregs'.trans hregs) hmode
        fun _ _ ↦ rfl
      refine ⟨writeUncached e val mask, ?_, hn, ha⟩
      simp [ho, he]
    · have hkeep : mask &&& ~~~cpsrM &&& cpsrM = 0 := by
        rw [UInt32.and_assoc, UInt32.not_and_self, UInt32.and_zero]
      have hmode : (writeUncached f val (mask &&& ~~~cpsrM)).mode = some m := by
        rw [ArmState.mode, write_uncached_mode (.inl hkeep), hkeep, if_pos rfl]
        exact hfm
      obtain ⟨hn, ha⟩ := arch_written h hc rfl hregs hmode fun _ hi ↦ without_mode_cached hi
      exact ⟨_, rfl, hn, ha⟩
  · rw [if_neg hswitch]
    have hsame : (env.uncachedCpsr ^^^ val) &&& mask &&& cpsrM = 0 := not_not.mp hswitch
    have hmode : (writeUncached f val mask).mode = some m := by
      rw [ArmState.mode, write_uncached_mode hclosed]
      split_ifs with h0
      · exact hfm
      · rw [same_bits hsame (hclosed.resolve_left h0)]
        exact hm
    obtain ⟨hn, ha⟩ := arch_written h hc rfl hregs hmode fun _ _ ↦ rfl
    refine ⟨_, rfl, hn, ha.trans ?_⟩
    split_ifs with hbad
    · rw [merge_same ((mode_xor h).trans hsame)]
    · rfl

end CpsrWrite

end Abstraction

section Entry

variable {core : Core} {env e : ArmState} {m : Mode} {v : ExceptionVector}

theorem normal_registers (h : Normal env) (hstatus : e = withRegisters env e) : Normal e where
  carry := (congrArg (·.CF) hstatus).symm ▸ h.carry
  saturated := (congrArg (·.QF) hstatus).symm ▸ h.saturated
  greater := (congrArg (·.GE) hstatus).symm ▸ h.greater
  cached := (congrArg (·.uncachedCpsr) hstatus).symm ▸ h.cached
  mode := (congrArg (·.mode) hstatus).symm ▸ h.mode

theorem mode_bits_high (m : Mode) {i : ℕ} (hi : 5 ≤ i) : bit m.bits i = false :=
  bit_of_lt (k := 5) (by cases m <;> decide) hi

def MasksInterrupts (v : ExceptionVector) : Prop :=
  v.mask &&& ~~~(cpsrA ||| cpsrI ||| cpsrF) = 0

theorem MasksInterrupts.bit (hv : MasksInterrupts v) {i : ℕ}
    (hi : bit (~~~(cpsrA ||| cpsrI ||| cpsrF)) i = true) : bit v.mask i = false :=
  bit_of_and_eq_zero hv hi

theorem masks_mode (hv : MasksInterrupts v) : v.mask &&& cpsrM = 0 :=
  and_eq_zero_of_bits fun i hi hm ↦
    hv.bit (by interval_cases i <;> first | rfl | exact absurd hm (by decide))

theorem entered_mode (hv : MasksInterrupts v) (thumb : Bool) :
    (statusEntered e v thumb).mode = some v.newMode := by
  have hbits : (statusEntered e v thumb).uncachedCpsr &&& cpsrM = v.newMode.bits := by
    rw [statusEntered, word_or_and, word_or_and, masks_mode hv, UInt32.and_assoc,
      UInt32.not_and_self, UInt32.and_zero, UInt32.zero_or, UInt32.or_zero]
    cases v.newMode <;> rfl
  rw [ArmState.mode, hbits, of_bits_bits]

theorem normal_entered (h : Normal e) (hv : MasksInterrupts v) (thumb : Bool) :
    Normal (statusEntered e v thumb) where
  carry := h.carry
  saturated := h.saturated
  greater := h.greater
  cached := by
    refine and_eq_zero_of_bits fun i hi hcached ↦ ?_
    have hmask : bit v.mask i = false :=
      hv.bit (by interval_cases i <;> first | rfl | exact absurd hcached (by decide))
    have hnew : bit v.newMode.bits i = false :=
      mode_bits_high _ (by interval_cases i <;> first | decide | exact absurd hcached (by decide))
    rw [statusEntered, bit_or, bit_or, bit_and, bit_of_and_eq_zero h.cached hcached, hmask, hnew]
    rfl
  mode := by rw [entered_mode hv, Option.isSome_some]

theorem entered_cpsr (h : Normal e) (hv : MasksInterrupts v) (thumb : Bool) :
    cpsrRead (statusEntered e v thumb) =
      (cpsrRead e &&& ~~~(cpsrM ||| cpsrIT ||| cpsrT)) ||| v.newMode.bits ||| v.mask |||
        if thumb then cpsrT else 0 := by
  have hmask {j : ℕ} := @MasksInterrupts.bit v hv j
  have hnew {j : ℕ} (hj : 5 ≤ j) := mode_bits_high v.newMode hj
  refine eq_of_bits fun i hi ↦ ?_
  have ht : bit (if thumb then cpsrT else 0) i = (decide (i = 5) && thumb) := by
    cases thumb
    · simp [bit]
    · interval_cases i <;> decide
  rw [cpsr_read_bit (normal_entered h hv thumb) hi, bit_or, bit_or, bit_or, bit_and, bit_not _ hi,
    cpsr_read_bit h hi, ht]
  interval_cases i
  case «30» =>
    simp [statusEntered, cpsrBit, hnew, hmask, bit, -BitVec.getLsbD_eq_getElem]
    rfl
  all_goals simp [statusEntered, cpsrBit, hnew, hmask, bit, -BitVec.getLsbD_eq_getElem]

theorem registers_link (env : ArmState) (m : Mode) (lr pc : UInt32) :
    registers (linkAndJump env lr pc) m =
      { registers env m with
        lr := Function.update (registers env m).lr m.bank lr
        pc := pc } := by
  let linked := { env with regs := Function.update env.regs Reg.lr.index lr }
  exact (registers_set linked m .pc pc).trans
    (congrArg (Registers.set · m pc .pc) (registers_set env m .lr lr))

theorem arch_enter (h : Normal env) (hv : MasksInterrupts v) :
    ∃ e, enterException core env v = some e ∧ Normal e ∧ e.mode = some v.newMode ∧
      arch e = (arch env).enter core v := by
  obtain ⟨m, hm⟩ := Option.isSome_iff_exists.mp h.mode
  obtain ⟨e, he, hregs⟩ := switch_mode_some hm v.newMode
  have hstatus := switch_mode_status he
  have hn := normal_registers h hstatus
  have hcpsr : cpsrRead e = cpsrRead env := by
    calc cpsrRead e = cpsrRead (withRegisters env e) := congrArg cpsrRead hstatus
      _ = cpsrRead env := rfl
  have hcontrol : e.control = env.control := congrArg (·.control) hstatus
  have hthumb : e.thumb = bit (cpsrRead env) 5 := by
    rw [← hcpsr, cpsr_read_bit hn (by decide)]
    rfl
  have hpc : e.regs 15 = env.regs 15 := congrArg (·.pc) hregs
  let s := { e with spsr := cpsrRead e }
  have hs : Normal s := { hn with }
  have hmode (thumb : Bool) (lr pc : UInt32) :
      (linkAndJump (statusEntered s v thumb) lr pc).mode = some v.newMode :=
    entered_mode hv thumb
  have hregisters (thumb : Bool) : registers (statusEntered s v thumb) v.newMode =
      { registers env m with
        spsr := Function.update (registers env m).spsr v.newMode.bank (cpsrRead env) } := by
    refine (registers_set_spsr e v.newMode (cpsrRead e)).trans ?_
    rw [hregs, hcpsr]
  rw [enterException, he, Option.map_some]
  refine ⟨_, rfl, normal_regs (normal_entered hs hv _) _, hmode _ _ _, ?_⟩
  have hread (thumb : Bool) (lr pc : UInt32) :
      cpsrRead (linkAndJump (statusEntered s v thumb) lr pc) = _ := entered_cpsr hs hv thumb
  have hsmc : (v.newMode = .smc ∨ env.mode = some .smc) ↔
      (v.newMode = .smc ∨ (arch env).mode = .smc) := by
    rw [arch_mode h hm, hm, Option.some_inj]
  rw [arch_eq (hmode _ _ _), registers_link, hregisters, hread]
  simp only [Arch.enter, ← hsmc]
  rw [arch_eq hm, show cpsrRead s = cpsrRead env from hcpsr]
  simp only [statusEntered, linkAndJump, hcontrol, hthumb, hpc,
    show s.control = env.control from hcontrol]
  rfl

/-- The exceptions mask interrupts and nothing else, and one of them goes to monitor mode. -/
theorem course_vector {thumb user : Bool} {imm : UInt32} {x : ExceptionIndex}
    (h : course core thumb user imm x = .enter v) :
    MasksInterrupts v ∧ (v.newMode = .smc → x = .smc) := by
  have hI : cpsrI &&& ~~~(cpsrA ||| cpsrI ||| cpsrF) = 0 := by decide
  have hAI : (cpsrA ||| cpsrI) &&& ~~~(cpsrA ||| cpsrI ||| cpsrF) = 0 := by decide
  have hAIF : (cpsrA ||| cpsrI ||| cpsrF) &&& ~~~(cpsrA ||| cpsrI ||| cpsrF) = 0 := by decide
  have hite {p : Prop} [Decidable p] {c : Course} {w : ExceptionVector}
      (h : (if p then c else .enter w) = .enter v) (hc : c ≠ .enter v) : w = v := by
    split_ifs at h
    · exact absurd h hc
    · exact Course.enter.inj h
  cases x with
  | udef => exact Course.enter.inj h ▸ ⟨hI, by simp⟩
  | swi => exact hite h (by simp) ▸ ⟨hI, by simp⟩
  | prefetchAbort => exact Course.enter.inj h ▸ ⟨hAI, by simp [abortVector]⟩
  | dataAbort => exact Course.enter.inj h ▸ ⟨hAI, by simp [abortVector]⟩
  | irq => exact Course.enter.inj h ▸ ⟨hAI, by simp⟩
  | fiq => exact Course.enter.inj h ▸ ⟨hAIF, by simp⟩
  | bkpt => exact hite h (by simp) ▸ ⟨hAI, by simp [abortVector]⟩
  | exceptionExit => exact absurd h (by simp [course])
  | kernelTrap => exact absurd h (by simp [course])
  | strex => exact absurd h (by simp [course])
  | smc => exact hite h (by simp) ▸ ⟨hAIF, by simp⟩

theorem arch_control (h : Normal env) (c : Control) :
    Normal { env with control := c } ∧
      arch { env with control := c } = { arch env with control := c } :=
  ⟨{ h with }, rfl⟩

theorem arch_serve (h : Normal env) (reply : UInt32) (x : ExceptionIndex) :
    Normal (serve env reply x) ∧ arch (serve env reply x) = (arch env).serve reply x := by
  refine ⟨normal_regs h _, ?_⟩
  unfold serve Arch.serve
  by_cases hx : x = .bkpt
  · let jumped := { env with regs := Function.update env.regs Reg.pc.index (env.regs 15 + 2) }
    have hj : Normal jumped := normal_regs h _
    simp only [if_pos hx]
    refine (arch_regs hj (.low ⟨0, by decide⟩) reply).trans ?_
    rw [arch_regs h .pc]
    rfl
  · simp only [if_neg hx]
    exact arch_regs h (.low ⟨0, by decide⟩) reply

theorem cpsr_thumb (h : Normal env) : bit (cpsrRead env) 5 = env.thumb :=
  cpsr_read_bit h (by decide)

theorem arch_interrupt (h : Normal env) {x : ExceptionIndex} {imm : UInt32} (reply : UInt32)
    (hc : course core env.thumb env.isUser imm x = .enter v) :
    ∃ e, armCpuDoInterrupt core imm reply env x = some e ∧ Normal e ∧ e.mode = some v.newMode ∧
      arch e = { arch env with
        control := env.control.note (env.mode = some Mode.smc) x }.enter core v := by
  obtain ⟨hn, ha⟩ := arch_control h (env.control.note (env.mode = some .smc) x)
  rw [armCpuDoInterrupt, hc, ← ha]
  exact arch_enter hn ((course_vector hc).1)

theorem agrees_interrupt (h : Normal env) (x : ExceptionIndex) (imm reply : UInt32)
    (hx : course core env.thumb env.isUser imm x ≠ .stop) :
    Agrees (done env (armCpuDoInterrupt core imm reply env x))
      ((arch env).interrupt core imm reply x) := by
  obtain ⟨m, hm⟩ := Option.isSome_iff_exists.mp h.mode
  have harch : course core (bit (arch env).cpsr 5) ((arch env).mode = .usr) imm x =
      course core env.thumb env.isUser imm x := by
    rw [arch_mode h hm, is_user_eq hm, ← cpsr_thumb h]
    rfl
  rw [Arch.interrupt, harch]
  cases hc : course core env.thumb env.isUser imm x with
  | stop => exact absurd hc hx
  | serve =>
    obtain ⟨hn, ha⟩ := arch_serve h reply x
    rw [armCpuDoInterrupt, hc]
    exact ⟨rfl, hn, ha⟩
  | enter v =>
    have hsmc : decide ((arch env).mode = .smc) = decide (env.mode = some .smc) := by
      simp [arch_mode h hm, hm]
    obtain ⟨e, he, hn, -, ha⟩ := arch_interrupt h reply hc
    rw [hsmc]
    exact agrees_done ⟨e, he, hn, ha⟩

end Entry

section Access

variable {env : ArmState} {m : Mode}

theorem bank_ne_zero (hu : m ≠ .usr) (hs : m ≠ .sys) : m.bank ≠ 0 := by
  cases m <;> simp_all [Mode.bank]

theorem get_user_reg (h : Normal env) (hu : (arch env).mode ≠ .usr) {r : Reg} (hr : r ≠ .pc)
    (hs : env.mode = some .sys → r ≠ .sp ∧ r ≠ .lr) :
    getUserReg env r = some ((arch env).get .usr r) := by
  obtain ⟨m, hm⟩ := Option.isSome_iff_exists.mp h.mode
  rw [arch_mode h hm] at hu
  rw [arch_eq hm]
  cases r with
  | low i => rfl
  | high i =>
    by_cases hf : m = .fiq
    · subst hf
      have hview := view_of_ne (highBank env .fiq fun r ↦ env.regs r.index) (k := false)
        (by simp [highBank])
      simp only [getUserReg, hm, if_true]
      exact congrArg some (congrFun hview i).symm
    · have hget := registers_get env m (.high i)
      have hdec : decide (m = .fiq) = decide (Mode.usr = .fiq) := by simp [hf]
      simp only [getUserReg, hm, Option.some_inj, hf, if_false, ← hget]
      rw [Registers.get, Registers.get, hdec]
  | sp =>
    have hne : m ≠ .sys := fun hm' ↦ (hs (hm' ▸ hm)).1 rfl
    exact congrArg some (view_of_ne (spBank env m fun r ↦ env.regs r.index)
      (bank_ne_zero hu hne).symm).symm
  | lr =>
    have hne : m ≠ .sys := fun hm' ↦ (hs (hm' ▸ hm)).2 rfl
    exact congrArg some (view_of_ne (lrBank env m fun r ↦ env.regs r.index)
      (bank_ne_zero hu hne).symm).symm
  | pc => exact absurd rfl hr

theorem set_user_reg (h : Normal env) (val : UInt32) (hu : (arch env).mode ≠ .usr) {r : Reg}
    (hr : r ≠ .pc) (hs : env.mode = some .sys → r ≠ .sp ∧ r ≠ .lr) :
    ∃ e, setUserReg env val r = some e ∧ Normal e ∧
      arch e = { arch env with toRegisters := (arch env).toRegisters.set .usr val r } := by
  obtain ⟨m, hm⟩ := Option.isSome_iff_exists.mp h.mode
  have hmode := arch_mode h hm
  rw [hmode] at hu
  cases r with
  | low i => exact ⟨_, rfl, normal_regs h _, arch_regs h (.low i) val⟩
  | high i =>
    by_cases hf : m = .fiq
    · subst hf
      refine ⟨{ env with usrRegs := Function.update env.usrRegs i val }, by simp [setUserReg, hm],
        { h with }, ?_⟩
      let b := highBank env .fiq fun r ↦ env.regs r.index
      have hcurrent : false ≠ b.current := by simp [b, highBank]
      have husr : b.view false = env.usrRegs := view_of_ne b hcurrent
      have hsaved : (fun fiq ↦ if fiq then env.fiqRegs else Function.update env.usrRegs i val) =
          Function.update b.saved false (Function.update (b.view false) i val) := by
        rw [husr]
        funext fiq
        cases fiq <;> rfl
      have hview := view_saved b hcurrent (Function.update (b.view false) i val)
      rw [← hsaved] at hview
      have hm' : { env with usrRegs := Function.update env.usrRegs i val }.mode = some .fiq := hm
      rw [arch_eq hm, arch_eq hm']
      exact congrArg (fun high ↦ (⟨{ registers env .fiq with high := high }, _, _⟩ : Arch)) hview
    · refine ⟨_, by simp [setUserReg, hm, hf]; rfl, normal_regs h _, ?_⟩
      have hdec : decide (m = .fiq) = decide (Mode.usr = .fiq) := by simp [hf]
      refine (arch_regs h (.high i) val).trans ?_
      rw [hmode, Registers.set, Registers.set, hdec]
  | sp =>
    have hne : m ≠ .sys := fun hm' ↦ (hs (hm' ▸ hm)).1 rfl
    have hview := view_saved (spBank env m fun r ↦ env.regs r.index)
      (bank_ne_zero hu hne).symm val
    refine ⟨_, rfl, { h with }, ?_⟩
    have hm' : { env with bankedR13 := Function.update env.bankedR13 0 val }.mode = some m := hm
    rw [arch_eq hm, arch_eq hm']
    exact congrArg (fun sp ↦ (⟨{ registers env m with sp := sp }, _, _⟩ : Arch)) hview
  | lr =>
    have hne : m ≠ .sys := fun hm' ↦ (hs (hm' ▸ hm)).2 rfl
    have hview := view_saved (lrBank env m fun r ↦ env.regs r.index)
      (bank_ne_zero hu hne).symm val
    refine ⟨_, rfl, { h with }, ?_⟩
    have hm' : { env with bankedR14 := Function.update env.bankedR14 0 val }.mode = some m := hm
    rw [arch_eq hm, arch_eq hm']
    exact congrArg (fun lr ↦ (⟨{ registers env m with lr := lr }, _, _⟩ : Arch)) hview
  | pc => exact absurd rfl hr

theorem get_r13_banked (hm : env.mode = some m) {mode : UInt32} {k : Mode}
    (hk : Mode.ofBits mode = some k)
    (hs : env.mode = some k ∨ env.mode.map Mode.bank ≠ some k.bank) :
    getR13Banked env mode = some ((registers env m).sp k.bank) := by
  have hbits : env.uncachedCpsr &&& cpsrM = m.bits := (bits_of_of_bits hm).symm
  rw [getR13Banked, hbits, ← bits_of_of_bits hk, bankNumber, of_bits_bits]
  rw [hm, Option.some_inj, Option.map_some, ne_eq, Option.some_inj] at hs
  rcases hs with rfl | hne
  · rw [if_pos rfl]
    exact congrArg some (view_current (spBank env m fun r ↦ env.regs r.index)).symm
  · have hbits' : m.bits ≠ k.bits := by
      intro hb
      have hmk := congrArg Mode.ofBits hb
      rw [of_bits_bits, of_bits_bits, Option.some_inj] at hmk
      exact hne (congrArg Mode.bank hmk)
    rw [if_neg hbits']
    exact congrArg some (view_of_ne (spBank env m fun r ↦ env.regs r.index) (Ne.symm hne)).symm

theorem set_r13_banked (h : Normal env) (hm : env.mode = some m) (val : UInt32) {mode : UInt32}
    {k : Mode} (hk : Mode.ofBits mode = some k)
    (hs : env.mode = some k ∨ env.mode.map Mode.bank ≠ some k.bank) :
    ∃ e, setR13Banked env mode val = some e ∧ Normal e ∧
      arch e = { arch env with sp := Function.update (arch env).sp k.bank val } := by
  have hbits : env.uncachedCpsr &&& cpsrM = m.bits := (bits_of_of_bits hm).symm
  rw [setR13Banked, hbits, ← bits_of_of_bits hk, bankNumber, of_bits_bits]
  rw [hm, Option.some_inj, Option.map_some, ne_eq, Option.some_inj] at hs
  rcases hs with rfl | hne
  · rw [if_pos rfl]
    refine ⟨_, rfl, normal_regs h _, (arch_regs h .sp val).trans ?_⟩
    rw [arch_mode h hm]
    rfl
  · have hbits' : m.bits ≠ k.bits := by
      intro hb
      have hmk := congrArg Mode.ofBits hb
      rw [of_bits_bits, of_bits_bits, Option.some_inj] at hmk
      exact hne (congrArg Mode.bank hmk)
    rw [if_neg hbits']
    have hview := view_saved (spBank env m fun r ↦ env.regs r.index) (Ne.symm hne) val
    refine ⟨_, rfl, { h with }, ?_⟩
    have hm' : { env with bankedR13 := Function.update env.bankedR13 k.bank val }.mode =
        some m := hm
    rw [arch_eq hm, arch_eq hm']
    exact congrArg (fun sp ↦ (⟨{ registers env m with sp := sp }, _, _⟩ : Arch)) hview

theorem agrees_srs (h : Normal env) {mode : UInt32} {k : Mode} (hk : Mode.ofBits mode = some k)
    (hs : env.mode = some k ∨ env.mode.map Mode.bank ≠ some k.bank) (amode : AddressMode)
    (writeback : Bool) :
    Agrees (orStopped env (genSrs env mode amode writeback))
      ((arch env).srs mode amode writeback) := by
  obtain ⟨m, hm⟩ := Option.isSome_iff_exists.mp h.mode
  have hlr : env.regs 14 = (arch env).lr (arch env).mode.bank := by
    rw [arch_mode h hm, arch_eq hm]
    exact (registers_get env m .lr).symm
  have hspsr : env.spsr = (arch env).spsr (arch env).mode.bank := by
    rw [arch_mode h hm, arch_eq hm]
    exact (registers_spsr env m).symm
  have hsp : (registers env m).sp = (arch env).sp := by rw [arch_eq hm]
  rw [genSrs, get_r13_banked hm hk hs, Arch.srs, hk, hlr, hspsr, hsp]
  cases writeback with
  | false => exact agrees_self h _
  | true =>
    obtain ⟨e, he, hn, ha⟩ := set_r13_banked h hm
      ((arch env).sp k.bank + amode.offsets.before + 4 + amode.offsets.after) hk hs
    simp only [if_true, Option.bind_eq_bind, Option.bind_some, he]
    exact ⟨rfl, hn, ha⟩

theorem arch_bx (h : Normal env) (addr : UInt32) :
    Normal { env with thumb := addr &&& 1 != 0 } ∧
      arch { env with thumb := addr &&& 1 != 0 } =
        { arch env with
          cpsr := (cpsrRead env &&& ~~~cpsrT) ||| if bit addr 0 then cpsrT else 0 } := by
  have hn : Normal { env with thumb := addr &&& 1 != 0 } := { h with }
  refine ⟨hn, congrArg (fun cpsr ↦ { arch env with cpsr := cpsr }) (eq_of_bits fun i hi ↦ ?_)⟩
  have ht : (addr &&& 1 != 0) = bit addr 0 :=
    Bool.eq_iff_iff.mpr (bne_iff_ne.trans (one_bit addr 0 rfl rfl))
  rw [bit_or, bit_and, bit_not _ hi, cpsr_read_bit hn hi, cpsr_read_bit h hi, ht,
    apply_ite (bit · i)]
  generalize bit addr 0 = t
  have hthumb : bit cpsrT i = decide (i = 5) := by interval_cases i <;> rfl
  have hzero : bit 0 i = false := by simp [bit]
  have hbit : cpsrBit { env with thumb := t } i = if i = 5 then t else cpsrBit env i := by
    interval_cases i <;> rfl
  rw [hthumb, hzero, hbit]
  by_cases h5 : i = 5
  · simp [h5]
  · simp [h5]

end Access

section Steps

variable {core : Core} {env : ArmState}

theorem write_cpsr_zero (a : Arch) (val : UInt32) : a.writeCpsr val 0 = a := by
  simp [Arch.writeCpsr]

theorem step_agrees (h : Normal env) (op : Op) (hs : Sound core env op) :
    Agrees (step core env op) ((arch env).step core op) := by
  obtain ⟨m, hm⟩ := Option.isSome_iff_exists.mp h.mode
  have hmode := arch_mode h hm
  have huser : env.isUser = decide ((arch env).mode = .usr) := by rw [hmode, is_user_eq hm]
  have hnot (hu : (arch env).mode ≠ .usr) : env.isUser = false := by
    rw [huser, decide_eq_false_iff_not]
    exact hu
  have hspsr : env.spsr = (arch env).spsr (arch env).mode.bank := by
    rw [hmode, arch_eq hm]
    exact (registers_spsr env m).symm
  cases op with
  | read r =>
    have hget : env.regs r.index = (arch env).get (arch env).mode r := by
      rw [hmode, arch_eq hm]
      exact (registers_get env m r).symm
    rw [step, Arch.step, hget]
    exact agrees_self h _
  | write r val =>
    obtain ⟨hn, ha⟩ := arch_store_reg h r val
    exact ⟨rfl, hn, ha⟩
  | bx addr =>
    obtain ⟨hn, ha⟩ := arch_bx h addr
    obtain ⟨hn', ha'⟩ := arch_store_reg hn .pc addr
    refine ⟨rfl, hn', ha'.trans ?_⟩
    rw [ha]
    rfl
  | mrs spsr =>
    cases spsr with
    | false => exact agrees_self h _
    | true =>
      rw [step, Arch.step, hspsr]
      exact agrees_privileged h fun _ ↦ agrees_self h _
  | msr spsr flags val =>
    cases spsr with
    | false =>
      rw [step, Arch.step, genSetPsr, if_neg Bool.false_ne_true, huser]
      exact agrees_done (arch_cpsr_write h val (msr_mask_closed _ _ _ _))
    | true =>
      rw [step, Arch.step, genSetPsr, if_pos rfl, huser, hspsr]
      exact agrees_privileged h fun _ ↦ ⟨rfl, { h with }, arch_spsr h _⟩
  | cps insn =>
    have huser' : env.isUser = true ↔ (arch env).mode = .usr := by rw [huser, decide_eq_true_iff]
    rw [step, Arch.step, genCps]
    by_cases hu : (arch env).mode = .usr
    · rw [if_pos (.inl (huser'.mpr hu)), if_pos hu]
      exact agrees_self h _
    · rw [if_neg hu]
      by_cases h0 : cpsMask insn = 0
      · rw [if_pos (.inr h0), h0, write_cpsr_zero]
        exact agrees_self h _
      · rw [if_neg (not_or.mpr ⟨mt huser'.mp hu, h0⟩)]
        exact agrees_done (arch_cpsr_write h _ (cps_mask_closed insn))
  | readUser r =>
    rw [step, Arch.step]
    refine agrees_privileged h fun hu ↦ ?_
    obtain ⟨hr, hsys⟩ := hs (hnot hu)
    rw [get_user_reg h hu hr hsys]
    exact agrees_self h _
  | writeUser r val =>
    refine agrees_privileged h fun hu ↦ ?_
    obtain ⟨hr, hsys⟩ := hs (hnot hu)
    exact agrees_done (set_user_reg h val hu hr hsys)
  | srs mode amode writeback =>
    refine agrees_privileged h fun hu ↦ ?_
    obtain ⟨k, hk, hbank⟩ := hs (hnot hu)
    exact agrees_srs h hk hbank amode writeback
  | exceptionReturn pc =>
    refine agrees_privileged h fun hu ↦ agrees_done ?_
    obtain ⟨hn, ha⟩ := arch_store_reg h .pc pc
    rw [genExceptionReturn, hspsr, ← ha]
    exact arch_cpsr_write hn _ (by decide)
  | rfe pc cpsr =>
    refine agrees_privileged h fun hu ↦ agrees_done ?_
    obtain ⟨e, he, hn, ha⟩ := @arch_cpsr_write env h cpsr 0xFFFFFFFF (by decide)
    obtain ⟨hn', ha'⟩ := arch_store_reg hn .pc pc
    rw [genRfe, he, ← ha]
    exact ⟨_, rfl, hn', ha'⟩
  | interrupt x imm reply => exact agrees_interrupt h x imm reply hs

theorem privileged_normal (h : Normal env) {next : Reply × ArmState} (hnext : Normal next.2) :
    Normal (privileged env next).2 := by
  unfold privileged
  split_ifs
  · exact h
  · exact hnext

theorem or_stopped_normal (h : Normal env) {next : Option (Reply × ArmState)}
    (hnext : ∀ p ∈ next, Normal p.2) : Normal (orStopped env next).2 := by
  cases next with
  | none => exact h
  | some p => exact hnext p rfl

theorem set_user_reg_normal (h : Normal env) {val : UInt32} {r : Reg} {e : ArmState}
    (he : setUserReg env val r = some e) : Normal e := by
  cases r with
  | pc => cases he
  | low i | sp | lr =>
    cases he
    exact { h with }
  | high i =>
    rw [setUserReg] at he
    split_ifs at he
    · cases he
      exact { h with }
    · cases he
      exact { h with }

theorem set_r13_banked_normal (h : Normal env) {mode val : UInt32} {e : ArmState}
    (he : setR13Banked env mode val = some e) : Normal e := by
  unfold setR13Banked at he
  split_ifs at he
  · cases he
    exact { h with }
  · obtain ⟨i, -, rfl⟩ := Option.map_eq_some_iff.mp he
    exact { h with }

theorem gen_srs_normal (h : Normal env) {mode : UInt32} {amode : AddressMode} {writeback : Bool}
    {p : Reply × ArmState} (hp : genSrs env mode amode writeback = some p) : Normal p.2 := by
  obtain ⟨addr, -, hp⟩ := Option.bind_eq_some_iff.mp hp
  cases writeback with
  | false =>
    cases hp
    exact h
  | true =>
    obtain ⟨e, he, hp⟩ := Option.bind_eq_some_iff.mp hp
    cases hp
    exact set_r13_banked_normal h he

/-- Also where the source relies on more than it checks, the state stays one that the emulator
can have. -/
theorem step_normal (h : Normal env) (op : Op) : Normal (step core env op).2 := by
  by_cases hs : Sound core env op
  · exact (step_agrees h op hs).normal
  cases op with
  | readUser r =>
    refine privileged_normal h (or_stopped_normal h fun p hp ↦ ?_)
    obtain ⟨w, -, rfl⟩ := Option.map_eq_some_iff.mp hp
    exact h
  | writeUser r val =>
    refine privileged_normal h (or_stopped_normal h fun p hp ↦ ?_)
    obtain ⟨e, he, rfl⟩ := Option.map_eq_some_iff.mp hp
    exact set_user_reg_normal h he
  | srs mode amode writeback =>
    exact privileged_normal h (or_stopped_normal h fun p hp ↦ gen_srs_normal h hp)
  | interrupt x imm reply =>
    have hstop : course core env.thumb env.isUser imm x = .stop := not_not.mp hs
    rw [step, armCpuDoInterrupt, hstop]
    exact h
  | read | write | bx | mrs | msr | cps | exceptionReturn | rfe => exact absurd trivial hs

theorem run_normal (h : Normal env) (ops : List Op) : Normal (final (step core) env ops) :=
  final_invariant (I := Normal) (fun _ op hn _ ↦ step_normal hn op) h
    (respects_of_forall (C := fun _ ↦ True) (fun _ _ ↦ trivial) env)

theorem run_agrees (h : Normal env) {ops : List Op}
    (hs : Respects (step core) (Sound core) env ops) :
    outputs (step core) env ops = outputs (Arch.step core) (arch env) ops ∧
      Normal (final (step core) env ops) ∧
      arch (final (step core) env ops) = final (Arch.step core) (arch env) ops := by
  refine simulates (R := fun s a ↦ Normal s ∧ arch s = a) ?_ ⟨h, rfl⟩ hs
  rintro s a op ⟨hn, rfl⟩ hop
  obtain ⟨hreply, hn', ha⟩ := step_agrees hn op hop
  exact ⟨hreply, hn', ha⟩

/-- On every run the banks of the emulator stand for a register file with a register of each
mode and one status register: the replies are those of such a processor. -/
theorem banked_registers_refine (h : Normal env) {ops : List Op}
    (hs : Respects (step core) (Sound core) env ops) :
    outputs (step core) env ops = outputs (Arch.step core) (arch env) ops ∧
      arch (final (step core) env ops) = final (Arch.step core) (arch env) ops :=
  ⟨(run_agrees h hs).1, (run_agrees h hs).2.2⟩

end Steps

section Start

/-- A processor in the given mode with empty registers. -/
def start (m : Mode) : ArmState where
  featureM := false
  featureThumb2 := true
  regs _ := 0
  uncachedCpsr := m.bits
  v7mException := 0
  v7mControl := 0
  ZF := 0
  CF := 0
  NF := 0
  VF := 0
  thumb := false
  condexecBits := 0
  bswapCode := false
  vecLen := 0
  vecStride := 0
  fpexc := 0
  QF := 0
  GE := 0
  spsr := 0
  bankedSpsr _ := 0
  bankedR13 _ := 0
  bankedR14 _ := 0
  usrRegs _ := 0
  fiqRegs _ := 0
  control := ⟨Cp15.reset 0, 0, 0, 0⟩

def armV7 : Core := ⟨true, true, true, true, false, false⟩

theorem start_mode (m : Mode) : (start m).mode = some m := by cases m <;> rfl

theorem start_normal (m : Mode) : Normal (start m) where
  carry := Nat.two_pos
  saturated := Nat.two_pos
  greater := Nat.two_pow_pos 4
  cached := by cases m <;> rfl
  mode := by rw [start_mode, Option.isSome_some]

/-- A fast interrupt with registers of its own, and the return from it. -/
def fastInterrupt : List Op :=
  [.write .sp 0x8000, .interrupt .fiq 0 0, .write (.high 0) 3, .write .sp 5, .readUser (.high 0),
    .exceptionReturn 0x100, .read .sp]

theorem banked_registers_refine_fiq :
    outputs (step armV7) (start .svc) fastInterrupt =
        outputs (Arch.step armV7) (arch (start .svc)) fastInterrupt ∧
      arch (final (step armV7) (start .svc) fastInterrupt) =
        final (Arch.step armV7) (arch (start .svc)) fastInterrupt :=
  banked_registers_refine (start_normal .svc)
    ⟨trivial, by simp [Sound, course], trivial, trivial, fun _ ↦ ⟨by decide, fun _ ↦ by decide⟩,
      trivial, trivial, trivial⟩

end Start

end VarEmu.Processor.RegisterBanks
