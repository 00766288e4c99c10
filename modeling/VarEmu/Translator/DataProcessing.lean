import VarEmu.Processor.RegisterBanks
import VarEmu.Translator.Emission
import VarEmu.Translator.Tcg

namespace VarEmu.Translator.DataProcessing

open Library Library.WordArith Processor.Mmu Processor.Modes Tcg
open Processor.ExceptionFrame (cpsrNZCV)
open Processor.StatusRegister (Normal cpsr_write_flags_eq)
open Processor.RegisterBanks (arch_cpsr_write normal_regs start start_normal)
open Emission (holds genTestCc Machine)
open LabelledCode (Op Lens)
open scoped Errors

inductive Opcode
  | and
  | eor
  | sub
  | rsb
  | add
  | adc
  | sbc
  | rsc
  | tst
  | teq
  | cmp
  | cmn
  | orr
  | mov
  | bic
  | mvn
  deriving DecidableEq, Repr

def Opcode.ofBits (op1 : ℕ) : Opcode :=
  match op1 with
  | 0x0 => .and
  | 0x1 => .eor
  | 0x2 => .sub
  | 0x3 => .rsb
  | 0x4 => .add
  | 0x5 => .adc
  | 0x6 => .sbc
  | 0x7 => .rsc
  | 0x8 => .tst
  | 0x9 => .teq
  | 0xa => .cmp
  | 0xb => .cmn
  | 0xc => .orr
  | 0xd => .mov
  | 0xe => .bic
  | _ => .mvn

def Opcode.isTest : Opcode → Bool
  | .tst | .teq | .cmp | .cmn => true
  | .and | .eor | .sub | .rsb | .add | .adc | .sbc | .rsc | .orr | .mov | .bic | .mvn => false

def tableLogicCc : Opcode → Bool
  | .and | .eor | .tst | .teq | .orr | .mov | .bic | .mvn => true
  | .sub | .rsb | .add | .adc | .sbc | .rsc | .cmp | .cmn => false

def shiftOfNat (shiftop : ℕ) : Shift :=
  match shiftop with
  | 0 => .lsl
  | 1 => .lsr
  | 2 => .asr
  | _ => .ror

inductive Operand
  | imm (val : BitVec 8) (rot : Fin 16)
  | shiftIm (rm : Fin 16) (shiftop : Shift) (shift : Fin 32)
  | shiftReg (rm : Fin 16) (shiftop : Shift) (rs : Fin 16)
  deriving DecidableEq, Repr

/-- A data processing instruction. -/
structure Decoded where
  cond : Fin 15
  op1 : Opcode
  setCc : Bool
  rn : Fin 16
  rd : Fin 16
  operand : Operand
  deriving DecidableEq, Repr

def regField (insn : Word) (start : ℕ) : Fin 16 := Fin.ofNat 16 (insn >>> start).toNat

def decodeOperand (insn : Word) : Operand :=
  if insn &&& (1#32 <<< 25) ≠ 0#32 then .imm (insn.setWidth 8) (regField insn 8)
  else
    let shiftop := shiftOfNat ((insn >>> 5) &&& 3#32).toNat
    if insn &&& (1#32 <<< 4) = 0#32 then
      .shiftIm (regField insn 0) shiftop (Fin.ofNat 32 (insn >>> 7).toNat)
    else .shiftReg (regField insn 0) shiftop (regField insn 8)

def isDataProcessing (insn : Word) : Prop :=
  insn &&& 0x0f900000#32 ≠ 0x03000000#32 ∧
  ¬(insn &&& 0x0f900000#32 = 0x01000000#32 ∧ insn &&& 0x90#32 ≠ 0x90#32) ∧
  (insn &&& 0x0e000000#32 = 0#32 ∧ insn &&& 0x90#32 ≠ 0x90#32 ∨
    insn &&& 0x0e000000#32 = 1#32 <<< 25)

instance (insn : Word) : Decidable (isDataProcessing insn) := by
  unfold isDataProcessing
  infer_instance

def decode (insn : Word) : Option Decoded :=
  if h : (insn >>> 28).toNat < 15 then
    if isDataProcessing insn then
      some {
        cond := ⟨(insn >>> 28).toNat, h⟩
        op1 := Opcode.ofBits ((insn >>> 21) &&& 0xf#32).toNat
        setCc := insn.getLsbD 20
        rn := regField insn 16
        rd := regField insn 12
        operand := decodeOperand insn }
    else none
  else none

/-- What the translator knows of the processor. -/
structure Context where
  hasAdd2 : Bool
  arch7 : Bool
  user : Bool

/-- How the code of an instruction ends: at the next instruction, with a jump to what it left in
the program counter, with a return from an exception, or as an undefined instruction. -/
inductive Ending
  | next
  | jump
  | exceptionReturn (pc : Var)
  | undefined
  deriving DecidableEq, Repr

section Generators

variable (ctx : Context) (pc : Word)

def loadReg (dest : Var) (reg : Fin 16) : List Insn :=
  if reg.val = 15 then [.movi dest (pc + 4#32)] else [.mov dest (.reg reg)]

def storeReg (reg : Fin 16) (var : Var) : List Insn × Ending :=
  if reg.val = 15 then ([.bini .and var var (~~~1#32), .mov (.reg reg) var], .jump)
  else ([.mov (.reg reg) var], .next)

def genBx (var : Var) : List Insn :=
  [.bini .and (.reg 15) var (~~~1#32), .bini .and var var 1#32, .storeThumb var]

def storeRegBx (reg : Fin 16) (var : Var) : List Insn × Ending :=
  if reg.val = 15 ∧ ctx.arch7 = true then (genBx var, .jump) else storeReg reg var

def genOperand (logicCc : Bool) : Operand → List Insn
  | .imm val rot =>
    let val : Word := val.setWidth 32
    let shift := rot.val * 2
    let val := if shift ≠ 0 then (val >>> shift) ||| (val <<< (32 - shift)) else val
    .movi tmp2 val :: if logicCc = true ∧ shift ≠ 0 then genSetCFBit31 tmp2 else []
  | .shiftIm rm shiftop shift => loadReg pc tmp2 rm ++ genArmShiftIm tmp2 shiftop shift logicCc
  | .shiftReg rm shiftop rs =>
    loadReg pc tmp2 rm ++ loadReg pc tmp rs ++ genArmShiftReg tmp2 shiftop tmp logicCc

/-- The operation on the operands in `tmp` and `tmp2`, and the variable with its result. -/
def genAlu (setCc logicCc : Bool) : Opcode → List Insn × Temp
  | .and => (.bin .and tmp tmp tmp2 :: if logicCc then genLogicCC tmp else [], .tmp)
  | .eor => (.bin .xor tmp tmp tmp2 :: if logicCc then genLogicCC tmp else [], .tmp)
  | .sub => (if setCc then genSubCC tmp tmp tmp2 else [.bin .sub tmp tmp tmp2], .tmp)
  | .rsb => (if setCc then genSubCC tmp tmp2 tmp else [.bin .sub tmp tmp2 tmp], .tmp)
  | .add => (if setCc then genAddCC tmp tmp tmp2 else [.bin .add tmp tmp tmp2], .tmp)
  | .adc => (if setCc then genAdcCC ctx.hasAdd2 tmp tmp tmp2 else genAddCarry tmp tmp tmp2, .tmp)
  | .sbc => (if setCc then genSbcCC ctx.hasAdd2 tmp tmp tmp2 else genSubCarry tmp tmp tmp2, .tmp)
  | .rsc => (if setCc then genSbcCC ctx.hasAdd2 tmp tmp2 tmp else genSubCarry tmp tmp2 tmp, .tmp)
  | .tst => (if setCc then .bin .and tmp tmp tmp2 :: genLogicCC tmp else [], .tmp)
  | .teq => (if setCc then .bin .xor tmp tmp tmp2 :: genLogicCC tmp else [], .tmp)
  | .cmp => (if setCc then genSubCC tmp tmp tmp2 else [], .tmp)
  | .cmn => (if setCc then genAddCC tmp tmp tmp2 else [], .tmp)
  | .orr => (.bin .or tmp tmp tmp2 :: if logicCc then genLogicCC tmp else [], .tmp)
  | .mov => (if logicCc then genLogicCC tmp2 else [], .tmp2)
  | .bic => (.bin .andc tmp tmp tmp2 :: if logicCc then genLogicCC tmp else [], .tmp)
  | .mvn => (.not tmp2 tmp2 :: if logicCc then genLogicCC tmp2 else [], .tmp2)

def genOperands (d : Decoded) : List Insn :=
  genOperand pc (tableLogicCc d.op1 && d.setCc) d.operand ++
    if d.op1 ≠ .mvn ∧ d.op1 ≠ .mov then loadReg pc tmp d.rn else []

/-- The part of the translation of an instruction for data processing. Two of them return from an
exception, and the code for the operands is there when that turns out to be undefined. -/
def disasDataProcessing (d : Decoded) : List Insn × Ending :=
  let logicCc := tableLogicCc d.op1 && d.setCc
  let operands := genOperands pc d
  if d.op1 = .sub ∧ d.setCc = true ∧ d.rd.val = 15 then
    if ctx.user then (operands, .undefined)
    else (operands ++ genSubCC tmp tmp tmp2, .exceptionReturn tmp)
  else if d.op1 = .mov ∧ logicCc = true ∧ d.rd.val = 15 then
    if ctx.user then (operands, .undefined) else (operands, .exceptionReturn tmp2)
  else
    let alu := genAlu ctx d.setCc logicCc d.op1
    if d.op1.isTest then (operands ++ alu.1, .next)
    else
      let store := storeRegBx ctx d.rd (.temp alu.2)
      (operands ++ alu.1 ++ store.1, store.2)

end Generators

inductive Exit
  | nextTb
  | undefined
  | stopped
  deriving DecidableEq, Repr

def processor : Lens TcgState (Machine Unit) where
  get s := ⟨s.env.toCpuArmState, s.vemuErrorsEnabled, ()⟩
  put s m := { s with
    env := { s.env with toCpuArmState := m.env }
    vemuErrorsEnabled := m.vemuErrorsEnabled }
  get_put _ _ := rfl
  put_get _ := rfl
  put_put _ _ _ := rfl

section Blocks

variable (junk : Word → Word → Word) (ctx : Context)

def emit (code : List Insn) : List (Op TcgState Exit) :=
  code.map fun insn ↦ .exec fun s ↦ (insn.exec junk s, none)

def leave (exit : Exit) : Op TcgState Exit := .exec fun s ↦ (s, some exit)

def setPcIm (pc : Word) : Op TcgState Exit := .exec fun s ↦ (s.set pc (.reg 15), none)

def gotoTb (pc : Word) : List (Op TcgState Exit) := [setPcIm pc, leave .nextTb]

def exceptionReturn (var : Var) : Op TcgState Exit :=
  .exec fun s ↦ match genExceptionReturn s.env ⟨s.get var⟩ with
    | some env => ({ s with env }, none)
    | none => (s, some .stopped)

/-- The code of an instruction apart from its condition, and whether the block ends with it. -/
def genBody (pc : Word) (d : Decoded) : List (Op TcgState Exit) × Bool :=
  match disasDataProcessing ctx pc d with
  | (code, .next) => (emit junk code, false)
  | (code, .jump) => (emit junk code ++ [leave .nextTb], true)
  | (code, .exceptionReturn var) => (emit junk code ++ [exceptionReturn var, leave .nextTb], true)
  | (code, .undefined) =>
    (emit junk code ++ [setPcIm (pc - 4#32), leave .undefined, leave .nextTb], true)

/-- The branch to a label past the instruction unless its condition holds. -/
def genCondition (cond : Fin 15) (label : ℕ) : Option (List (Op TcgState Exit) × ℕ) :=
  if cond.val = 14 then some ([], label)
  else (genTestCc (UInt32.ofNat cond.val ^^^ 1) label (label + 1)).map fun (ops, nbLabels) ↦
    (ops.map (Op.zoom processor fun _ ↦ .stopped), nbLabels)

/-- The code of a block: translation stops after the first instruction that ends it. -/
def genBlock (pc : Word) (nbLabels : ℕ) : List Decoded → Option (List (Op TcgState Exit))
  | [] => some (gotoTb pc)
  | d :: ds => do
    let next := pc + 4#32
    let (guard, nbLabels') ← genCondition d.cond nbLabels
    let (body, ends) := genBody junk ctx next d
    let label := if d.cond.val = 14 then [] else [.label nbLabels]
    if ends then
      some (guard ++ body ++ label ++ if d.cond.val = 14 then [] else gotoTb next)
    else
      let rest ← genBlock next nbLabels' ds
      some (guard ++ body ++ label ++ rest)

def disasBlock (pc : Word) (insns : List Word) : Option (List (Op TcgState Exit)) :=
  (insns.mapM decode).bind (genBlock junk ctx pc 0)

end Blocks

/-- What a program can see of the processor: the flags, and everything else. -/
structure Visible where
  flags : Flags
  env : ArmState

def visible (env : ArmState) : Visible where
  flags := ⟨env.NF < 0, env.ZF = 0, env.CF ≠ 0, env.VF < 0⟩
  env := clear env

namespace Visible

variable (ctx : Context) (pc : Word) (a : Visible)

def withReg (reg : Fin 16) (x : Word) : Visible :=
  { a with env := { a.env with regs := Function.update a.env.regs reg ⟨x⟩ } }

def withFlags (set : Bool) (f : Flags) : Visible := if set then { a with flags := f } else a

def reg (r : Fin 16) : Word := if r.val = 15 then pc + 4#32 else (a.env.regs r).toBitVec

def passes (cond : ℕ) : Bool := holds a.flags.z a.flags.c a.flags.n a.flags.v cond

def operand2 : Operand → Word × Bool
  | .imm val rot => shiftC (val.setWidth 32) (rot.val * 2) a.flags.c .ror
  | .shiftIm rm type k => immShift (a.reg pc rm) a.flags.c k type
  | .shiftReg rm type rs => regShift (a.reg pc rm) (a.reg pc rs) a.flags.c type

def branchTo (x : Word) : Visible :=
  let a := a.withReg 15 (x &&& ~~~1#32)
  if ctx.arch7 then { a with env := { a.env with thumb := x &&& 1#32 != 0#32 } } else a

end Visible

def logical (r : Word) (carry : Bool) (f : Flags) : Word × Flags :=
  (r, ⟨r.msb, r = 0#32, carry, f.v⟩)

def arithmetic (r : Sum 32) : Word × Flags := (r.result, Sum.flags r)

def compute (x y : Word) (carry : Bool) (f : Flags) : Opcode → Word × Flags
  | .and | .tst => logical (x &&& y) carry f
  | .eor | .teq => logical (x ^^^ y) carry f
  | .orr => logical (x ||| y) carry f
  | .bic => logical (x &&& ~~~y) carry f
  | .mov => logical y carry f
  | .mvn => logical (~~~y) carry f
  | .sub | .cmp => arithmetic (addWithCarry x (~~~y) true)
  | .rsb => arithmetic (addWithCarry y (~~~x) true)
  | .add | .cmn => arithmetic (addWithCarry x y false)
  | .adc => arithmetic (addWithCarry x y f.c)
  | .sbc => arithmetic (addWithCarry x (~~~y) f.c)
  | .rsc => arithmetic (addWithCarry y (~~~x) f.c)

inductive Outcome
  | next (a : Visible)
  | left (exit : Exit) (a : Visible)

/-- The return from an exception by an operation with result `r`. As an undefined instruction in
user mode, a move has already set the carry of its operand. -/
def returnWith (ctx : Context) (pc : Word) (d : Decoded) (a : Visible) (carry : Bool) (r : Word) :
    Outcome :=
  if ctx.user then
    .left .undefined
      ((a.withFlags (d.op1 = .mov) { a.flags with c := carry }).withReg 15 (pc - 4#32))
  else match genExceptionReturn a.env ⟨r⟩ with
    | some env => .left .nextTb (visible env)
    | none => .left .stopped a

/-- One instruction on the processor. A subtraction or a move to the program counter that sets the
flags returns from an exception. -/
def execute (ctx : Context) (pc : Word) (d : Decoded) (a : Visible) : Outcome :=
  if a.passes d.cond then
    let y := a.operand2 pc d.operand
    let r := compute (a.reg pc d.rn) y.1 y.2 a.flags d.op1
    let a' := a.withFlags d.setCc r.2
    if d.op1.isTest then .next a'
    else if d.rd.val ≠ 15 then .next (a'.withReg d.rd r.1)
    else if d.setCc = true ∧ (d.op1 = .sub ∨ d.op1 = .mov) then returnWith ctx pc d a y.2 r.1
    else .left .nextTb (a'.branchTo ctx r.1)
  else .next a

def interpret (ctx : Context) (pc : Word) : List Decoded → Visible → Exit × Visible
  | [], a => (.nextTb, a.withReg 15 pc)
  | d :: ds, a =>
    match execute ctx (pc + 4#32) d a with
    | .next a => interpret ctx (pc + 4#32) ds a
    | .left exit a => (exit, a)

/-- The instructions that a block takes. -/
def blockOf : List Decoded → List Decoded
  | [] => []
  | d :: ds => if d.op1.isTest = false ∧ d.rd.val = 15 then [d] else d :: blockOf ds

/-- The emitted code works on a state that stands for the processor. -/
structure Sim (a : Visible) (s : TcgState) : Prop where
  flags : Shows a.flags s
  env : clear s.env = a.env
  normal : Normal a.env

section Simulation

variable {a : Visible} {s s' : TcgState}

theorem msb_eq_neg (x : Int32) : x.toBitVec.msb = decide (x < 0) := by
  rw [Bool.eq_iff_iff, decide_eq_true_iff, Emission.neg_iff_msb]

theorem zero_bits (x : UInt32) : decide (x.toBitVec = 0#32) = decide (x = 0) := by
  rw [decide_eq_decide, ← UInt32.toBitVec_inj]
  rfl

theorem carry_bits {x : UInt32} (h : x.toNat < 2) : x.toBitVec = bitWord 32 (x ≠ 0) := by
  by_cases hx : x = 0
  · rw [hx]
    rfl
  · have hone : x.toNat = 1 := by
      have hne : x.toNat ≠ 0 := fun h0 ↦ hx (UInt32.toNat_inj.mp h0)
      omega
    rw [decide_eq_true hx]
    exact BitVec.eq_of_toNat_eq hone

theorem normal_clear {env : ArmState} (h : Normal env) : Normal (clear env) :=
  { h with carry := Nat.two_pow_pos 1 }

theorem sim_visible (h : Normal s.env) : Sim (visible s.env) s :=
  ⟨⟨msb_eq_neg _, zero_bits _, carry_bits h.carry, msb_eq_neg _⟩, rfl, normal_clear h⟩

theorem visible_sim (h : Sim a s) : visible s.env = a ∧ Normal s.env := by
  obtain ⟨⟨n, z, c, v⟩, env⟩ := a
  obtain ⟨⟨hn, hz, hc, hv⟩, rfl, hnormal⟩ := h
  have hcf : s.env.CF = ⟨bitWord 32 c⟩ := UInt32.toBitVec_inj.mp hc
  refine ⟨?_, { hnormal with carry := ?_ }⟩
  · have hne : decide (s.env.CF ≠ 0) = c := by
      rw [hcf]
      cases c <;> rfl
    have hneg : decide (s.env.NF < 0) = n := (msb_eq_neg _).symm.trans hn
    have hzero : decide (s.env.ZF = 0) = z := (zero_bits _).symm.trans hz
    have hover : decide (s.env.VF < 0) = v := (msb_eq_neg _).symm.trans hv
    rw [visible, hneg, hzero, hne, hover]
  · rw [hcf]
    cases c <;> decide

end Simulation

section Instructions

variable {a : Visible} {s s' : TcgState} {junk : Word → Word → Word} {pc : Word} {logicCc : Bool}

theorem run_load_reg (h : clear s.env = a.env) (t : Temp) (r : Fin 16) :
    run junk (loadReg pc (.temp t) r) s = s.set (a.reg pc r) (.temp t) := by
  unfold loadReg Visible.reg
  rw [← h]
  split_ifs <;> rfl

theorem leaves_operand (h : Sim a s) (operand : Operand) :
    Leaves tmp2 (a.operand2 pc operand).1
      { a.flags with c := if logicCc then (a.operand2 pc operand).2 else a.flags.c } s
      (run junk (genOperand pc logicCc operand) s) := by
  cases operand with
  | imm val rot =>
    rw [genOperand, Visible.operand2]
    generalize hx : BitVec.setWidth 32 val = x
    have hk : rot.val * 2 < 32 := by omega
    generalize rot.val * 2 = k at hk
    by_cases h0 : k = 0
    · simp only [h0, ne_eq, not_true_eq_false, and_false, if_false, shift_zero, ite_self]
      exact ⟨by simp [Insn.exec, get_set], h.flags.set_temp x .tmp2, rfl⟩
    · have hrot : (x >>> k) ||| (x <<< (32 - k)) = x.rotateRight k :=
        (BitVec.rotateRight_eq_rotateRightAux_of_lt hk).symm
      have hcarry : run junk (if logicCc then genSetCFBit31 tmp2 else [])
          (s.set (x.rotateRight k) tmp2) =
          carryOut logicCc (x.rotateRight k).msb (s.set (x.rotateRight k) tmp2) := by
        cases logicCc with
        | true =>
          rw [carryOut, if_pos rfl, BitVec.msb_eq_getLsbD_last, ← shift_top]
          simp [genSetCFBit31, Insn.exec, BinOp.eval, get_set]
        | false => rfl
      simp only [h0, ne_eq, not_false_eq_true, and_true, if_true, hrot, shiftC, if_false, run_cons,
        Insn.exec, hcarry]
      refine ⟨?_, (h.flags.set_temp _ _).carryOut _, clear_carry_out _⟩
      rw [get_carry_out, get_set, if_pos rfl]
  | shiftIm rm shiftop shift =>
    rw [genOperand, run_append, run_load_reg h.env]
    have hshift := @leaves_shift_im junk (s.set (a.reg pc rm) tmp2) .tmp2 a.flags shift.val logicCc
      (h.flags.set_temp _ _) shift.isLt shiftop
    rw [get_set, if_pos rfl] at hshift
    exact hshift.after (clear_set rfl)
  | shiftReg rm shiftop rs =>
    rw [genOperand, run_append, run_append, run_load_reg h.env,
      run_load_reg ((clear_set rfl).trans h.env)]
    have hshift := @leaves_shift_reg junk ((s.set (a.reg pc rm) tmp2).set (a.reg pc rs) tmp) .tmp2
      a.flags logicCc .tmp ((h.flags.set_temp _ _).set_temp _ _) (by decide) shiftop
    simp only [get_set] at hshift
    exact hshift.after (clear_set rfl)

theorem leaves_logical {f : Flags} {carry setCc : Bool}
    (hf : Shows { f with c := if setCc then carry else f.c } s) (t : Temp) (r : Word) :
    Leaves (.temp t) r (if setCc then (logical r carry f).2 else f) s
      (run junk (if setCc then genLogicCC (.temp t) else []) (s.set r (.temp t))) := by
  have hget : (s.set r (.temp t)).get (.temp t) = r := by simp [get_set]
  cases setCc with
  | true =>
    have h := @leaves_logic_cc junk (s.set r (.temp t)) t _ (hf.set_temp r t)
    rw [hget] at h
    exact h.after (clear_set rfl)
  | false => exact ⟨hget, hf.set_temp r t, rfl⟩

theorem leaves_arithmetic {f : Flags} {setCc : Bool} {sum : Sum 32} {code code' : List Insn}
    (dest : Temp)
    (hset : Leaves (.temp dest) sum.result (Sum.flags sum) s (run junk code s))
    (hplain : Leaves (.temp dest) sum.result f s (run junk code' s)) :
    Leaves (.temp dest) (arithmetic sum).1 (if setCc then (arithmetic sum).2 else f) s
      (run junk (if setCc then code else code') s) := by
  cases setCc with
  | true => exact hset
  | false => exact hplain

theorem leaves_alu {f : Flags} {setCc carry : Bool} {x y : Word} (ctx : Context) (op : Opcode)
    (hf : Shows { f with c := if tableLogicCc op && setCc then carry else f.c } s)
    (hx : op ≠ .mvn ∧ op ≠ .mov → s.get tmp = x) (hy : s.get tmp2 = y)
    (hop : op.isTest = true → setCc = true) :
    Leaves (.temp (genAlu ctx setCc (tableLogicCc op && setCc) op).2) (compute x y carry f op).1
      (if setCc then (compute x y carry f op).2 else f) s
      (run junk (genAlu ctx setCc (tableLogicCc op && setCc) op).1 s) := by
  have hf' (h : tableLogicCc op = false) : Shows f s := by
    rw [h] at hf
    exact hf
  cases op
  case and | eor | orr | bic =>
    rw [← hx (by decide), ← hy]
    exact leaves_logical hf .tmp _
  case mov =>
    rw [← hy]
    cases setCc with
    | true => exact leaves_logic_cc hf
    | false => exact leaves_same hf
  case mvn =>
    rw [← hy]
    exact leaves_logical hf .tmp2 _
  case tst | teq =>
    obtain rfl := hop rfl
    rw [← hx (by decide), ← hy]
    exact @leaves_logical s junk f carry true hf .tmp _
  case sub =>
    rw [← hx (by decide), ← hy]
    refine leaves_arithmetic .tmp leaves_sub_cc (leaves_value (hf' rfl) rfl rfl ?_)
    simp [Insn.exec, BinOp.eval, get_set, sub_result]
  case rsb =>
    rw [← hx (by decide), ← hy]
    refine leaves_arithmetic .tmp leaves_sub_cc (leaves_value (hf' rfl) rfl rfl ?_)
    simp [Insn.exec, BinOp.eval, get_set, sub_result]
  case add =>
    rw [← hx (by decide), ← hy]
    refine leaves_arithmetic .tmp leaves_add_cc (leaves_value (hf' rfl) rfl rfl ?_)
    simp [Insn.exec, BinOp.eval, get_set, add_result, bitWord]
  case adc =>
    rw [← hx (by decide), ← hy]
    refine leaves_arithmetic .tmp (leaves_adc_cc _ (hf' rfl).c) (leaves_value (hf' rfl) rfl rfl ?_)
    simp [genAddCarry, Insn.exec, BinOp.eval, get_set, add_result, (hf' rfl).c]
  case sbc =>
    rw [← hx (by decide), ← hy]
    refine leaves_arithmetic .tmp (leaves_sbc_cc _ (by decide) (hf' rfl).c)
      (leaves_value (hf' rfl) rfl rfl ?_)
    simp [genSubCarry, Insn.exec, BinOp.eval, get_set, sub_result_carry, (hf' rfl).c]
  case rsc =>
    rw [← hx (by decide), ← hy]
    refine leaves_arithmetic .tmp (leaves_sbc_cc _ (by decide) (hf' rfl).c)
      (leaves_value (hf' rfl) rfl rfl ?_)
    simp [genSubCarry, Insn.exec, BinOp.eval, get_set, sub_result_carry, (hf' rfl).c]
  case cmp =>
    obtain rfl := hop rfl
    rw [← hx (by decide), ← hy]
    exact leaves_sub_cc
  case cmn =>
    obtain rfl := hop rfl
    rw [← hx (by decide), ← hy]
    exact leaves_add_cc

theorem Sim.set_reg (h : Sim a s) (i : Fin 16) (x : Word) :
    Sim (a.withReg i x) (s.set x (.reg i)) where
  flags := ⟨h.flags.n, h.flags.z, h.flags.c, h.flags.v⟩
  env := by
    rw [Visible.withReg, ← h.env]
    rfl
  normal := normal_regs h.normal _

theorem Sim.set_temp (h : Sim a s) (t : Temp) (x : Word) : Sim a (s.set x (.temp t)) :=
  ⟨h.flags.set_temp x t, h.env, h.normal⟩

theorem Sim.set_thumb (h : Sim a s) (thumb : Bool) :
    Sim { a with env := { a.env with thumb } } { s with env := { s.env with thumb } } where
  flags := ⟨h.flags.n, h.flags.z, h.flags.c, h.flags.v⟩
  env := by
    rw [← h.env]
    rfl
  normal := { h.normal with }

theorem sim_branch {t : Temp} (ctx : Context) (h : Sim a s) {rd : Fin 16} (hrd : rd.val = 15) :
    (storeRegBx ctx rd (.temp t)).2 = .jump ∧
      Sim (a.branchTo ctx (s.get (.temp t))) (run junk (storeRegBx ctx rd (.temp t)).1 s) := by
  obtain rfl : rd = 15 := Fin.ext hrd
  unfold storeRegBx Visible.branchTo
  cases ctx.arch7 with
  | true =>
    refine ⟨rfl, ?_⟩
    have hreg := (h.set_reg 15 (s.get (.temp t) &&& ~~~1#32)).set_temp t (s.get (.temp t) &&& 1#32)
    let s₁ := (s.set (s.get (.temp t) &&& ~~~1#32) (.reg 15)).set
      (s.get (.temp t) &&& 1#32) (.temp t)
    have hrun : run junk (genBx (.temp t)) s =
        { s₁ with env := { s₁.env with thumb := s.get (.temp t) &&& 1#32 != 0#32 } } := by
      simp [genBx, Insn.exec, get_set, s₁]
    exact hrun ▸ hreg.set_thumb _
  | false =>
    refine ⟨rfl, ?_⟩
    have hreg := (h.set_temp t (s.get (.temp t) &&& ~~~1#32)).set_reg 15
      (s.get (.temp t) &&& ~~~1#32)
    have hrun : run junk [.bini .and (.temp t) (.temp t) (~~~1#32), .mov (.reg 15) (.temp t)] s =
        (s.set (s.get (.temp t) &&& ~~~1#32) (.temp t)).set
          (s.get (.temp t) &&& ~~~1#32) (.reg 15) := by
      simp [Insn.exec, get_set]
    exact hrun ▸ hreg

theorem sim_operands (h : Sim a s) (d : Decoded) :
    Shows { a.flags with
        c := if tableLogicCc d.op1 && d.setCc then (a.operand2 pc d.operand).2 else a.flags.c }
      (run junk (genOperands pc d) s) ∧
    clear (run junk (genOperands pc d) s).env = a.env ∧
    (d.op1 ≠ .mvn ∧ d.op1 ≠ .mov → (run junk (genOperands pc d) s).get tmp = a.reg pc d.rn) ∧
    (run junk (genOperands pc d) s).get tmp2 = (a.operand2 pc d.operand).1 := by
  have hoperand := @leaves_operand a s junk pc (tableLogicCc d.op1 && d.setCc) h d.operand
  have henv := hoperand.rest.trans h.env
  rw [genOperands, run_append]
  by_cases hop : d.op1 ≠ .mvn ∧ d.op1 ≠ .mov
  · rw [if_pos hop, run_load_reg henv]
    refine ⟨hoperand.flags.set_temp _ _, henv, fun _ ↦ ?_, ?_⟩
    · rw [get_set, if_pos rfl]
    · rw [get_set, if_neg (by decide)]
      exact hoperand.value
  · rw [if_neg hop]
    exact ⟨hoperand.flags, henv, fun h ↦ absurd h hop, hoperand.value⟩

theorem exception_return_clear (env : ArmState) (pc : UInt32) :
    genExceptionReturn (clear env) pc = genExceptionReturn env pc := by
  have hmask : (0xFFFFFFFF : UInt32) &&& cpsrNZCV ≠ 0 := by decide
  have hflags (e : ArmState) (val : UInt32) :
      cpsrWriteFlags (clear e) val 0xFFFFFFFF = cpsrWriteFlags e val 0xFFFFFFFF := by
    simp only [cpsr_write_flags_eq, if_pos hmask]
    rfl
  have hstore : Processor.Modes.storeReg (clear env) .pc pc =
      clear (Processor.Modes.storeReg env .pc pc) := rfl
  rw [genExceptionReturn, genExceptionReturn, cpsrWrite, cpsrWrite, hstore, hflags]
  rfl

theorem exception_return_some {env : ArmState} (h : Normal env) (pc : UInt32) :
    ∃ e, genExceptionReturn env pc = some e ∧ Normal e := by
  obtain ⟨e, he, hn, -⟩ := @arch_cpsr_write _ (normal_regs h _) env.spsr 0xFFFFFFFF (by decide)
  exact ⟨e, he, hn⟩

end Instructions

section Blocks

variable {a : Visible} {s : TcgState} {junk : Word → Word → Word} {ctx : Context} {pc : Word}
  {d : Decoded}

theorem run_emit (code : List Insn) :
    LabelledCode.run (.running, s) (emit junk code) = (.running, run junk code s) := by
  induction code generalizing s with
  | nil => rfl
  | cons insn code ih => exact ih

theorem placed_emit (code : List Insn) : LabelledCode.placed (emit junk code) = [] := by
  induction code with
  | nil => rfl
  | cons insn code ih => exact ih

/-- The code of an instruction does what the instruction does. -/
def Realizes (o : Outcome) (ends : Bool) (c : LabelledCode.Status Exit × TcgState) : Prop :=
  match o with
  | .next a => ends = false ∧ c.1 = .running ∧ Sim a c.2
  | .left exit a => ends = true ∧ exit ≠ .stopped ∧ c.1 = .left exit ∧ Sim a c.2

theorem run_emit_append (code : List Insn) (tail : List (Op TcgState Exit)) :
    LabelledCode.run (.running, s) (emit junk code ++ tail) =
      LabelledCode.run (.running, run junk code s) tail := by
  rw [LabelledCode.run_append, run_emit]

theorem realizes_return {r : Word} {v : Temp} (henv : clear s.env = a.env)
    (hnormal : Normal a.env) (hr : s.get (.temp v) = r) :
    Realizes (match genExceptionReturn a.env ⟨r⟩ with
      | some env => .left .nextTb (visible env)
      | none => .left .stopped a) true
      (LabelledCode.run (.running, s) [exceptionReturn (.temp v), leave .nextTb]) := by
  obtain ⟨e, he, hn⟩ := exception_return_some hnormal ⟨r⟩
  have hcode : genExceptionReturn s.env ⟨s.get (.temp v)⟩ = some e := by
    rw [hr, ← exception_return_clear, henv]
    exact he
  rw [he]
  simp only [LabelledCode.run_cons, LabelledCode.run_nil, exceptionReturn, leave,
    LabelledCode.step, hcode]
  exact ⟨rfl, by decide, rfl, @sim_visible { s with env := e } hn⟩

theorem realizes_undefined (h : Sim a s) :
    Realizes (.left .undefined (a.withReg 15 (pc - 4#32))) true
      (LabelledCode.run (.running, s)
        [setPcIm (pc - 4#32), leave .undefined, leave .nextTb]) :=
  ⟨rfl, by decide, rfl, h.set_reg 15 _⟩

theorem sim_of_shows {f : Flags} {set : Bool} (hf : Shows (if set then f else a.flags) s)
    (henv : clear s.env = a.env) (hnormal : Normal a.env) : Sim (a.withFlags set f) s := by
  cases set with
  | true => exact ⟨hf, henv, hnormal⟩
  | false => exact ⟨hf, henv, hnormal⟩

theorem return_realizes (h : Sim a s) (hpass : a.passes d.cond = true) (hrd : d.rd.val = 15)
    (hset : d.setCc = true) (hop : d.op1 = .sub ∨ d.op1 = .mov) :
    Realizes (execute ctx pc d a) (genBody junk ctx pc d).2
      (LabelledCode.run (.running, s) (genBody junk ctx pc d).1) := by
  obtain ⟨hflags, henv, hx, hy⟩ := @sim_operands a s junk pc h d
  have htest : d.op1.isTest = false := by rcases hop with hop | hop <;> rw [hop] <;> rfl
  have hexec : execute ctx pc d a = returnWith ctx pc d a (a.operand2 pc d.operand).2
      (compute (a.reg pc d.rn) (a.operand2 pc d.operand).1 (a.operand2 pc d.operand).2 a.flags
        d.op1).1 := by
    rw [execute, if_pos hpass, htest, if_neg Bool.false_ne_true, if_neg (not_not.mpr hrd),
      if_pos ⟨hset, hop⟩]
  rw [hexec, returnWith]
  rcases hop with hop | hop <;> rw [hop, hset] at hflags
  · have hdisas : disasDataProcessing ctx pc d = if ctx.user then (genOperands pc d, .undefined)
        else (genOperands pc d ++ genSubCC tmp tmp tmp2, .exceptionReturn tmp) := by
      rw [disasDataProcessing, if_pos ⟨hop, hset, hrd⟩]
    rw [genBody, hdisas]
    cases ctx.user with
    | true =>
      simp only [if_true, run_emit_append]
      refine realizes_undefined (sim_of_shows ?_ henv h.normal)
      simpa [hop, tableLogicCc] using hflags
    | false =>
      simp only [Bool.false_eq_true, if_false, run_emit_append]
      have hsub := @leaves_sub_cc junk (run junk (genOperands pc d) s) .tmp .tmp .tmp2
      rw [run_append]
      refine realizes_return (hsub.rest.trans henv) h.normal ?_
      rw [hsub.value, hy, hx (by rw [hop]; decide), hop]
      rfl
  · have hdisas : disasDataProcessing ctx pc d = if ctx.user then (genOperands pc d, .undefined)
        else (genOperands pc d, .exceptionReturn tmp2) := by
      rw [disasDataProcessing, if_neg (by simp [hop]), if_pos ⟨hop, by rw [hop, hset]; rfl, hrd⟩]
    rw [genBody, hdisas]
    cases ctx.user with
    | true =>
      simp only [if_true, run_emit_append]
      refine realizes_undefined (sim_of_shows ?_ henv h.normal)
      simpa [hop, tableLogicCc] using hflags
    | false =>
      simp only [Bool.false_eq_true, if_false, run_emit_append]
      refine realizes_return henv h.normal ?_
      rw [hy, hop]
      rfl

theorem sim_alu (ctx : Context) (h : Sim a s) (d : Decoded) :
    let r := compute (a.reg pc d.rn) (a.operand2 pc d.operand).1 (a.operand2 pc d.operand).2
      a.flags d.op1
    let alu := genAlu ctx d.setCc (tableLogicCc d.op1 && d.setCc) d.op1
    Sim (a.withFlags d.setCc r.2) (run junk (genOperands pc d ++ alu.1) s) ∧
      (d.op1.isTest = false →
        (run junk (genOperands pc d ++ alu.1) s).get (.temp alu.2) = r.1) := by
  intro r alu
  obtain ⟨hflags, henv, hx, hy⟩ := @sim_operands a s junk pc h d
  rw [run_append]
  by_cases hop : d.op1.isTest = true → d.setCc = true
  · have hleaves := @leaves_alu _ junk a.flags d.setCc _ _ _ ctx d.op1 hflags hx hy hop
    exact ⟨sim_of_shows hleaves.flags (hleaves.rest.trans henv) h.normal, fun _ ↦ hleaves.value⟩
  · obtain ⟨htest, hset⟩ := Classical.not_imp.mp hop
    have hset' : d.setCc = false := Bool.eq_false_iff.mpr hset
    have hcode : alu.1 = [] := by
      simp only [alu, hset']
      cases hd : d.op1 <;> first | rfl | (rw [hd] at htest; cases htest)
    rw [hset', Bool.and_false] at hflags
    rw [hcode, hset']
    exact ⟨⟨hflags, henv, h.normal⟩, fun hf ↦ absurd (hf.symm.trans htest) (by decide)⟩

theorem body_realizes (h : Sim a s) (hpass : a.passes d.cond = true) :
    Realizes (execute ctx pc d a) (genBody junk ctx pc d).2
      (LabelledCode.run (.running, s) (genBody junk ctx pc d).1) := by
  by_cases hret : d.rd.val = 15 ∧ d.setCc = true ∧ (d.op1 = .sub ∨ d.op1 = .mov)
  · exact return_realizes h hpass hret.1 hret.2.1 hret.2.2
  have hsub : ¬(d.op1 = .sub ∧ d.setCc = true ∧ d.rd.val = 15) :=
    fun hd ↦ hret ⟨hd.2.2, hd.2.1, .inl hd.1⟩
  have hmov : ¬(d.op1 = .mov ∧ (tableLogicCc d.op1 && d.setCc) = true ∧ d.rd.val = 15) :=
    fun hd ↦ hret ⟨hd.2.2, (Bool.and_eq_true_iff.mp hd.2.1).2, .inr hd.1⟩
  obtain ⟨hsim, hvalue⟩ := @sim_alu a s junk pc ctx h d
  rw [execute, if_pos hpass, genBody, disasDataProcessing, if_neg hsub, if_neg hmov]
  by_cases htest : d.op1.isTest = true
  · rw [if_pos htest, if_pos htest]
    exact ⟨rfl, (congrArg Prod.fst (run_emit _)), (congrArg Prod.snd (run_emit _)) ▸ hsim⟩
  rw [if_neg htest, if_neg htest]
  have hvalue' := hvalue (Bool.eq_false_iff.mpr htest)
  by_cases hrd : d.rd.val = 15
  · rw [if_neg (not_not.mpr hrd), if_neg fun hd ↦ hret ⟨hrd, hd⟩]
    obtain ⟨hjump, hbranch⟩ := @sim_branch _ _ junk
      (genAlu ctx d.setCc (tableLogicCc d.op1 && d.setCc) d.op1).2 ctx hsim d.rd hrd
    rw [hvalue', ← run_append] at hbranch
    simp only [hjump, run_emit_append]
    exact ⟨rfl, by decide, rfl, hbranch⟩
  · rw [if_pos hrd, storeRegBx, if_neg fun hd ↦ hrd hd.1, storeReg, if_neg hrd]
    refine ⟨rfl, congrArg Prod.fst (run_emit _), (congrArg Prod.snd (run_emit _)) ▸ ?_⟩
    rw [run_append]
    exact hvalue' ▸ hsim.set_reg d.rd _

theorem store_ending (var : Var) (rd : Fin 16) :
    (storeRegBx ctx rd var).2 = if rd.val = 15 then .jump else .next := by
  unfold storeRegBx storeReg
  split_ifs with h h' <;> first | rfl | exact absurd h.1 h'

theorem ending_next :
    (disasDataProcessing ctx pc d).2 = .next ↔ ¬(d.op1.isTest = false ∧ d.rd.val = 15) := by
  unfold disasDataProcessing
  by_cases hsub : d.op1 = .sub ∧ d.setCc = true ∧ d.rd.val = 15
  · rw [if_pos hsub]
    cases ctx.user <;> simp [hsub.1, hsub.2.2, Opcode.isTest]
  rw [if_neg hsub]
  by_cases hmov : d.op1 = .mov ∧ (tableLogicCc d.op1 && d.setCc) = true ∧ d.rd.val = 15
  · rw [if_pos hmov]
    cases ctx.user <;> simp [hmov.1, hmov.2.2, Opcode.isTest]
  rw [if_neg hmov]
  by_cases htest : d.op1.isTest = true
  · simp [htest]
  · by_cases hrd : d.rd.val = 15 <;> simp [htest, store_ending, hrd]

theorem body_ends :
    (genBody junk ctx pc d).2 = decide (d.op1.isTest = false ∧ d.rd.val = 15) := by
  have hends : (genBody junk ctx pc d).2 = decide ((disasDataProcessing ctx pc d).2 ≠ .next) := by
    unfold genBody
    rcases disasDataProcessing ctx pc d with ⟨code, ending⟩
    cases ending <;> rfl
  rw [hends, decide_eq_decide, ne_eq, ending_next, not_not]

theorem placed_body : LabelledCode.placed (genBody junk ctx pc d).1 = [] := by
  unfold genBody
  split <;> simp [placed_emit, setPcIm, leave, exceptionReturn]

theorem test_cc_some (cond : Fin 15) (h : cond.val ≠ 14) (label : ℕ) :
    ∃ r, genTestCc (M := Unit) (UInt32.ofNat cond.val ^^^ 1) label (label + 1) = some r := by
  fin_cases cond <;> first | exact ⟨_, rfl⟩ | exact absurd rfl h

theorem passes_iff (h : Sim a s) (cond : Fin 15) :
    a.passes cond = Emission.conditionPassed s.env.toCpuArmState (UInt32.ofNat cond.val) := by
  have hcond : (UInt32.ofNat cond.val).toNat = cond.val := by
    rw [UInt32.toNat_ofNat']
    omega
  rw [← (visible_sim h).1, Emission.conditionPassed, hcond]
  rfl

theorem condition_runs (cond : Fin 15) (label : ℕ) :
    ∃ guard nbLabels, genCondition cond label = some (guard, nbLabels) ∧
      ∀ {a : Visible} {s : TcgState}, Sim a s →
        LabelledCode.run (.running, s) guard =
          (if a.passes cond then .running else .skipping label, s) := by
  by_cases hcond : cond.val = 14
  · refine ⟨[], label, if_pos hcond, fun {a s} h ↦ ?_⟩
    have hpass : a.passes cond = true := by rw [hcond]; rfl
    rw [hpass]
    rfl
  · obtain ⟨⟨ops, nbLabels⟩, htest⟩ := test_cc_some cond hcond label
    refine ⟨_, nbLabels, by rw [genCondition, if_neg hcond, htest]; rfl, fun {a s} h ↦ ?_⟩
    have hskips := (Emission.test_cc_skips htest (Nat.lt_succ_self _)).1.zoom processor
      fun _ ↦ Exit.stopped
    have hinv : Emission.conditionPassed (processor.get s).env (UInt32.ofNat cond.val ^^^ 1) =
        !a.passes cond :=
      (Emission.condition_inverse (Emission.test_cc_lt htest)).trans
        (congrArg _ (passes_iff h cond).symm)
    rw [hskips.run, hinv]
    cases a.passes cond <;> rfl

/-- An instruction with its condition goes on after its label, or leaves the block as one that ends
it. -/
theorem insn_runs (h : Sim a s) {guard : List (Op TcgState Exit)} {label : ℕ}
    (hguard : LabelledCode.run (.running, s) guard =
      (if a.passes d.cond then .running else .skipping label, s)) :
    let body := genBody junk ctx pc d
    let c := LabelledCode.run (.running, s)
      (guard ++ body.1 ++ if d.cond.val = 14 then [] else [.label label])
    match execute ctx pc d a with
    | .next a' => c.1 = .running ∧ Sim a' c.2 ∧ (body.2 = true → d.cond.val ≠ 14)
    | .left exit a' => c.1 = .left exit ∧ Sim a' c.2 ∧ exit ≠ .stopped := by
  intro body c
  have hc : c = LabelledCode.run (LabelledCode.run
      (if a.passes d.cond then .running else .skipping label, s) body.1)
      (if d.cond.val = 14 then [] else [.label label]) := by
    simp only [c, LabelledCode.run_append, hguard]
  by_cases hpass : a.passes d.cond = true
  · have hbody := @body_realizes a s junk ctx pc d h hpass
    rw [if_pos hpass] at hc
    rcases hrun : LabelledCode.run (.running, s) body.1 with ⟨status, s'⟩
    rw [hrun] at hc hbody
    cases hexec : execute ctx pc d a with
    | next a' =>
      rw [hexec] at hbody
      obtain ⟨hends, rfl, hsim⟩ := hbody
      have hc' : c = (.running, s') := by
        rw [hc]
        split_ifs <;> rfl
      rw [hc']
      exact ⟨rfl, hsim, fun hb ↦ absurd (hends.symm.trans hb) (by decide)⟩
    | left exit a' =>
      rw [hexec] at hbody
      obtain ⟨-, hstop, rfl, hsim⟩ := hbody
      rw [hc, LabelledCode.run_left]
      exact ⟨rfl, hsim, hstop⟩
  · have hcond : d.cond.val ≠ 14 := by
      intro hd
      rw [hd] at hpass
      exact hpass rfl
    rw [if_neg hpass, LabelledCode.run_skipping (by rw [placed_body]; exact List.not_mem_nil),
      if_neg hcond] at hc
    have hc' : c = (.running, s) := by
      rw [hc]
      simp [LabelledCode.step]
    rw [execute, if_neg hpass, hc']
    exact ⟨rfl, h, fun _ ↦ hcond⟩

theorem block_realizes (h : Sim a s) (pc : Word) (nbLabels : ℕ) (ds : List Decoded) :
    ∃ ops s', genBlock junk ctx pc nbLabels ds = some ops ∧
      LabelledCode.run (.running, s) ops = (.left (interpret ctx pc (blockOf ds) a).1, s') ∧
      Sim (interpret ctx pc (blockOf ds) a).2 s' ∧
      (interpret ctx pc (blockOf ds) a).1 ≠ .stopped := by
  induction ds generalizing a s pc nbLabels with
  | nil => exact ⟨_, _, rfl, rfl, h.set_reg 15 pc, (by decide : Exit.nextTb ≠ .stopped)⟩
  | cons d ds ih =>
    obtain ⟨guard, nbLabels', hguard, hrun⟩ := condition_runs d.cond nbLabels
    have hinsn := @insn_runs a s junk ctx (pc + 4#32) d h guard nbLabels (hrun h)
    have hends := @body_ends junk ctx (pc + 4#32) d
    dsimp only at hinsn
    generalize hbody : genBody junk ctx (pc + 4#32) d = body at hinsn hends
    generalize hcode : guard ++ body.1 ++ (if d.cond.val = 14 then [] else [.label nbLabels]) = code
      at hinsn
    rcases hc : LabelledCode.run (.running, s) code with ⟨status, s₁⟩
    rw [hc] at hinsn
    by_cases hlast : d.op1.isTest = false ∧ d.rd.val = 15
    · have hgen : genBlock junk ctx pc nbLabels (d :: ds) =
          some (code ++ if d.cond.val = 14 then [] else gotoTb (pc + 4#32)) := by
        simp only [genBlock, hguard, Option.bind_eq_bind, Option.bind_some, hbody, hends, hlast,
          and_self, decide_true, if_true, hcode]
      rw [hgen, blockOf, if_pos hlast, interpret]
      cases hexec : execute ctx (pc + 4#32) d a with
      | next a' =>
        rw [hexec] at hinsn
        obtain ⟨rfl, hsim, hcond⟩ := hinsn
        rw [if_neg (hcond (by simp [hends, hlast]))]
        refine ⟨_, _, rfl, ?_, hsim.set_reg 15 _, (by decide : Exit.nextTb ≠ .stopped)⟩
        rw [LabelledCode.run_append, hc]
        rfl
      | left exit a' =>
        rw [hexec] at hinsn
        obtain ⟨rfl, hsim, hstop⟩ := hinsn
        refine ⟨_, s₁, rfl, ?_, hsim, hstop⟩
        rw [LabelledCode.run_append, hc, LabelledCode.run_left]
    · have hgen : genBlock junk ctx pc nbLabels (d :: ds) =
          (genBlock junk ctx (pc + 4#32) nbLabels' ds).bind fun ops ↦ some (code ++ ops) := by
        simp only [genBlock, hguard, Option.bind_eq_bind, Option.bind_some, hbody, hends, hlast,
          decide_false, Bool.false_eq_true, if_false, hcode]
      rw [hgen, blockOf, if_neg hlast, interpret]
      cases hexec : execute ctx (pc + 4#32) d a with
      | next a' =>
        rw [hexec] at hinsn
        obtain ⟨rfl, hsim, -⟩ := hinsn
        obtain ⟨ops, s', hops, hrest, hsim', hstop⟩ := ih hsim (pc + 4#32) nbLabels'
        refine ⟨code ++ ops, s', by rw [hops]; rfl, ?_, hsim', hstop⟩
        rw [LabelledCode.run_append, hc, hrest]
      | left exit a' =>
        rw [hexec] at hinsn
        obtain ⟨rfl, hsim, hstop⟩ := hinsn
        obtain ⟨ops, -, hops, -⟩ := ih h (pc + 4#32) nbLabels'
        refine ⟨code ++ ops, s₁, by rw [hops]; rfl, ?_, hsim, hstop⟩
        rw [LabelledCode.run_append, hc, LabelledCode.run_left]

/-- The states in which the translator takes words for ARM instructions and has no code to emit
for the IT state. -/
structure ArmEntry (env : ArmState) : Prop where
  normal : Normal env
  arm : env.thumb = false
  noIt : env.condexecBits = 0
  notM : env.featureM = false

/-- The code that is emitted for a block of data processing instructions does to the processor
what the instructions do. -/
theorem data_processing_translated (junk : Word → Word → Word) (ctx : Context) (pc : Word)
    {insns : List Word} {ds : List Decoded} (hds : insns.mapM decode = some ds)
    (h : ArmEntry s.env) :
    ∃ ops s' exit, disasBlock junk ctx pc insns = some ops ∧
      LabelledCode.run (.running, s) ops = (.left exit, s') ∧ exit ≠ .stopped ∧
      interpret ctx pc (blockOf ds) (visible s.env) = (exit, visible s'.env) ∧ Normal s'.env := by
  obtain ⟨ops, s', hops, hrun, hsim, hstop⟩ :=
    @block_realizes _ s junk ctx (sim_visible h.normal) pc 0 ds
  obtain ⟨hvisible, hnormal⟩ := visible_sim hsim
  refine ⟨ops, s', _, ?_, hrun, hstop, ?_, hnormal⟩
  · rw [disasBlock, hds]
    exact hops
  · rw [hvisible]

def fresh : TcgState := ⟨start .svc, 0, fun _ ↦ 0#32, fun _ ↦ 0#32, fun _ ↦ 0#64⟩

def wideAdd : List Decoded :=
  [⟨14, .add, true, 0, 0, .shiftIm 2 .lsl 0⟩, ⟨14, .adc, false, 1, 1, .shiftIm 3 .lsl 0⟩]

theorem data_processing_translated_wide_add :
    [0xE0900002#32, 0xE0A11003#32].mapM decode = some wideAdd ∧
      ∃ ops s' exit,
        disasBlock (fun _ _ ↦ 0#32) ⟨true, true, false⟩ 0x8000#32 [0xE0900002#32, 0xE0A11003#32] =
          some ops ∧
        LabelledCode.run (.running, fresh) ops = (.left exit, s') ∧ exit ≠ .stopped ∧
        interpret ⟨true, true, false⟩ 0x8000#32 (blockOf wideAdd) (visible (start .svc)) =
          (exit, visible s'.env) ∧ Normal s'.env :=
  ⟨by decide, data_processing_translated _ _ _ (by decide) ⟨start_normal .svc, rfl, rfl, rfl⟩⟩

/-- The relation of two words that a condition names after they were compared. -/
def compares (x y : Word) : ℕ → Bool
  | 0 => x = y
  | 1 => x ≠ y
  | 2 => y.toNat ≤ x.toNat
  | 3 => x.toNat < y.toNat
  | 4 => (x - y).toInt < 0
  | 5 => 0 ≤ (x - y).toInt
  | 6 => (x - y).toInt ≠ x.toInt - y.toInt
  | 7 => (x - y).toInt = x.toInt - y.toInt
  | 8 => y.toNat < x.toNat
  | 9 => x.toNat ≤ y.toNat
  | 10 => y.toInt ≤ x.toInt
  | 11 => x.toInt < y.toInt
  | 12 => y.toInt < x.toInt
  | 13 => x.toInt ≤ y.toInt
  | _ => true

theorem holds_difference (x y : Word) (cond : Fin 15) :
    let f := Sum.flags (addWithCarry x (~~~y) true)
    holds f.z f.c f.n f.v cond = compares x y cond := by
  intro f
  have hz : f.z = decide (x = y) := decide_eq_decide.mpr (sub_zero_iff x y)
  have hc : f.c = decide (y.toNat ≤ x.toNat) := sub_carry x y
  have hn : f.n = decide ((x - y).toInt < 0) := by
    rw [← BitVec.msb_eq_toInt, ← sub_result]
    rfl
  have hv : f.v = decide ((x - y).toInt ≠ x.toInt - y.toInt) := sub_overflow_iff x y (by decide)
  have hs : (f.n == f.v) = decide (y.toInt ≤ x.toInt) := sub_sign x y (by decide)
  have hnat : f.z = decide (x.toNat = y.toNat) := by simp only [hz, ← BitVec.toNat_inj]
  have hint : f.z = decide (x.toInt = y.toInt) := by simp only [hz, ← BitVec.toInt_inj]
  clear_value f
  fin_cases cond <;> simp only [holds, compares, bne] <;> grind

/-- An instruction after a comparison is skipped unless the words compared are in the relation that
its condition names. -/
theorem comparison_decides (junk : Word → Word → Word) (ctx : Context) (pc : Word) (d : Decoded)
    (hop : d.op1 = .cmp) (hset : d.setCc = true) (h : Normal s.env) (cond : Fin 15) (label : ℕ) :
    let a := visible s.env
    let s' := run junk (disasDataProcessing ctx pc d).1 s
    ∃ guard nbLabels, genCondition cond label = some (guard, nbLabels) ∧
      LabelledCode.run (.running, s') guard =
        (if compares (a.reg pc d.rn) (a.operand2 pc d.operand).1 cond then .running
          else .skipping label, s') := by
  intro a s'
  obtain ⟨guard, nbLabels, hguard, hrun⟩ := condition_runs cond label
  refine ⟨guard, nbLabels, hguard, ?_⟩
  obtain ⟨hsim, -⟩ := @sim_alu a s junk pc ctx (sim_visible h) d
  have hcode : (disasDataProcessing ctx pc d).1 =
      genOperands pc d ++ (genAlu ctx d.setCc (tableLogicCc d.op1 && d.setCc) d.op1).1 := by
    simp [disasDataProcessing, hop, Opcode.isTest]
  rw [← hcode] at hsim
  rw [hrun hsim, ← holds_difference, hset, hop]
  rfl

def cmpFive : Decoded := ⟨14, .cmp, true, 0, 0, .imm 5#8 0⟩

theorem comparison_decides_lt :
    cmpFive.op1 = .cmp ∧ cmpFive.setCc = true ∧
      ∃ guard nbLabels, genCondition 11 0 = some (guard, nbLabels) ∧
        LabelledCode.run (.running,
            run (fun _ _ ↦ 0#32) (disasDataProcessing ⟨true, true, false⟩ 0#32 cmpFive).1 fresh)
            guard =
          (if compares ((visible fresh.env).reg 0#32 cmpFive.rn)
              ((visible fresh.env).operand2 0#32 cmpFive.operand).1 11 then .running
            else .skipping 0,
            run (fun _ _ ↦ 0#32) (disasDataProcessing ⟨true, true, false⟩ 0#32 cmpFive).1 fresh) :=
  ⟨rfl, rfl, comparison_decides _ _ _ cmpFive rfl rfl (start_normal .svc) 11 0⟩

end Blocks

end VarEmu.Translator.DataProcessing
