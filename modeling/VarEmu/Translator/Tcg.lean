import VarEmu.Library.WordArith
import VarEmu.Processor.Modes

namespace VarEmu.Translator.Tcg

open Library.WordArith Processor.Mmu Processor.Modes

/-- The temporaries that hold the operands of an instruction. -/
inductive Temp
  | tmp
  | tmp2
  | tmp3
  deriving DecidableEq, Repr

inductive Scratch
  | a
  | b
  | c
  deriving DecidableEq, Repr

inductive Temp64
  | q0
  | q1
  deriving DecidableEq, Repr

/-- The variables of the emitted code: the registers and flags of the processor, which are
global, and temporaries. A generator has scratch temporaries of its own. -/
inductive Var
  | reg (i : Fin 16)
  | cf
  | nf
  | zf
  | vf
  | temp (t : Temp)
  | scratch (t : Scratch)
  deriving DecidableEq, Repr

abbrev tmp : Var := .temp .tmp

abbrev tmp2 : Var := .temp .tmp2

structure TcgState where
  env : ArmState
  vemuErrorsEnabled : UInt64
  temps : Temp → Word
  scratches : Scratch → Word
  wide : Temp64 → BitVec 64

def TcgState.get (s : TcgState) : Var → Word
  | .reg i => (s.env.regs i).toBitVec
  | .cf => s.env.CF.toBitVec
  | .nf => s.env.NF.toBitVec
  | .zf => s.env.ZF.toBitVec
  | .vf => s.env.VF.toBitVec
  | .temp t => s.temps t
  | .scratch t => s.scratches t

def TcgState.set (s : TcgState) (x : Word) : Var → TcgState
  | .reg i => { s with env := { s.env with regs := Function.update s.env.regs i ⟨x⟩ } }
  | .cf => { s with env := { s.env with CF := ⟨x⟩ } }
  | .nf => { s with env := { s.env with NF := ⟨⟨x⟩⟩ } }
  | .zf => { s with env := { s.env with ZF := ⟨x⟩ } }
  | .vf => { s with env := { s.env with VF := ⟨⟨x⟩⟩ } }
  | .temp t => { s with temps := Function.update s.temps t x }
  | .scratch t => { s with scratches := Function.update s.scratches t x }

def TcgState.setWide (s : TcgState) (q : BitVec 64) (t : Temp64) : TcgState :=
  { s with wide := Function.update s.wide t q }

inductive BinOp
  | add
  | sub
  | and
  | or
  | xor
  | andc
  | shl
  | shr
  | sar
  | rotr
  deriving DecidableEq, Repr

/-- The value of an operation. A shift by the width of a word or more has no defined result, it is
whatever `junk` gives. -/
def BinOp.eval (junk : Word → Word → Word) (x y : Word) : BinOp → Word
  | .add => x + y
  | .sub => x - y
  | .and => x &&& y
  | .or => x ||| y
  | .xor => x ^^^ y
  | .andc => x &&& ~~~y
  | .shl => if y.toNat < 32 then x <<< y.toNat else junk x y
  | .shr => if y.toNat < 32 then x >>> y.toNat else junk x y
  | .sar => if y.toNat < 32 then x.sshiftRight y.toNat else junk x y
  | .rotr => if y.toNat < 32 then x.rotateRight y.toNat else junk x y

inductive Cond
  | geu
  | gtu
  deriving DecidableEq, Repr

def Cond.eval (x y : Word) : Cond → Bool
  | .geu => y.toNat ≤ x.toNat
  | .gtu => y.toNat < x.toNat

def shlCc (CF x i : Word) : Word × Word :=
  let shift := (i &&& 0xff#32).toNat
  if shift ≥ 32 then (0#32, if shift = 32 then x &&& 1#32 else 0#32)
  else if shift ≠ 0 then (x <<< shift, (x >>> (32 - shift)) &&& 1#32)
  else (x, CF)

def shrCc (CF x i : Word) : Word × Word :=
  let shift := (i &&& 0xff#32).toNat
  if shift ≥ 32 then (0#32, if shift = 32 then (x >>> 31) &&& 1#32 else 0#32)
  else if shift ≠ 0 then (x >>> shift, (x >>> (shift - 1)) &&& 1#32)
  else (x, CF)

def sarCc (CF x i : Word) : Word × Word :=
  let shift := (i &&& 0xff#32).toNat
  if shift ≥ 32 then (x.sshiftRight 31, (x >>> 31) &&& 1#32)
  else if shift ≠ 0 then (x.sshiftRight shift, (x >>> (shift - 1)) &&& 1#32)
  else (x, CF)

def rorCc (CF x i : Word) : Word × Word :=
  let shift1 := (i &&& 0xff#32)
  let shift := (shift1 &&& 0x1f#32).toNat
  if shift = 0 then (x, if shift1 ≠ 0#32 then (x >>> 31) &&& 1#32 else CF)
  else ((x >>> shift) ||| (x <<< (32 - shift)), (x >>> (shift - 1)) &&& 1#32)

/-- The helper of a shift that sets the carry: its result, and the carry flag afterwards. -/
def shiftHelper (CF x i : Word) : Shift → Word × Word
  | .lsl => shlCc CF x i
  | .lsr => shrCc CF x i
  | .asr => sarCc CF x i
  | .ror => rorCc CF x i

inductive Insn
  | movi (dest : Var) (imm : Word)
  | mov (dest src : Var)
  | not (dest src : Var)
  | bin (op : BinOp) (dest x y : Var)
  | bini (op : BinOp) (dest x : Var) (imm : Word)
  | setcond (c : Cond) (dest x y : Var)
  | movcond (c : Cond) (dest x y v1 v2 : Var)
  | add2 (rl rh al ah bl bh : Var)
  | extu (dest : Temp64) (src : Var)
  | add64 (dest x y : Temp64)
  | extr (lo hi : Var) (src : Temp64)
  | helper (type : Shift) (dest x i : Var)
  | storeThumb (src : Var)

def Insn.exec (junk : Word → Word → Word) (s : TcgState) : Insn → TcgState
  | .movi dest imm => s.set imm dest
  | .mov dest src => s.set (s.get src) dest
  | .not dest src => s.set (~~~s.get src) dest
  | .bin op dest x y => s.set (op.eval junk (s.get x) (s.get y)) dest
  | .bini op dest x imm => s.set (op.eval junk (s.get x) imm) dest
  | .setcond c dest x y => s.set (if c.eval (s.get x) (s.get y) then 1#32 else 0#32) dest
  | .movcond c dest x y v1 v2 =>
    s.set (if c.eval (s.get x) (s.get y) then s.get v1 else s.get v2) dest
  | .add2 rl rh al ah bl bh =>
    let sum := (s.get ah ++ s.get al) + (s.get bh ++ s.get bl)
    (s.set (sum.setWidth 32) rl).set ((sum >>> 32).setWidth 32) rh
  | .extu dest src => s.setWide ((s.get src).setWidth 64) dest
  | .add64 dest x y => s.setWide (s.wide x + s.wide y) dest
  | .extr lo hi src =>
    (s.set ((s.wide src).setWidth 32) lo).set ((s.wide src >>> 32).setWidth 32) hi
  | .helper type dest x i =>
    let r := shiftHelper (s.get .cf) (s.get x) (s.get i) type
    (s.set r.2 .cf).set r.1 dest
  | .storeThumb src => { s with env := { s.env with thumb := s.get src != 0#32 } }

def run (junk : Word → Word → Word) (code : List Insn) (s : TcgState) : TcgState :=
  code.foldl (Insn.exec junk) s

def genSetCFBit31 (var : Var) : List Insn := [.bini .shr .cf var 31#32]

def genLogicCC (var : Var) : List Insn := [.mov .nf var, .mov .zf var]

def genAddCarry (dest t0 t1 : Var) : List Insn := [.bin .add dest t0 t1, .bin .add dest dest .cf]

def genSubCarry (dest t0 t1 : Var) : List Insn :=
  [.bin .sub dest t0 t1, .bin .add dest dest .cf, .bini .sub dest dest 1#32]

/-- The end of an addition, with its sum in the negative flag. -/
def genSumFlags (dest t0 t1 : Var) : List Insn :=
  let tmp : Var := .scratch .a
  [.mov .zf .nf, .bin .xor .vf .nf t0, .bin .xor tmp t0 t1, .bin .andc .vf .vf tmp, .mov dest .nf]

def genAddCC (dest t0 t1 : Var) : List Insn :=
  let tmp : Var := .scratch .a
  [.movi tmp 0#32, .add2 .nf .cf t0 tmp t1 tmp] ++ genSumFlags dest t0 t1

/-- The carry is added by two additions of double words, or in words of twice the size on a host
that has no such addition. -/
def genAdcCC (hasAdd2 : Bool) (dest t0 t1 : Var) : List Insn :=
  let tmp : Var := .scratch .a
  (if hasAdd2 then
    [.movi tmp 0#32, .add2 .nf .cf t0 tmp .cf tmp, .add2 .nf .cf .nf .cf t1 tmp]
  else
    [.extu .q0 t0, .extu .q1 t1, .add64 .q0 .q0 .q1, .extu .q1 .cf, .add64 .q0 .q0 .q1,
      .extr .nf .cf .q0]) ++
  genSumFlags dest t0 t1

def genSubCC (dest t0 t1 : Var) : List Insn :=
  let tmp : Var := .scratch .a
  [.bin .sub .nf t0 t1, .mov .zf .nf, .setcond .geu .cf t0 t1, .bin .xor .vf .nf t0,
    .bin .xor tmp t0 t1, .bin .and .vf .vf tmp, .mov dest .nf]

def genSbcCC (hasAdd2 : Bool) (dest t0 t1 : Var) : List Insn :=
  let tmp : Var := .temp .tmp3
  .not tmp t1 :: genAdcCC hasAdd2 dest t0 tmp

def genShift (op : BinOp) (dest t0 t1 : Var) : List Insn :=
  let tmp1 : Var := .scratch .a
  let tmp2 : Var := .scratch .b
  let tmp3 : Var := .scratch .c
  [.bini .and tmp1 t1 0xff#32, .movi tmp2 0#32, .movi tmp3 0x1f#32,
    .movcond .gtu tmp2 tmp1 tmp3 tmp2 t0, .bini .and tmp1 tmp1 0x1f#32, .bin op dest tmp2 tmp1]

def genShl (dest t0 t1 : Var) : List Insn := genShift .shl dest t0 t1

def genShr (dest t0 t1 : Var) : List Insn := genShift .shr dest t0 t1

def genSar (dest t0 t1 : Var) : List Insn :=
  let tmp1 : Var := .scratch .a
  let tmp2 : Var := .scratch .b
  [.bini .and tmp1 t1 0xff#32, .movi tmp2 0x1f#32, .movcond .gtu tmp1 tmp1 tmp2 tmp2 tmp1,
    .bin .sar dest t0 tmp1]

def shifterOutIm (var : Var) (shift : ℕ) : List Insn :=
  if shift = 0 then [.bini .and .cf var 1#32]
  else .bini .shr .cf var (BitVec.ofNat 32 shift) ::
    if shift ≠ 31 then [.bini .and .cf .cf 1#32] else []

/-- The shift by a number in the instruction, where zero has a meaning of its own. -/
def genArmShiftIm (var : Var) (shiftop : Shift) (shift : ℕ) (flags : Bool) : List Insn :=
  let out (k : ℕ) : List Insn := if flags then shifterOutIm var k else []
  match shiftop with
  | .lsl =>
    if shift ≠ 0 then out (32 - shift) ++ [.bini .shl var var (BitVec.ofNat 32 shift)] else []
  | .lsr =>
    if shift = 0 then (if flags then [.bini .shr .cf var 31#32] else []) ++ [.movi var 0#32]
    else out (shift - 1) ++ [.bini .shr var var (BitVec.ofNat 32 shift)]
  | .asr =>
    let shift := if shift = 0 then 32 else shift
    out (shift - 1) ++ [.bini .sar var var (BitVec.ofNat 32 (if shift = 32 then 31 else shift))]
  | .ror =>
    if shift ≠ 0 then out (shift - 1) ++ [.bini .rotr var var (BitVec.ofNat 32 shift)]
    else
      let tmp : Var := .scratch .a
      .bini .shl tmp .cf 31#32 :: out 0 ++ [.bini .shr var var 1#32, .bin .or var var tmp]

def genArmShiftReg (var : Var) (shiftop : Shift) (shift : Var) (flags : Bool) : List Insn :=
  if flags then [.helper shiftop var var shift]
  else match shiftop with
    | .lsl => genShl var var shift
    | .lsr => genShr var var shift
    | .asr => genSar var var shift
    | .ror => [.bini .and shift shift 0x1f#32, .bin .rotr var var shift]

structure Flags where
  n : Bool
  z : Bool
  c : Bool
  v : Bool
  deriving DecidableEq, Repr

/-- The flags as the variables of the emitted code show them. -/
structure Shows (f : Flags) (s : TcgState) : Prop where
  n : (s.get .nf).msb = f.n
  z : decide (s.get .zf = 0#32) = f.z
  c : s.get .cf = bitWord 32 f.c
  v : (s.get .vf).msb = f.v

def clear (env : ArmState) : ArmState := { env with NF := 0, ZF := 0, CF := 0, VF := 0 }

/-- A piece of code leaves a value in a variable, flags, and the rest of the processor as it
was. -/
structure Leaves (dest : Var) (x : Word) (f : Flags) (s s' : TcgState) : Prop where
  value : s'.get dest = x
  flags : Shows f s'
  rest : clear s'.env = clear s.env

def Var.isReg : Var → Bool
  | .reg _ => true
  | .cf | .nf | .zf | .vf | .temp _ | .scratch _ => false

def Var.isTemp : Var → Bool
  | .temp _ | .scratch _ => true
  | .reg _ | .cf | .nf | .zf | .vf => false

/-- What an instruction of the emitted code writes is among the variables of a set. -/
def Insn.within (p : Var → Bool) : Insn → Bool
  | .movi dest _ | .mov dest _ | .not dest _ | .bin _ dest _ _ | .bini _ dest _ _
  | .setcond _ dest _ _ | .movcond _ dest _ _ _ _ => p dest
  | .helper _ dest _ _ => p .cf && p dest
  | .add2 rl rh _ _ _ _ | .extr rl rh _ => p rl && p rh
  | .extu _ _ | .add64 _ _ _ => true
  | .storeThumb _ => false

section Access

variable {s : TcgState} {x : Word} {v w : Var} {junk : Word → Word → Word} {code code' : List Insn}

theorem get_set : (s.set x v).get w = if w = v then x else s.get w := by
  by_cases h : w = v
  · subst h
    rw [if_pos rfl]
    cases w <;> simp only [TcgState.set, TcgState.get, Function.update_self] <;> rfl
  · rw [if_neg h]
    cases v <;> cases w <;> first
      | rfl
      | exact absurd rfl h
      | exact congrArg UInt32.toBitVec
          (Function.update_of_ne (fun he ↦ h (congrArg Var.reg he)) _ _)
      | exact Function.update_of_ne (fun he ↦ h (congrArg Var.temp he)) _ _
      | exact Function.update_of_ne (fun he ↦ h (congrArg Var.scratch he)) _ _

@[simp]
theorem get_set_wide (q : BitVec 64) (t : Temp64) : (s.setWide q t).get w = s.get w := by
  cases w <;> rfl

@[simp]
theorem wide_set : (s.set x v).wide = s.wide := by cases v <;> rfl

@[simp]
theorem wide_set_wide (q : BitVec 64) (t : Temp64) :
    (s.setWide q t).wide = Function.update s.wide t q := rfl

theorem clear_set (hv : v.isReg = false) : clear (s.set x v).env = clear s.env := by
  cases v with
  | reg i => cases hv
  | _ => rfl

@[simp]
theorem run_nil : run junk [] s = s := rfl

@[simp]
theorem run_cons (insn : Insn) : run junk (insn :: code) s = run junk code (insn.exec junk s) := rfl

theorem run_append : run junk (code ++ code') s = run junk code' (run junk code s) :=
  List.foldl_append

theorem clear_exec {insn : Insn} (h : insn.within (!·.isReg) = true) :
    clear (insn.exec junk s).env = clear s.env := by
  cases insn <;> simp only [Insn.within, Bool.and_eq_true, Bool.not_eq_true'] at h
  case add2 | extr | helper => rw [Insn.exec, clear_set h.2, clear_set h.1]
  case extu | add64 => rfl
  case storeThumb => cases h
  all_goals exact clear_set h

theorem clear_run (h : code.all (Insn.within (!·.isReg)) = true) :
    clear (run junk code s).env = clear s.env := by
  induction code generalizing s with
  | nil => rfl
  | cons insn code ih =>
    rw [List.all_cons, Bool.and_eq_true] at h
    rw [run_cons, ih h.2, clear_exec h.1]

theorem get_exec_within {p : Var → Bool} {insn : Insn} (h : insn.within p = true)
    (hw : p w = false) : (insn.exec junk s).get w = s.get w := by
  have hne {v : Var} (hv : p v = true) : w ≠ v := by
    rintro rfl
    rw [hv] at hw
    cases hw
  cases insn <;> simp only [Insn.within, Bool.and_eq_true] at h
  case add2 | extr | helper => rw [Insn.exec, get_set, if_neg (hne h.2), get_set, if_neg (hne h.1)]
  case extu | add64 => exact get_set_wide _ _
  case storeThumb => cases h
  all_goals rw [Insn.exec, get_set, if_neg (hne h)]

theorem get_run_within {p : Var → Bool} (h : code.all (Insn.within p) = true) (hw : p w = false) :
    (run junk code s).get w = s.get w := by
  induction code generalizing s with
  | nil => rfl
  | cons insn code ih =>
    rw [List.all_cons, Bool.and_eq_true] at h
    rw [run_cons, ih h.2, get_exec_within h.1 hw]

theorem Shows.run_temps {f : Flags} (hf : Shows f s)
    (h : code.all (Insn.within Var.isTemp) = true) : Shows f (run junk code s) where
  n := by rw [get_run_within h rfl, hf.n]
  z := by rw [get_run_within h rfl, hf.z]
  c := by rw [get_run_within h rfl, hf.c]
  v := by rw [get_run_within h rfl, hf.v]

theorem Shows.set_temp {f : Flags} (hf : Shows f s) (x : Word) (t : Temp) :
    Shows f (s.set x (.temp t)) :=
  ⟨hf.n, hf.z, hf.c, hf.v⟩

end Access

section Sums

variable {junk : Word → Word → Word} {s : TcgState} {dest t0 t1 : Temp} {x y : Word} {c : Bool}

def Sum.flags (r : Sum 32) : Flags := ⟨r.result.msb, r.result = 0#32, r.carry, r.overflow⟩

theorem leaves_sum_flags (h0 : s.get (.temp t0) = x) (h1 : s.get (.temp t1) = y)
    (hn : s.get .nf = (addWithCarry x y c).result)
    (hc : s.get .cf = bitWord 32 (addWithCarry x y c).carry) :
    Leaves (.temp dest) (addWithCarry x y c).result (Sum.flags (addWithCarry x y c)) s
      (run junk (genSumFlags (.temp dest) (.temp t0) (.temp t1)) s) := by
  refine ⟨?_, ⟨?_, ?_, ?_, ?_⟩, clear_run rfl⟩
  · simp -implicitDefEqProofs [genSumFlags, Insn.exec, get_set, hn]
  · simp -implicitDefEqProofs [genSumFlags, Insn.exec, get_set, hn, Sum.flags]
  · simp -implicitDefEqProofs [genSumFlags, Insn.exec, get_set, hn, Sum.flags]
  · simp -implicitDefEqProofs [genSumFlags, Insn.exec, get_set, hc, Sum.flags]
  · rw [Sum.flags, add_overflow x y c (by decide)]
    simp -implicitDefEqProofs [genSumFlags, Insn.exec, get_set, BinOp.eval, hn, h0, h1]

theorem Leaves.after {s₁ s' : TcgState} {v : Var} {f : Flags} (h : Leaves v x f s₁ s')
    (hclear : clear s₁.env = clear s.env) : Leaves v x f s s' :=
  ⟨h.value, h.flags, h.rest.trans hclear⟩

theorem toNat_wide (x : Word) : (0#32 ++ x).toNat = x.toNat := by
  rw [BitVec.toNat_append]
  simp

theorem wide_join (t : BitVec 64) : (t >>> 32).setWidth 32 ++ t.setWidth 32 = t := by
  apply BitVec.eq_of_getLsbD_eq
  intro i hi
  rw [BitVec.getLsbD_append]
  by_cases h : i < 32
  · simp [h]
  · simp [h, show i - 32 < 32 by omega, show 32 + (i - 32) = i by omega]

theorem leaves_add_cc :
    Leaves (.temp dest) (addWithCarry (s.get (.temp t0)) (s.get (.temp t1)) false).result
      (Sum.flags (addWithCarry (s.get (.temp t0)) (s.get (.temp t1)) false)) s
      (run junk (genAddCC (.temp dest) (.temp t0) (.temp t1)) s) := by
  have hx := (s.get (.temp t0)).isLt
  have hy := (s.get (.temp t1)).isLt
  have hsum : ((0#32 ++ s.get (.temp t0)) + (0#32 ++ s.get (.temp t1))).toNat =
      (s.get (.temp t0)).toNat + (s.get (.temp t1)).toNat + false.toNat := by
    rw [BitVec.toNat_add, toNat_wide, toNat_wide, Bool.toNat_false]
    omega
  rw [genAddCC, run_append]
  refine (leaves_sum_flags ?_ ?_ ?_ ?_).after (clear_run rfl)
  · simp [Insn.exec, get_set]
  · simp [Insn.exec, get_set]
  · simpa [Insn.exec, get_set] using split_result _ _ _ hsum
  · simpa [Insn.exec, get_set] using split_carry _ _ _ hsum

theorem leaves_adc_cc (hasAdd2 : Bool) (hc : s.get .cf = bitWord 32 c) :
    Leaves (.temp dest) (addWithCarry (s.get (.temp t0)) (s.get (.temp t1)) c).result
      (Sum.flags (addWithCarry (s.get (.temp t0)) (s.get (.temp t1)) c)) s
      (run junk (genAdcCC hasAdd2 (.temp dest) (.temp t0) (.temp t1)) s) := by
  have hx := (s.get (.temp t0)).isLt
  have hy := (s.get (.temp t1)).isLt
  have hle : c.toNat ≤ 1 := Bool.toNat_le c
  have hbit : (bitWord 32 c).toNat = c.toNat := by
    rw [bitWord, BitVec.toNat_ofNat]
    omega
  rw [genAdcCC, run_append]
  cases hasAdd2 with
  | true =>
    have hsum : ((0#32 ++ s.get (.temp t0)) + (0#32 ++ bitWord 32 c) +
        (0#32 ++ s.get (.temp t1))).toNat =
        (s.get (.temp t0)).toNat + (s.get (.temp t1)).toNat + c.toNat := by
      rw [BitVec.toNat_add, BitVec.toNat_add, toNat_wide, toNat_wide, toNat_wide, hbit]
      omega
    refine (leaves_sum_flags ?_ ?_ ?_ ?_).after (clear_run rfl)
    · simp -implicitDefEqProofs [Insn.exec, get_set]
    · simp -implicitDefEqProofs [Insn.exec, get_set]
    · simpa -implicitDefEqProofs [Insn.exec, get_set, wide_join, hc] using split_result _ _ _ hsum
    · simpa -implicitDefEqProofs [Insn.exec, get_set, wide_join, hc] using split_carry _ _ _ hsum
  | false =>
    have hsum : ((s.get (.temp t0)).setWidth 64 + (s.get (.temp t1)).setWidth 64 +
        (bitWord 32 c).setWidth 64).toNat =
        (s.get (.temp t0)).toNat + (s.get (.temp t1)).toNat + c.toNat := by
      rw [BitVec.toNat_add, BitVec.toNat_add, BitVec.toNat_setWidth, BitVec.toNat_setWidth,
        BitVec.toNat_setWidth, hbit]
      omega
    refine (leaves_sum_flags ?_ ?_ ?_ ?_).after (clear_run rfl)
    · simp -implicitDefEqProofs [Insn.exec, get_set]
    · simp -implicitDefEqProofs [Insn.exec, get_set]
    · simpa -implicitDefEqProofs [Insn.exec, get_set, hc] using split_result _ _ _ hsum
    · simpa -implicitDefEqProofs [Insn.exec, get_set, hc] using split_carry _ _ _ hsum

theorem leaves_sub_cc :
    Leaves (.temp dest) (addWithCarry (s.get (.temp t0)) (~~~s.get (.temp t1)) true).result
      (Sum.flags (addWithCarry (s.get (.temp t0)) (~~~s.get (.temp t1)) true)) s
      (run junk (genSubCC (.temp dest) (.temp t0) (.temp t1)) s) := by
  rw [Sum.flags, sub_result, sub_carry, sub_overflow _ _ (by decide)]
  refine ⟨?_, ⟨?_, ?_, ?_, ?_⟩, clear_run rfl⟩
  · simp -implicitDefEqProofs [genSubCC, Insn.exec, get_set, BinOp.eval]
  · simp -implicitDefEqProofs [genSubCC, Insn.exec, get_set, BinOp.eval]
  · simp -implicitDefEqProofs [genSubCC, Insn.exec, get_set, BinOp.eval]
  · simp -implicitDefEqProofs [genSubCC, Insn.exec, get_set, Cond.eval]
    split_ifs with h <;> simp -implicitDefEqProofs [h, bitWord]
  · simp -implicitDefEqProofs [genSubCC, Insn.exec, get_set, BinOp.eval]

theorem leaves_sbc_cc (hasAdd2 : Bool) (ht : t0 ≠ .tmp3) (hc : s.get .cf = bitWord 32 c) :
    Leaves (.temp dest) (addWithCarry (s.get (.temp t0)) (~~~s.get (.temp t1)) c).result
      (Sum.flags (addWithCarry (s.get (.temp t0)) (~~~s.get (.temp t1)) c)) s
      (run junk (genSbcCC hasAdd2 (.temp dest) (.temp t0) (.temp t1)) s) := by
  have h := @leaves_adc_cc junk (s.set (~~~s.get (.temp t1)) (.temp .tmp3)) dest t0 .tmp3 c hasAdd2
    (by simpa [get_set] using hc)
  simp only [get_set, Var.temp.injEq, ht, if_false, if_true] at h
  exact h.after (clear_set rfl)

theorem leaves_logic_cc {f : Flags} (hf : Shows f s) :
    Leaves (.temp dest) (s.get (.temp dest))
      ⟨(s.get (.temp dest)).msb, s.get (.temp dest) = 0#32, f.c, f.v⟩ s
      (run junk (genLogicCC (.temp dest)) s) := by
  refine ⟨?_, ⟨?_, ?_, ?_, ?_⟩, clear_run rfl⟩
  · simp [genLogicCC, Insn.exec, get_set]
  · simp [genLogicCC, Insn.exec, get_set]
  · simp [genLogicCC, Insn.exec, get_set]
  · simpa [genLogicCC, Insn.exec, get_set] using hf.c
  · simpa [genLogicCC, Insn.exec, get_set] using hf.v

end Sums

/-- The shift of an operand by a number that the instruction gives. -/
def immShift (x : Word) (c : Bool) (shift : ℕ) : Shift → Word × Bool
  | .lsl => shiftC x shift c .lsl
  | .lsr => shiftC x (if shift = 0 then 32 else shift) c .lsr
  | .asr => shiftC x (if shift = 0 then 32 else shift) c .asr
  | .ror => if shift = 0 then rrxC x c else shiftC x shift c .ror

/-- The shift of an operand by the last byte of another one. -/
def regShift (x i : Word) (c : Bool) (type : Shift) : Word × Bool :=
  shiftC x (i &&& 0xff#32).toNat c type

def carryOut (flags b : Bool) (s : TcgState) : TcgState :=
  if flags then s.set (bitWord 32 b) .cf else s

section Shifts

variable {junk : Word → Word → Word} {s : TcgState} {t : Temp} {x : Word} {f : Flags} {k : ℕ}
  {flags : Bool}

theorem set_set {y : Word} {v : Var} : (s.set x v).set y v = s.set y v := by
  cases v <;> simp [TcgState.set]

@[simp]
theorem eval_and (x y : Word) : BinOp.and.eval junk x y = x &&& y := rfl

theorem eval_shift_im (hk : k < 32) :
    BinOp.shl.eval junk x (BitVec.ofNat 32 k) = x <<< k ∧
    BinOp.shr.eval junk x (BitVec.ofNat 32 k) = x >>> k ∧
    BinOp.sar.eval junk x (BitVec.ofNat 32 k) = x.sshiftRight k ∧
    BinOp.rotr.eval junk x (BitVec.ofNat 32 k) = x.rotateRight k := by
  have hnat : (BitVec.ofNat 32 k).toNat = k := by
    rw [BitVec.toNat_ofNat]
    omega
  simp only [BinOp.eval, hnat, if_pos hk, true_and]

theorem shift_top (x : Word) : x >>> 31 = bitWord 32 (x.getLsbD 31) := by
  have hlt := x.isLt
  rw [← bit_word_eq]
  apply BitVec.eq_of_toNat_eq
  rw [BitVec.toNat_and, BitVec.toNat_ushiftRight, Nat.shiftRight_eq_div_pow]
  exact ((Nat.and_one_is_mod _).trans (Nat.mod_eq_of_lt (by omega))).symm

theorem run_shifter_out (hk : k < 32) :
    run junk (shifterOutIm (.temp t) k) s =
      s.set (bitWord 32 ((s.get (.temp t)).getLsbD k)) .cf := by
  unfold shifterOutIm
  split_ifs with h0 h31
  · rw [h0, ← bit_word_eq]
    simp [Insn.exec]
  · rw [← bit_word_eq]
    simp [Insn.exec, eval_shift_im hk, get_set, set_set]
  · rw [not_not.mp h31, ← shift_top]
    rfl

theorem get_carry_out (b : Bool) : (carryOut flags b s).get (.temp t) = s.get (.temp t) := by
  cases flags <;> simp [carryOut, get_set]

theorem clear_carry_out (b : Bool) : clear (carryOut flags b s).env = clear s.env := by
  cases flags <;> rfl

theorem Shows.carryOut (hf : Shows f s) (b : Bool) :
    Shows { f with c := if flags then b else f.c } (carryOut flags b s) := by
  cases flags with
  | true => exact ⟨hf.n, hf.z, by simp [Tcg.carryOut, get_set], hf.v⟩
  | false => exact hf

theorem leaves_carry_out (hf : Shows f s) (b : Bool) :
    Leaves (.temp t) x { f with c := if flags then b else f.c } s
      ((carryOut flags b s).set x (.temp t)) :=
  ⟨by simp [get_set], (hf.carryOut b).set_temp x t, clear_carry_out b⟩

theorem leaves_same (hf : Shows f s) : Leaves (.temp t) (s.get (.temp t)) f s s := ⟨rfl, hf, rfl⟩

theorem run_carry_out (hk : k < 32) (code : List Insn) :
    run junk ((if flags then shifterOutIm (.temp t) k else []) ++ code) s =
      run junk code (carryOut flags ((s.get (.temp t)).getLsbD k) s) := by
  rw [run_append]
  cases flags
  · rfl
  · simp only [if_true, run_shifter_out hk, carryOut]

theorem leaves_set_shift {op : BinOp} {y : Word} (hf : Shows f s) (b : Bool)
    (hx : op.eval junk ((carryOut flags b s).get (.temp t)) y = x) :
    Leaves (.temp t) x { f with c := if flags then b else f.c } s
      (run junk [.bini op (.temp t) (.temp t) y] (carryOut flags b s)) := by
  rw [run_cons, run_nil, Insn.exec, hx]
  exact leaves_carry_out hf b

theorem leaves_rrx (hf : Shows f s) :
    Leaves (.temp t) (rrxC (s.get (.temp t)) f.c).1
      { f with c := if flags then (rrxC (s.get (.temp t)) f.c).2 else f.c } s
      (run junk (.bini .shl (.scratch .a) .cf 31#32 ::
        (if flags then shifterOutIm (.temp t) 0 else []) ++
        [.bini .shr (.temp t) (.temp t) 1#32, .bin .or (.temp t) (.temp t) (.scratch .a)]) s) := by
  let s₁ := s.set (bitWord 32 f.c <<< 31) (.scratch .a)
  let s₂ := carryOut flags ((s.get (.temp t)).getLsbD 0) s₁
  have hs₁ : Shows f s₁ :=
    ⟨by simpa [s₁, get_set] using hf.n, by simpa [s₁, get_set] using hf.z,
      by simpa [s₁, get_set] using hf.c, by simpa [s₁, get_set] using hf.v⟩
  have hexec : (Insn.bini .shl (.scratch .a) .cf 31#32).exec junk s = s₁ := by
    rw [Insn.exec, hf.c]
    rfl
  have htemp : s₁.get (.temp t) = s.get (.temp t) := by simp [s₁, get_set]
  have hscratch : s₂.get (.scratch .a) = bitWord 32 f.c <<< 31 := by
    cases flags <;> simp [s₂, s₁, carryOut, get_set]
  have htemp' : s₂.get (.temp t) = s.get (.temp t) := (get_carry_out _).trans htemp
  have hend : run junk
      [.bini .shr (.temp t) (.temp t) 1#32, .bin .or (.temp t) (.temp t) (.scratch .a)] s₂ =
      s₂.set (rrxC (s.get (.temp t)) f.c).1 (.temp t) := by
    simp [Insn.exec, BinOp.eval, get_set, set_set, hscratch, htemp', rrxC]
  rw [List.cons_append, run_cons, hexec, run_carry_out (by decide), htemp, hend]
  exact (leaves_carry_out hs₁ _).after (clear_set rfl)

theorem leaves_shift_im (hf : Shows f s) (hk : k < 32) (type : Shift) :
    Leaves (.temp t) (immShift (s.get (.temp t)) f.c k type).1
      { f with c := if flags then (immShift (s.get (.temp t)) f.c k type).2 else f.c } s
      (run junk (genArmShiftIm (.temp t) type k flags) s) := by
  cases type with
  | lsl =>
    by_cases h : k = 0
    · simp only [genArmShiftIm, immShift, h, ne_eq, not_true_eq_false, if_false, shift_zero,
        ite_self]
      exact leaves_same hf
    · simp only [genArmShiftIm, immShift, ne_eq, h, not_false_eq_true, if_true,
        lsl_small _ _ h hk.le]
      rw [run_carry_out (by omega)]
      exact leaves_set_shift hf _ (by rw [get_carry_out, (eval_shift_im hk).1])
  | lsr =>
    by_cases h : k = 0
    · simp only [genArmShiftIm, immShift, h, if_true, lsr_nonzero _ _ (by decide : 32 ≠ 0)]
      have hout : run junk (if flags then [.bini .shr .cf (.temp t) 31#32] else []) s =
          carryOut flags ((s.get (.temp t)).getLsbD 31) s := by
        cases flags
        · rfl
        · exact run_shifter_out (k := 31) (by decide)
      rw [run_append, hout]
      have hzero : s.get (.temp t) >>> 32 = 0#32 := BitVec.ushiftRight_eq_zero le_rfl
      rw [hzero]
      exact leaves_carry_out hf _
    · simp only [genArmShiftIm, immShift, h, if_false, lsr_nonzero _ _ h]
      rw [run_carry_out (by omega)]
      exact leaves_set_shift hf _ (by rw [get_carry_out, (eval_shift_im hk).2.1])
  | asr =>
    by_cases h : k = 0
    · simp only [genArmShiftIm, immShift, h, if_true, asr_large _ _ (by decide : 0 < 32) le_rfl]
      rw [run_carry_out (by omega), BitVec.msb_eq_getLsbD_last]
      exact leaves_set_shift hf _ (by rw [get_carry_out, (eval_shift_im (by omega)).2.2.1])
    · simp only [genArmShiftIm, immShift, h, if_false, asr_small _ _ h hk.le, hk.ne]
      rw [run_carry_out (by omega)]
      exact leaves_set_shift hf _ (by rw [get_carry_out, (eval_shift_im hk).2.2.1])
  | ror =>
    by_cases h : k = 0
    · simp only [genArmShiftIm, immShift, h, ne_eq, not_true_eq_false, if_true, if_false]
      exact leaves_rrx hf
    · simp only [genArmShiftIm, immShift, h, ne_eq, not_false_eq_true, if_true, if_false,
        ror_small _ _ h hk]
      rw [run_carry_out (by omega)]
      exact leaves_set_shift hf _ (by rw [get_carry_out, (eval_shift_im hk).2.2.2])

theorem toNat_low_five (i : Word) :
    (i &&& 0xff#32 &&& 0x1f#32).toNat = (i &&& 0xff#32).toNat % 32 := by
  rw [BitVec.toNat_and]
  exact Nat.and_two_pow_sub_one_eq_mod _ 5

theorem shift_helper_eq (x i : Word) (c : Bool) (type : Shift) :
    shiftHelper (bitWord 32 c) x i type =
      ((regShift x i c type).1, bitWord 32 (regShift x i c type).2) := by
  cases type with
  | lsl =>
    simp only [shiftHelper, shlCc, regShift]
    generalize (i &&& 0xff#32).toNat = k
    split_ifs with h h32 h0
    · have hbit : x &&& 1#32 = bitWord 32 (x.getLsbD 0) := by
        rw [← bit_word_eq, BitVec.ushiftRight_zero]
      rw [h32, lsl_small x c (by decide) le_rfl, hbit, BitVec.shiftLeft_eq_zero le_rfl]
    · rw [lsl_large x c (by omega)]
      rfl
    · rw [lsl_small x c h0 (by omega), bit_word_eq]
    · rw [not_not.mp h0, shift_zero]
  | lsr =>
    simp only [shiftHelper, shrCc, regShift]
    generalize (i &&& 0xff#32).toNat = k
    split_ifs with h h32 h0
    · rw [h32, lsr_nonzero x c (by decide), bit_word_eq, BitVec.ushiftRight_eq_zero le_rfl]
    · rw [lsr_large x c (by omega)]
      rfl
    · rw [lsr_nonzero x c h0, bit_word_eq]
    · rw [not_not.mp h0, shift_zero]
  | asr =>
    simp only [shiftHelper, sarCc, regShift]
    generalize (i &&& 0xff#32).toNat = k
    split_ifs with h h0
    · rw [asr_large x c (by decide) h, bit_word_eq, BitVec.msb_eq_getLsbD_last]
    · rw [asr_small x c h0 (by omega), bit_word_eq]
    · rw [not_not.mp h0, shift_zero]
  | ror =>
    simp only [shiftHelper, rorCc, regShift, toNat_low_five]
    have hzero : i &&& 0xff#32 = 0#32 ↔ (i &&& 0xff#32).toNat = 0 :=
      ⟨fun h ↦ by rw [h]; rfl, fun h ↦ BitVec.eq_of_toNat_eq h⟩
    simp only [ne_eq, hzero]
    generalize (i &&& 0xff#32).toNat = k
    split_ifs with h h0
    · rw [h0, shift_zero]
    · rw [ror_mod x c h0, if_pos h, bit_word_eq, BitVec.msb_eq_getLsbD_last]
    · have hk : k ≠ 0 := by
        rintro rfl
        exact h rfl
      rw [ror_mod x c hk, if_neg h, ror_small x c h (Nat.mod_lt _ (by decide)), bit_word_eq,
        BitVec.rotateRight_eq_rotateRightAux_of_lt (Nat.mod_lt _ (by decide))]
      rfl

theorem leaves_value {code : List Insn} (hf : Shows f s)
    (hcode : code.all (Insn.within Var.isTemp) = true)
    (hclear : code.all (Insn.within (!·.isReg)) = true)
    (hx : (run junk code s).get (.temp t) = x) : Leaves (.temp t) x f s (run junk code s) :=
  ⟨hx, hf.run_temps hcode, clear_run hclear⟩

theorem get_gen_shift {ts : Temp} (op : BinOp) :
    (run junk (genShift op (.temp t) (.temp t) (.temp ts)) s).get (.temp t) =
      op.eval junk (if 31 < (s.get (.temp ts) &&& 0xff#32).toNat then 0#32 else s.get (.temp t))
        (s.get (.temp ts) &&& 0xff#32 &&& 0x1f#32) := by
  simp -implicitDefEqProofs [genShift, Insn.exec, get_set, Cond.eval]

theorem get_gen_sar {ts : Temp} :
    (run junk (genSar (.temp t) (.temp t) (.temp ts)) s).get (.temp t) =
      BinOp.sar.eval junk (s.get (.temp t))
        (if 31 < (s.get (.temp ts) &&& 0xff#32).toNat then 0x1f#32
          else s.get (.temp ts) &&& 0xff#32) := by
  simp -implicitDefEqProofs [genSar, Insn.exec, get_set, Cond.eval]

theorem reg_shift_value {ts : Temp} (c : Bool) (ht : t ≠ ts) (type : Shift) :
    (run junk (genArmShiftReg (.temp t) type (.temp ts) false) s).get (.temp t) =
      (regShift (s.get (.temp t)) (s.get (.temp ts)) c type).1 := by
  have hmod : ((s.get (.temp ts)) &&& 0xff#32).toNat % 32 < 32 := Nat.mod_lt _ (by decide)
  cases type with
  | lsl =>
    refine (get_gen_shift .shl).trans ?_
    rw [BinOp.eval, toNat_low_five, if_pos hmod, regShift]
    generalize ((s.get (.temp ts)) &&& 0xff#32).toNat = k
    split_ifs with h
    · rw [shiftC, if_neg (by omega), BitVec.zero_shiftLeft, BitVec.shiftLeft_eq_zero (by omega)]
    · rw [Nat.mod_eq_of_lt (by omega), shiftC]
      split_ifs with h0
      · rw [h0, BitVec.shiftLeft_zero]
      · rfl
  | lsr =>
    refine (get_gen_shift .shr).trans ?_
    rw [BinOp.eval, toNat_low_five, if_pos hmod, regShift]
    generalize ((s.get (.temp ts)) &&& 0xff#32).toNat = k
    split_ifs with h
    · rw [shiftC, if_neg (by omega), BitVec.zero_ushiftRight, BitVec.ushiftRight_eq_zero (by omega)]
    · rw [Nat.mod_eq_of_lt (by omega), shiftC]
      split_ifs with h0
      · rw [h0, BitVec.ushiftRight_zero]
      · rfl
  | asr =>
    refine get_gen_sar.trans ?_
    rw [regShift]
    split_ifs with h
    · rw [asr_large _ _ (by decide) (by omega)]
      rfl
    · rw [BinOp.eval, if_pos (by omega)]
      generalize ((s.get (.temp ts)) &&& 0xff#32).toNat = k
      rw [shiftC]
      split_ifs with h0
      · rw [h0, BitVec.sshiftRight_zero]
      · rfl
  | ror =>
    have hrun : (run junk (genArmShiftReg (.temp t) .ror (.temp ts) false) s).get (.temp t) =
        BinOp.rotr.eval junk (s.get (.temp t)) (s.get (.temp ts) &&& 0x1f#32) := by
      simp [genArmShiftReg, Insn.exec, get_set, ht]
    have hlow : (s.get (.temp ts) &&& 0x1f#32).toNat =
        ((s.get (.temp ts)) &&& 0xff#32).toNat % 32 := by
      rw [← toNat_low_five, BitVec.and_assoc]
      rfl
    rw [hrun, BinOp.eval, hlow, if_pos hmod, regShift]
    generalize ((s.get (.temp ts)) &&& 0xff#32).toNat = k
    rw [shiftC]
    split_ifs with h0
    · rw [h0, Nat.zero_mod, rotate_zero]
    · exact BitVec.rotateRight_mod_eq_rotateRight

theorem leaves_shift_reg {ts : Temp} (hf : Shows f s) (ht : t ≠ ts) (type : Shift) :
    Leaves (.temp t) (regShift (s.get (.temp t)) (s.get (.temp ts)) f.c type).1
      { f with
        c := if flags then (regShift (s.get (.temp t)) (s.get (.temp ts)) f.c type).2 else f.c } s
      (run junk (genArmShiftReg (.temp t) type (.temp ts) flags) s) := by
  cases flags with
  | true =>
    have h := @leaves_carry_out s t (regShift (s.get (.temp t)) (s.get (.temp ts)) f.c type).1 f
      true hf (regShift (s.get (.temp t)) (s.get (.temp ts)) f.c type).2
    simp only [genArmShiftReg, if_true, run_cons, run_nil, Insn.exec, hf.c, shift_helper_eq]
    exact h
  | false =>
    have hvalue := @reg_shift_value junk s t ts f.c ht type
    cases type <;> exact leaves_value hf rfl rfl hvalue

end Shifts

end VarEmu.Translator.Tcg
