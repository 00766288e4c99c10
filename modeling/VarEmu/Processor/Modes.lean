import VarEmu.Processor.ExceptionFrame
import VarEmu.Processor.Mmu

namespace VarEmu.Processor.Modes

open Translator.Errors Library.Bits ExceptionFrame Mmu

inductive Mode
  | usr
  | fiq
  | irq
  | svc
  | smc
  | abt
  | und
  | sys
  deriving DecidableEq, Repr

def Mode.bits : Mode → UInt32
  | .usr => 0x10
  | .fiq => 0x11
  | .irq => 0x12
  | .svc => 0x13
  | .smc => 0x16
  | .abt => 0x17
  | .und => 0x1b
  | .sys => 0x1f

def Mode.ofBits (w : UInt32) : Option Mode :=
  [.usr, .fiq, .irq, .svc, .smc, .abt, .und, .sys].find? (·.bits = w)

def Mode.bank : Mode → Fin 7
  | .usr | .sys => 0
  | .svc => 1
  | .abt => 2
  | .und => 3
  | .irq => 4
  | .fiq => 5
  | .smc => 6

/-- The saved bank of a mode number; a number of no mode stops the emulator. -/
def bankNumber (mode : UInt32) : Option (Fin 7) := (Mode.ofBits mode).map Mode.bank

def badModeSwitch (mode : UInt32) : Bool :=
  match Mode.ofBits mode with
  | none => true
  | some m => m = .smc

structure Core where
  v4t : Bool
  v5 : Bool
  v6 : Bool
  thumb2 : Bool
  trustzone : Bool
  semihosting : Bool

/-- The registers of the system control coprocessor that exceptions read or write. -/
structure Control where
  cp15 : Cp15
  c1Scr : UInt32
  c12Vbar : UInt32
  c12Mvbar : UInt32

/-- The state of a processor with modes. The registers of the current mode are in `regs` and
`spsr`, those of the others wait in their banks. -/
structure ArmState extends CpuArmState where
  QF : UInt32
  GE : UInt32
  spsr : UInt32
  bankedSpsr : Fin 7 → UInt32
  bankedR13 : Fin 7 → UInt32
  bankedR14 : Fin 7 → UInt32
  usrRegs : Fin 5 → UInt32
  fiqRegs : Fin 5 → UInt32
  control : Control

abbrev cpsrT : UInt32 := 0x20

abbrev cpsrF : UInt32 := 0x40

abbrev cpsrI : UInt32 := 0x80

abbrev cpsrA : UInt32 := 0x100

abbrev cpsrE : UInt32 := 0x200

abbrev cpsrGE : UInt32 := 0xF0000

abbrev cpsrReserved : UInt32 := 0xF00000

abbrev cpsrIT : UInt32 := 0x0600FC00

/-- The bits that the state keeps in fields of their own. -/
abbrev cachedCpsrBits : UInt32 := 0xFE0FFC20

abbrev cpsrUser : UInt32 := 0xF80F0000

abbrev cpsrExec : UInt32 := 0x0700FC20

def cpsrRead (env : ArmState) : UInt32 :=
  let ZF : UInt32 := if env.ZF = 0 then 1 else 0
  let NF : UInt32 := env.NF.toUInt32 &&& 0x80000000
  let VF : UInt32 := env.VF.toUInt32 &&& 0x80000000
  let it01 : UInt32 := env.condexecBits &&& 3
  let it27 : UInt32 := env.condexecBits &&& 0xFC
  env.uncachedCpsr ||| NF ||| (ZF <<< 30) ||| (env.CF <<< 29) ||| (VF >>> 3) ||| (env.QF <<< 27)
    ||| (env.thumb.toUInt32 <<< 5) ||| (it01 <<< 25) ||| (it27 <<< 8) ||| (env.GE <<< 16)

def cpsrWriteFlags (env : ArmState) (val mask : UInt32) : ArmState :=
  let env := if mask &&& cpsrNZCV ≠ 0 then
      { env with
        ZF := ~~~val &&& cpsrZ
        NF := val.toInt32
        CF := (val >>> 29) &&& 1
        VF := ((val <<< 3) &&& 0x80000000).toInt32 }
    else env
  let env := if mask &&& cpsrQ ≠ 0 then
      { env with QF := if val &&& cpsrQ ≠ 0 then 1 else 0 }
    else env
  let env := if mask &&& cpsrT ≠ 0 then
      { env with thumb := val &&& cpsrT != 0 }
    else env
  let env := if mask &&& cpsrIT01 ≠ 0 then
      let it01 : UInt32 := (val >>> 25) &&& 3
      { env with condexecBits := (env.condexecBits &&& ~~~3) ||| it01 }
    else env
  let env := if mask &&& cpsrIT27 ≠ 0 then
      let it27 : UInt32 := (val >>> 8) &&& 0xFC
      { env with condexecBits := (env.condexecBits &&& 3) ||| it27 }
    else env
  if mask &&& cpsrGE ≠ 0 then { env with GE := (val >>> 16) &&& 0xF } else env

def highRegs (regs : Fin 16 → UInt32) (i : Fin 5) : UInt32 := regs ⟨i.val + 8, by omega⟩

def withHighRegs (regs : Fin 16 → UInt32) (high : Fin 5 → UInt32) (i : Fin 16) : UInt32 :=
  if h : 8 ≤ i.val ∧ i.val < 13 then high ⟨i.val - 8, by omega⟩ else regs i

def swapHighRegs (env : ArmState) (old mode : Mode) : ArmState :=
  if old = .fiq then
    { env with fiqRegs := highRegs env.regs, regs := withHighRegs env.regs env.usrRegs }
  else if mode = .fiq then
    { env with usrRegs := highRegs env.regs, regs := withHighRegs env.regs env.fiqRegs }
  else env

def saveBank (env : ArmState) (i : Fin 7) : ArmState :=
  { env with
    bankedR13 := Function.update env.bankedR13 i (env.regs 13)
    bankedR14 := Function.update env.bankedR14 i (env.regs 14)
    bankedSpsr := Function.update env.bankedSpsr i env.spsr }

def loadBank (env : ArmState) (i : Fin 7) : ArmState :=
  { env with
    regs := Function.update (Function.update env.regs 13 (env.bankedR13 i)) 14 (env.bankedR14 i)
    spsr := env.bankedSpsr i }

def ArmState.mode (env : ArmState) : Option Mode := Mode.ofBits (env.uncachedCpsr &&& cpsrM)

def switchMode (env : ArmState) (mode : Mode) : Option ArmState :=
  env.mode.map fun old ↦
    if mode = old then env
    else loadBank (saveBank (swapHighRegs env old mode) old.bank) mode.bank

def writeUncached (env : ArmState) (val mask : UInt32) : ArmState :=
  let mask := mask &&& ~~~cachedCpsrBits
  { env with uncachedCpsr := (env.uncachedCpsr &&& ~~~mask) ||| (val &&& mask) }

def cpsrWrite (env : ArmState) (val mask : UInt32) : Option ArmState :=
  let env := cpsrWriteFlags env val mask
  if (env.uncachedCpsr ^^^ val) &&& mask &&& cpsrM ≠ 0 then
    if badModeSwitch (val &&& cpsrM) then some (writeUncached env val (mask &&& ~~~cpsrM))
    else (Mode.ofBits (val &&& cpsrM)).bind fun mode ↦
      (switchMode env mode).map (writeUncached · val mask)
  else some (writeUncached env val mask)

structure ExceptionVector where
  newMode : Mode
  addr : UInt32
  mask : UInt32
  offset : UInt32

inductive Course
  | stop
  | serve
  | enter (v : ExceptionVector)

def abortVector (addr offset : UInt32) : ExceptionVector := ⟨.abt, addr, cpsrA ||| cpsrI, offset⟩

/-- Which way an exception goes. The code that the processor fetches to find a semihosting call
is `imm`. -/
def course (core : Core) (thumb user : Bool) (imm : UInt32) : ExceptionIndex → Course
  | .udef => .enter ⟨.und, 0x04, cpsrI, if thumb then 2 else 4⟩
  | .swi =>
    let mask := imm &&& if thumb then 0xff else 0xffffff
    if core.semihosting ∧ (mask = 0x123456 ∧ !thumb ∨ mask = 0xab ∧ thumb) ∧ !user then .serve
    else .enter ⟨.svc, 0x08, cpsrI, 0⟩
  | .bkpt =>
    if thumb ∧ core.semihosting ∧ imm &&& 0xff = 0xab ∧ !user then .serve
    else .enter (abortVector 0x0c 4)
  | .prefetchAbort => .enter (abortVector 0x0c 4)
  | .dataAbort => .enter (abortVector 0x10 8)
  | .irq => .enter ⟨.irq, 0x18, cpsrA ||| cpsrI, 4⟩
  | .fiq => .enter ⟨.fiq, 0x1c, cpsrA ||| cpsrI ||| cpsrF, 4⟩
  | .smc =>
    if core.semihosting then .stop
    else .enter ⟨.smc, 0x08, cpsrA ||| cpsrI ||| cpsrF, if thumb then 2 else 0⟩
  | .exceptionExit | .kernelTrap | .strex => .stop

def Control.note (c : Control) (monitor : Bool) : ExceptionIndex → Control
  | .bkpt => { c with cp15 := { c.cp15 with c5Insn := 2 } }
  | .smc => if monitor then { c with c1Scr := c.c1Scr &&& ~~~1 } else c
  | _ => c

def Control.vectorBase (c : Control) (core : Core) (monitor : Bool) : UInt32 :=
  let high := c.cp15.c1Sys &&& (1#32 <<< 13) != 0#32
  if core.trustzone then
    if monitor then c.c12Mvbar
    else if high then 0xffff0000
    else c.c12Vbar
  else if high then 0xffff0000
  else 0

/-- The IT bits are cleared, and the new mode and instruction set are selected. -/
def statusEntered (env : ArmState) (v : ExceptionVector) (thumb : Bool) : ArmState :=
  { env with
    condexecBits := 0
    uncachedCpsr := (env.uncachedCpsr &&& ~~~cpsrM) ||| v.newMode.bits ||| v.mask
    thumb := thumb }

def linkAndJump (env : ArmState) (lr pc : UInt32) : ArmState :=
  { env with regs := Function.update (Function.update env.regs 14 lr) 15 pc }

def Control.entersThumb (c : Control) (core : Core) (thumb : Bool) : Bool :=
  if core.v4t then c.cp15.c1Sys &&& (1#32 <<< 30) != 0#32 else thumb

def enterException (core : Core) (env : ArmState) (v : ExceptionVector) : Option ArmState :=
  let addr := v.addr + env.control.vectorBase core (v.newMode = .smc ∨ env.mode = some .smc)
  (switchMode env v.newMode).map fun env ↦
    let env := { env with spsr := cpsrRead env }
    let env := statusEntered env v (env.control.entersThumb core env.thumb)
    linkAndJump env (env.regs 15 + v.offset) addr

def ArmState.isUser (env : ArmState) : Bool := env.uncachedCpsr &&& cpsrM = armCpuModeUsr

/-- The host serves a semihosting call with `reply`. -/
def serve (env : ArmState) (reply : UInt32) (x : ExceptionIndex) : ArmState :=
  let regs := if x = .bkpt then Function.update env.regs 15 (env.regs 15 + 2) else env.regs
  { env with regs := Function.update regs 0 reply }

def armCpuDoInterrupt (core : Core) (imm reply : UInt32) (env : ArmState) (x : ExceptionIndex) :
    Option ArmState :=
  match course core env.thumb env.isUser imm x with
  | .stop => none
  | .serve => some (serve env reply x)
  | .enter v =>
    enterException core { env with control := env.control.note (env.mode = some .smc) x } v

inductive Reg
  | low (i : Fin 8)
  | high (i : Fin 5)
  | sp
  | lr
  | pc
  deriving DecidableEq, Repr

def Reg.index : Reg → Fin 16
  | .low i => ⟨i.val, by omega⟩
  | .high i => ⟨i.val + 8, by omega⟩
  | .sp => 13
  | .lr => 14
  | .pc => 15

def storeReg (env : ArmState) (r : Reg) (val : UInt32) : ArmState :=
  let val := if r = .pc then val &&& ~~~1 else val
  { env with regs := Function.update env.regs r.index val }

/-- The register as user mode has it, from another mode. No instruction asks for the program
counter this way. -/
def getUserReg (env : ArmState) : Reg → Option UInt32
  | .sp => some (env.bankedR13 0)
  | .lr => some (env.bankedR14 0)
  | .high i => some (if env.mode = some .fiq then env.usrRegs i else env.regs (Reg.high i).index)
  | .low i => some (env.regs (Reg.low i).index)
  | .pc => none

def setUserReg (env : ArmState) (val : UInt32) : Reg → Option ArmState
  | .sp => some { env with bankedR13 := Function.update env.bankedR13 0 val }
  | .lr => some { env with bankedR14 := Function.update env.bankedR14 0 val }
  | .high i =>
    if env.mode = some .fiq then some { env with usrRegs := Function.update env.usrRegs i val }
    else some { env with regs := Function.update env.regs (Reg.high i).index val }
  | .low i => some { env with regs := Function.update env.regs (Reg.low i).index val }
  | .pc => none

def setR13Banked (env : ArmState) (mode val : UInt32) : Option ArmState :=
  if env.uncachedCpsr &&& cpsrM = mode then
    some { env with regs := Function.update env.regs 13 val }
  else (bankNumber mode).map fun i ↦
    { env with bankedR13 := Function.update env.bankedR13 i val }

def getR13Banked (env : ArmState) (mode : UInt32) : Option UInt32 :=
  if env.uncachedCpsr &&& cpsrM = mode then some (env.regs 13)
  else (bankNumber mode).map env.bankedR13

def msrMask (core : Core) (flags : Fin 16) (spsr user : Bool) : UInt32 :=
  let byte (k : ℕ) (m : UInt32) : UInt32 := if flags.val.testBit k then m else 0
  let mask := byte 0 0xff ||| byte 1 0xff00 ||| byte 2 0xff0000 ||| byte 3 0xff000000
  let mask := mask &&& ~~~cpsrReserved
  let mask := if core.v4t then mask else mask &&& ~~~cpsrT
  let mask := if core.v5 then mask else mask &&& ~~~cpsrQ
  let mask := if core.v6 then mask else mask &&& ~~~(cpsrE ||| cpsrGE)
  let mask := if core.thumb2 then mask else mask &&& ~~~cpsrIT
  let mask := if spsr then mask else mask &&& ~~~cpsrExec
  if user then mask &&& cpsrUser else mask

structure SrsOffsets where
  before : UInt32
  after : UInt32

inductive AddressMode
  | da
  | ia
  | db
  | ib
  deriving DecidableEq, Repr

/-- How far a transfer of two words starts from the stack pointer, and how far from its second
word the pointer is left. -/
def AddressMode.offsets : AddressMode → SrsOffsets
  | .da => ⟨-4, -8⟩
  | .ia => ⟨0, 4⟩
  | .db => ⟨-8, -4⟩
  | .ib => ⟨4, 0⟩

/-- What the translated code does to the registers: ordinary reads and writes, the accesses to
the status registers, transfers of user registers, SRS, and the ways into and out of exceptions. -/
inductive Op
  | read (r : Reg)
  | write (r : Reg) (val : UInt32)
  | bx (addr : UInt32)
  | mrs (spsr : Bool)
  | msr (spsr : Bool) (flags : Fin 16) (val : UInt32)
  | cps (insn : UInt32)
  | readUser (r : Reg)
  | writeUser (r : Reg) (val : UInt32)
  | srs (mode : UInt32) (amode : AddressMode) (writeback : Bool)
  | exceptionReturn (pc : UInt32)
  | rfe (pc cpsr : UInt32)
  | interrupt (x : ExceptionIndex) (imm reply : UInt32)

inductive Reply
  | done
  | value (w : UInt32)
  | stored (addr lr spsr : UInt32)
  | undefined
  | stopped
  deriving DecidableEq, Repr

def orStopped (env : ArmState) : Option (Reply × ArmState) → Reply × ArmState
  | none => (.stopped, env)
  | some p => p

def done (env : ArmState) (next : Option ArmState) : Reply × ArmState :=
  orStopped env (next.map (Reply.done, ·))

def privileged (env : ArmState) (next : Reply × ArmState) : Reply × ArmState :=
  if env.isUser then (.undefined, env) else next

def genSrs (env : ArmState) (mode : UInt32) (amode : AddressMode) (writeback : Bool) :
    Option (Reply × ArmState) := do
  let addr := (← getR13Banked env mode) + amode.offsets.before
  let reply := Reply.stored addr (env.regs 14) env.spsr
  let env ←
    if writeback then setR13Banked env mode (addr + 4 + amode.offsets.after) else some env
  return (reply, env)

def genSetPsr (env : ArmState) (mask : UInt32) (spsr : Bool) (val : UInt32) :
    Reply × ArmState :=
  if spsr then
    privileged env (.done, { env with spsr := (env.spsr &&& ~~~mask) ||| (val &&& mask) })
  else done env (cpsrWrite env val mask)

def cpsMask (insn : UInt32) : UInt32 :=
  (if insn &&& 0x80000 ≠ 0 then insn &&& (cpsrA ||| cpsrI ||| cpsrF) else 0) |||
    if insn &&& 0x20000 ≠ 0 then cpsrM else 0

def cpsVal (insn : UInt32) : UInt32 :=
  (if insn &&& 0x80000 ≠ 0 ∧ insn &&& 0x40000 ≠ 0 then
      insn &&& (cpsrA ||| cpsrI ||| cpsrF) else 0) |||
    if insn &&& 0x20000 ≠ 0 then insn &&& 0x1f else 0

def genCps (env : ArmState) (insn : UInt32) : Reply × ArmState :=
  if env.isUser ∨ cpsMask insn = 0 then (.done, env)
  else genSetPsr env (cpsMask insn) false (cpsVal insn)

def genExceptionReturn (env : ArmState) (pc : UInt32) : Option ArmState :=
  cpsrWrite (storeReg env .pc pc) env.spsr 0xFFFFFFFF

def genRfe (env : ArmState) (pc cpsr : UInt32) : Option ArmState :=
  (cpsrWrite env cpsr 0xFFFFFFFF).map (storeReg · .pc pc)

def step (core : Core) (env : ArmState) : Op → Reply × ArmState
  | .read r => (.value (env.regs r.index), env)
  | .write r val => (.done, storeReg env r val)
  | .bx addr => (.done, storeReg { env with thumb := addr &&& 1 != 0 } .pc addr)
  | .mrs false => (.value (cpsrRead env &&& ~~~cpsrExec), env)
  | .mrs true => privileged env (.value env.spsr, env)
  | .msr spsr flags val => genSetPsr env (msrMask core flags spsr env.isUser) spsr val
  | .cps insn => genCps env insn
  | .readUser r =>
    privileged env (orStopped env ((getUserReg env r).map fun w ↦ (.value w, env)))
  | .writeUser r val => privileged env (done env (setUserReg env val r))
  | .srs mode amode writeback =>
    privileged env (orStopped env (genSrs env (mode &&& 0x1f) amode writeback))
  | .exceptionReturn pc => privileged env (done env (genExceptionReturn env pc))
  | .rfe pc cpsr => privileged env (done env (genRfe env pc cpsr))
  | .interrupt x imm reply => done env (armCpuDoInterrupt core imm reply env x)

end VarEmu.Processor.Modes
