import VarEmu.Library.WordStack
import VarEmu.Translator.Errors

namespace VarEmu.Processor.ExceptionFrame

open Translator.Errors Library.Bits Library.WordStack

/-- The state of an M-profile processor. One of its two stack pointers is in `regs`, the other
one waits in `otherSp`. -/
structure V7mState extends CpuArmState where
  QF : UInt32
  otherSp : UInt32
  vecbase : UInt32
  currentSp : Bool

structure System (M N : Type) where
  env : V7mState
  mem : M
  nvic : N

structure Board (M N : Type) extends Ram M where
  setPending : N → Int32 → N
  acknowledgeIrq : N → N × Int32
  completeIrq : N → Int32 → N
  semihostingEnabled : Bool
  lduwCode : M → UInt32 → Bool → UInt32
  doArmSemihosting : System M N → System M N × UInt32

inductive ExceptionIndex
  | udef
  | swi
  | prefetchAbort
  | dataAbort
  | irq
  | fiq
  | bkpt
  | exceptionExit
  | kernelTrap
  | strex
  | smc
  deriving DecidableEq

abbrev excpMem : Int32 := 4

abbrev excpUsage : Int32 := 6

abbrev excpSvc : Int32 := 11

abbrev excpDebug : Int32 := 12

abbrev cpsrNZCV : UInt32 := 0xF0000000

abbrev cpsrZ : UInt32 := 0x40000000

abbrev cpsrQ : UInt32 := 0x08000000

abbrev xpsrT : UInt32 := 0x01000000

abbrev cpsrIT01 : UInt32 := 0x06000000

abbrev cpsrIT27 : UInt32 := 0xFC00

/-- The bits of the register that have a place in the state. -/
abbrev xpsrBits : UInt32 := 0xFF00FDFF

def xpsrRead (env : V7mState) : UInt32 :=
  let ZF : UInt32 := if env.ZF = 0 then 1 else 0
  let NF : UInt32 := env.NF.toUInt32 &&& 0x80000000
  let VF : UInt32 := env.VF.toUInt32 &&& 0x80000000
  let it01 : UInt32 := env.condexecBits &&& 3
  let it27 : UInt32 := env.condexecBits &&& 0xFC
  NF ||| (ZF <<< 30) ||| (env.CF <<< 29) ||| (VF >>> 3) ||| (env.QF <<< 27)
    ||| (env.thumb.toUInt32 <<< 24) ||| (it01 <<< 25) ||| (it27 <<< 8)
    ||| env.v7mException.toUInt32

def xpsrWrite (env : V7mState) (val mask : UInt32) : V7mState :=
  let env := if mask &&& cpsrNZCV ≠ 0 then
      { env with
        ZF := ~~~val &&& cpsrZ
        NF := val.toInt32
        CF := (val >>> 29) &&& 1
        VF := ((val <<< 3) &&& 0x80000000).toInt32 }
    else env
  let env := if mask &&& cpsrQ ≠ 0 then
      { env with QF := if val &&& cpsrQ ≠ 0 then 1 else 0 }
    else env
  let env := if mask &&& xpsrT ≠ 0 then
      { env with thumb := val &&& xpsrT != 0 }
    else env
  let env := if mask &&& cpsrIT01 ≠ 0 then
      let it01 : UInt32 := (val >>> 25) &&& 3
      { env with condexecBits := (env.condexecBits &&& ~~~3) ||| it01 }
    else env
  let env := if mask &&& cpsrIT27 ≠ 0 then
      let it27 : UInt32 := (val >>> 8) &&& 0xFC
      { env with condexecBits := (env.condexecBits &&& 3) ||| it27 }
    else env
  if mask &&& 0x1FF ≠ 0 then { env with v7mException := (val &&& 0x1FF).toInt32 } else env

def switchV7mSp (env : V7mState) (process : Bool) : V7mState :=
  if env.currentSp ≠ process then
    { env with
      otherSp := env.regs 13
      regs := Function.update env.regs 13 env.otherSp
      currentSp := process }
  else env

variable {M N : Type} (b : Board M N)

def System.setReg (s : System M N) (i : Fin 16) (val : UInt32) : System M N :=
  { s with env := { s.env with regs := Function.update s.env.regs i val } }

def v7mPush (s : System M N) (val : UInt32) : System M N :=
  let s := s.setReg 13 (s.env.regs 13 - 4)
  { s with mem := b.stl s.mem (s.env.regs 13) val }

def v7mPop (s : System M N) : UInt32 × System M N :=
  (b.ldl s.mem (s.env.regs 13), s.setReg 13 (s.env.regs 13 + 4))

def popInto (s : System M N) (i : Fin 16) : System M N := (v7mPop b s).2.setReg i (v7mPop b s).1

def leaveHandler (s : System M N) : System M N :=
  let type := s.env.regs 15
  let s := if s.env.v7mException ≠ 0 then
      { s with nvic := b.completeIrq s.nvic s.env.v7mException }
    else s
  { s with env := switchV7mSp s.env (type &&& 4 != 0) }

def resume (s : System M N) : System M N :=
  let s := { s with env := { s.env with
    thumb := s.env.regs 15 &&& 1 != 0
    regs := Function.update s.env.regs 15 (s.env.regs 15 &&& ~~~1) } }
  let (xpsr, s) := v7mPop b s
  let s := { s with env := xpsrWrite s.env xpsr 0xFFFFFDFF }
  if xpsr &&& 0x200 ≠ 0 then s.setReg 13 (s.env.regs 13 ||| 4) else s

def doV7mExceptionExit (s : System M N) : System M N :=
  resume b ([0, 1, 2, 3, 12, 14, 15].foldl (popInto b) (leaveHandler b s))

def acknowledge (s : System M N) : System M N :=
  let (nvic, irq) := b.acknowledgeIrq s.nvic
  { s with nvic, env := { s.env with v7mException := irq } }

def alignStack (xpsr : UInt32) (s : System M N) : System M N × UInt32 :=
  if s.env.regs 13 &&& 4 ≠ 0 then (s.setReg 13 (s.env.regs 13 - 4), xpsr ||| 0x200) else (s, xpsr)

def frameWords (xpsr : UInt32) (env : V7mState) : List UInt32 :=
  [xpsr, env.regs 15 ||| env.thumb.toUInt32, env.regs 14, env.regs 12, env.regs 3, env.regs 2,
    env.regs 1, env.regs 0]

def takeVector (lr : UInt32) (s : System M N) : System M N :=
  let s := { s with env := { switchV7mSp s.env false with condexecBits := 0 } }
  let s := s.setReg 14 lr
  let addr := b.ldl s.mem (s.env.vecbase + s.env.v7mException.toUInt32 * 4)
  let s := s.setReg 15 (addr &&& 0xFFFFFFFE)
  { s with env := { s.env with thumb := addr &&& 1 != 0 } }

/-- The part of `arm_v7m_cpu_do_interrupt` after the acknowledgement. -/
def enter (xpsr lr : UInt32) (s : System M N) : System M N :=
  let (s, xpsr) := alignStack xpsr s
  takeVector b lr ((frameWords xpsr s.env).foldl (v7mPush b) s)

def returnValue (env : V7mState) : UInt32 :=
  let lr := 0xFFFFFFF1
  let lr := if env.currentSp then lr ||| 4 else lr
  if env.v7mException = 0 then lr ||| 8 else lr

-- An exception with no case of its own ends the emulator.
def armV7mCpuDoInterrupt (s : System M N) : ExceptionIndex → Option (System M N)
  | .udef => some { s with nvic := b.setPending s.nvic excpUsage }
  | .swi => some { s with nvic := b.setPending s.nvic excpSvc }
  | .prefetchAbort | .dataAbort => some { s with nvic := b.setPending s.nvic excpMem }
  | .bkpt =>
    let nr := b.lduwCode s.mem (s.env.regs 15) s.env.bswapCode &&& 0xFF
    if b.semihostingEnabled ∧ nr = 0xAB then
      let (s, r) := b.doArmSemihosting (s.setReg 15 (s.env.regs 15 + 2))
      some (s.setReg 0 r)
    else some { s with nvic := b.setPending s.nvic excpDebug }
  | .irq => some (enter b (xpsrRead s.env) (returnValue s.env) (acknowledge b s))
  | .exceptionExit => some (doV7mExceptionExit b s)
  | .fiq | .kernelTrap | .strex | .smc => none

section Xpsr

variable (env : V7mState) (val : UInt32)

theorem xpsr_write_eq :
    xpsrWrite env val 0xFFFFFDFF =
      { env with
        ZF := ~~~val &&& cpsrZ
        NF := val.toInt32
        CF := (val >>> 29) &&& 1
        VF := ((val <<< 3) &&& 0x80000000).toInt32
        QF := if val &&& cpsrQ ≠ 0 then 1 else 0
        thumb := val &&& xpsrT != 0
        condexecBits :=
          (((env.condexecBits &&& ~~~(3 : UInt32)) ||| ((val >>> 25) &&& (3 : UInt32)))
            &&& (3 : UInt32)) ||| ((val >>> 8) &&& (0xFC : UInt32))
        v7mException := (val &&& 0x1FF).toInt32 } := by
  unfold xpsrWrite
  simp only [show (0xFFFFFDFF : UInt32) &&& cpsrNZCV ≠ 0 by decide,
    show (0xFFFFFDFF : UInt32) &&& cpsrQ ≠ 0 by decide,
    show (0xFFFFFDFF : UInt32) &&& xpsrT ≠ 0 by decide,
    show (0xFFFFFDFF : UInt32) &&& cpsrIT01 ≠ 0 by decide,
    show (0xFFFFFDFF : UInt32) &&& cpsrIT27 ≠ 0 by decide,
    show (0xFFFFFDFF : UInt32) &&& 0x1FF ≠ 0 by decide, if_true, not_false_eq_true, ne_eq]

theorem zero_flag_up : (if ~~~val &&& cpsrZ = 0 then 1 else 0 : UInt32) <<< 30 = val &&& cpsrZ := by
  have hiff : ~~~val &&& cpsrZ = 0 ↔ val &&& cpsrZ ≠ 0 := by
    have hlt := val.toNat_lt
    have hsize : UInt32.size = 2 ^ 32 := rfl
    rw [and_bit_eq_zero _ 30 rfl, ne_eq, and_bit_eq_zero _ 30 rfl, UInt32.toNat_not, hsize]
    omega
  simp only [hiff]
  exact flag_up val 30 rfl rfl (by decide)

theorem thumb_flag_up : (val &&& xpsrT != 0).toUInt32 <<< 24 = val &&& xpsrT := by
  have hflag := flag_up val 24 (m := xpsrT) (s := 24) rfl rfl (by decide)
  by_cases h : val &&& xpsrT = 0
  · have hfalse : (val &&& xpsrT != 0) = false := by simp [h]
    rw [hfalse, h]
    rfl
  · have htrue : (val &&& xpsrT != 0) = true := by simp [h]
    rw [htrue, ← hflag, if_pos h]
    rfl

theorem it_low (c x y : UInt32) :
    ((((c &&& ~~~3) ||| (x &&& 3)) &&& 3) ||| (y &&& 0xFC)) &&& 3 = x &&& 3 := by
  simp only [word_or_and, UInt32.and_assoc, show (3 : UInt32) &&& 3 = 3 by decide,
    show (~~~3 : UInt32) &&& 3 = 0 by decide, show (0xFC : UInt32) &&& 3 = 0 by decide,
    UInt32.and_zero, UInt32.or_zero, UInt32.zero_or]

theorem it_high (c y : UInt32) : ((c &&& 3) ||| (y &&& 0xFC)) &&& 0xFC = y &&& 0xFC := by
  simp only [word_or_and, UInt32.and_assoc, show (3 : UInt32) &&& 0xFC = 0 by decide,
    UInt32.and_self, UInt32.and_zero, UInt32.zero_or]

theorem xpsr_read_write : xpsrRead (xpsrWrite env val 0xFFFFFDFF) = val &&& xpsrBits := by
  have hV : ((val <<< 3) &&& 0x80000000 &&& 0x80000000) >>> 3 = val &&& 0x10000000 := by
    rw [UInt32.and_assoc, field_down]
    rfl
  rw [xpsr_write_eq]
  unfold xpsrRead
  dsimp only
  rw [zero_flag_up, field_up val 1 29, UInt32.toUInt32_toInt32, UInt32.toUInt32_toInt32, hV,
    flag_up val 27 rfl rfl (by decide), thumb_flag_up, it_low, it_high, field_up val 3 25,
    field_up val 0xFC 8, UInt32.toUInt32_toInt32]
  simp only [← word_and_or]
  rfl

theorem flag_cases {x : UInt32} (hx : x < 2) : x = 0 ∨ x = 1 := by
  have hlt : x.toNat < 2 := UInt32.lt_iff_toNat_lt.mp hx
  rw [← UInt32.toNat_inj, ← UInt32.toNat_inj]
  change x.toNat = 0 ∨ x.toNat = 1
  omega

section Masks

variable {x s m k : UInt32}

theorem masked_within (hm : m &&& k = m) : (x &&& m) &&& k = x &&& m := by
  rw [UInt32.and_assoc, hm]

theorem masked_outside (hm : m &&& k = 0) : (x &&& m) &&& k = 0 := by
  rw [UInt32.and_assoc, hm, UInt32.and_zero]

theorem flag_within (hx : x < 2) (hs : (1 <<< s) &&& k = 1 <<< s) : (x <<< s) &&& k = x <<< s := by
  obtain rfl | rfl := flag_cases hx
  · simp
  · exact hs

theorem flag_outside (hx : x < 2) (hs : (1 <<< s) &&& k = 0) : (x <<< s) &&& k = 0 := by
  obtain rfl | rfl := flag_cases hx
  · simp
  · exact hs

end Masks

/-- The fields of the register are as wide as their places. -/
structure FlagsNormal : Prop where
  CF_lt : env.CF < 2
  QF_lt : env.QF < 2
  exception_lt : env.v7mException.toUInt32 < 512

variable {env}

theorem zero_flag_lt : (if env.ZF = 0 then 1 else 0 : UInt32) < 2 := by
  split_ifs <;> decide

theorem thumb_lt : env.thumb.toUInt32 < 2 := by
  cases env.thumb <;> decide

theorem FlagsNormal.exception_masked (h : FlagsNormal env) :
    env.v7mException.toUInt32 &&& 0x1FF = env.v7mException.toUInt32 := by
  rw [← UInt32.toNat_inj, UInt32.toNat_and]
  change _ &&& (2 ^ 9 - 1) = _
  rw [Nat.and_two_pow_sub_one_eq_mod]
  exact Nat.mod_eq_of_lt (UInt32.lt_iff_toNat_lt.mp h.exception_lt)

theorem xpsr_read_bits (h : FlagsNormal env) : xpsrRead env &&& xpsrBits = xpsrRead env := by
  have hexception : env.v7mException.toUInt32 &&& xpsrBits = env.v7mException.toUInt32 := by
    rw [← h.exception_masked]
    exact masked_within (by decide)
  unfold xpsrRead
  dsimp only
  rw [UInt32.shiftRight_and, UInt32.shiftLeft_and, UInt32.shiftLeft_and]
  simp only [word_or_and, flag_within h.CF_lt (s := 29) (k := xpsrBits) (by decide),
    flag_within h.QF_lt (s := 27) (k := xpsrBits) (by decide),
    flag_within zero_flag_lt (s := 30) (k := xpsrBits) (by decide),
    flag_within thumb_lt (s := 24) (k := xpsrBits) (by decide), hexception]
  rw [masked_within (by decide), masked_within (by decide), masked_within (by decide),
    masked_within (by decide)]

theorem xpsr_read_thumb (h : FlagsNormal env) :
    (xpsrRead env &&& xpsrT != 0) = env.thumb := by
  have hexception : env.v7mException.toUInt32 &&& xpsrT = 0 := by
    rw [← h.exception_masked]
    exact masked_outside (by decide)
  have hbit : xpsrRead env &&& xpsrT = env.thumb.toUInt32 <<< 24 := by
    unfold xpsrRead
    dsimp only
    rw [UInt32.shiftRight_and, UInt32.shiftLeft_and, UInt32.shiftLeft_and]
    simp only [word_or_and, flag_outside h.CF_lt (s := 29) (k := xpsrT) (by decide),
      flag_outside h.QF_lt (s := 27) (k := xpsrT) (by decide),
      flag_outside zero_flag_lt (s := 30) (k := xpsrT) (by decide),
      flag_within thumb_lt (s := 24) (k := xpsrT) (by decide), hexception]
    rw [masked_outside (by decide), masked_outside (by decide), masked_outside (by decide),
      masked_outside (by decide)]
    simp only [UInt32.or_zero, UInt32.zero_or]
  rw [hbit]
  cases env.thumb <;> decide

theorem xpsr_read_unpadded (h : FlagsNormal env) : xpsrRead env &&& 0x200 = 0 := by
  rw [← xpsr_read_bits h]
  exact masked_outside (by decide)

end Xpsr

section Stacks

variable {b}

/-- The main stack pointer, or with `true` the process stack pointer. -/
def V7mState.sp (env : V7mState) (process : Bool) : UInt32 :=
  if env.currentSp = process then env.regs 13 else env.otherSp

def System.withStack (s : System M N) (p : UInt32 × M) : System M N :=
  { s.setReg 13 p.1 with mem := p.2 }

theorem with_stack_self (s : System M N) : s.withStack (s.env.regs 13, s.mem) = s := by
  simp [System.withStack, System.setReg]

theorem with_stack_sp (s : System M N) (p : UInt32 × M) (process : Bool) :
    (s.withStack p).env.sp process =
      if s.env.currentSp = process then p.1 else s.env.otherSp := by
  simp [System.withStack, System.setReg, V7mState.sp]

theorem push_with_stack (s : System M N) (p : UInt32 × M) (val : UInt32) :
    v7mPush b (s.withStack p) val = s.withStack (push b.toRam p val) := by
  simp [v7mPush, System.withStack, System.setReg, push]

theorem push_all_eq (ws : List UInt32) (s : System M N) :
    ws.foldl (v7mPush b) s = s.withStack (ws.foldl (push b.toRam) (s.env.regs 13, s.mem)) := by
  have hall : ∀ p, ws.foldl (v7mPush b) (s.withStack p) =
      s.withStack (ws.foldl (push b.toRam) p) := by
    induction ws with
    | nil => exact fun _ ↦ rfl
    | cons w ws ih =>
      intro p
      rw [List.foldl_cons, push_with_stack, ih]
      rfl
  rw [← hall, with_stack_self]

variable (b) in
/-- What pops leave: the words above the pointer, in the registers named. -/
structure Popped (is : List (Fin 16)) (s s' : System M N) : Prop where
  frame : ∃ regs, s' = { s with env := { s.env with regs } }
  pointer : s'.env.regs 13 = s.env.regs 13 + UInt32.ofNat (4 * is.length)
  word : ∀ j i, is[j]? = some i →
    s'.env.regs i = b.ldl s.mem (s.env.regs 13 + UInt32.ofNat (4 * j))

theorem pop_into_pointer (s : System M N) {i : Fin 16} (hi : 13 ≠ i) :
    (popInto b s i).env.regs 13 = s.env.regs 13 + 4 := by
  simp [popInto, v7mPop, System.setReg, hi]

theorem pop_into_self (s : System M N) (i : Fin 16) :
    (popInto b s i).env.regs i = b.ldl s.mem (s.env.regs 13) := by
  simp [popInto, v7mPop, System.setReg]

theorem pop_into_of_ne (s : System M N) {i j : Fin 16} (hj : j ≠ i) (h13 : j ≠ 13) :
    (popInto b s i).env.regs j = s.env.regs j := by
  simp [popInto, v7mPop, System.setReg, hj, h13]

theorem popped_all (is : List (Fin 16)) (hnd : is.Nodup) (h13 : 13 ∉ is) (s : System M N) :
    Popped b is s (is.foldl (popInto b) s) := by
  induction is using List.reverseRecOn with
  | nil => exact ⟨⟨_, rfl⟩, by simp, by simp⟩
  | append_singleton is i ih =>
    obtain ⟨hnd', -, hdisj⟩ := List.nodup_append.mp hnd
    have hi : i ∉ is := fun h ↦ hdisj i h i (by simp) rfl
    have h13i : 13 ≠ i := fun h ↦ h13 (by simp [h])
    obtain ⟨⟨regs, hregs⟩, hpointer, hword⟩ := ih hnd' fun h ↦ h13 (by simp [h])
    have hlast : (is ++ [i]).foldl (popInto b) s = popInto b (is.foldl (popInto b) s) i := by
      rw [List.foldl_append]
      rfl
    have hmem : (is.foldl (popInto b) s).mem = s.mem := by rw [hregs]
    rw [hlast]
    refine ⟨⟨_, by rw [hregs]; rfl⟩, ?_, ?_⟩
    · rw [pop_into_pointer _ h13i, hpointer, List.length_append, List.length_singleton,
        Nat.mul_add, UInt32.ofNat_add, ← add_assoc]
      rfl
    · intro j i' hj
      by_cases hlen : j = is.length
      · obtain rfl : i = i' := by simpa [hlen] using hj
        rw [pop_into_self, hmem, hpointer, hlen]
      · have hlt : j < is.length := by
          have := (List.getElem?_eq_some_iff.mp hj).1
          rw [List.length_append, List.length_singleton] at this
          omega
        rw [List.getElem?_append_left hlt] at hj
        have hmem' : i' ∈ is := List.mem_of_getElem? hj
        have hne : i' ≠ i := fun h ↦ hi (h ▸ hmem')
        have hne' : i' ≠ 13 := fun h ↦ h13 (by simp [← h, hmem'])
        rw [pop_into_of_ne _ hne hne', hword j i' hj]

theorem sp_current (env : V7mState) : env.sp env.currentSp = env.regs 13 := if_pos rfl

theorem switch_sp (env : V7mState) (process p : Bool) :
    (switchV7mSp env process).sp p = env.sp p := by
  unfold switchV7mSp V7mState.sp
  cases h : env.currentSp <;> cases process <;> cases p <;> simp [h]

theorem switch_current (env : V7mState) (process : Bool) :
    (switchV7mSp env process).currentSp = process := by
  unfold switchV7mSp
  split_ifs with h
  · rfl
  · exact not_not.mp h

theorem switch_pointer (env : V7mState) (process : Bool) :
    (switchV7mSp env process).regs 13 = env.sp process := by
  rw [← switch_sp env process process, V7mState.sp, if_pos (switch_current env process)]

end Stacks

section Entry

variable {b}

def alignedSp (sp : UInt32) : UInt32 := if sp &&& 4 ≠ 0 then sp - 4 else sp

def padded (sp xpsr : UInt32) : UInt32 := if sp &&& 4 ≠ 0 then xpsr ||| 0x200 else xpsr

/-- The address of a word of the frame, in the order of the pushes. -/
def frameSlot (sp : UInt32) (k : ℕ) : UInt32 := slot (alignedSp sp) (k + 1)

theorem aligned_sp_aligned {sp : UInt32} (h : 4 ∣ sp.toNat) : 4 ∣ (alignedSp sp).toNat := by
  unfold alignedSp
  split_ifs
  · rw [← slot_zero sp, ← slot_succ]
    exact slot_aligned h 1
  · exact h

theorem set_reg_self (s : System M N) (i : Fin 16) : s.setReg i (s.env.regs i) = s := by
  simp [System.setReg]

theorem align_stack_eq (xpsr : UInt32) (s : System M N) :
    alignStack xpsr s = (s.setReg 13 (alignedSp (s.env.regs 13)), padded (s.env.regs 13) xpsr) := by
  unfold alignStack alignedSp padded
  split_ifs
  · rfl
  · rw [set_reg_self]

theorem take_vector_sp (lr : UInt32) (s : System M N) (p : Bool) :
    (takeVector b lr s).env.sp p = s.env.sp p := by
  rw [← switch_sp s.env false p]
  simp [takeVector, V7mState.sp, System.setReg]

variable (xpsr lr : UInt32) (s : System M N)

theorem enter_eq :
    enter b xpsr lr s = takeVector b lr (s.withStack
      ((frameWords (padded (s.env.regs 13) xpsr) s.env).foldl (push b.toRam)
        (alignedSp (s.env.regs 13), s.mem))) := by
  unfold enter
  rw [align_stack_eq]
  dsimp only
  rw [push_all_eq]
  simp [System.withStack, System.setReg, frameWords]

theorem enter_lr : (enter b xpsr lr s).env.regs 14 = lr := by
  simp [enter, takeVector, System.setReg]

theorem enter_sp (p : Bool) :
    (enter b xpsr lr s).env.sp p =
      if s.env.currentSp = p then slot (alignedSp (s.env.regs 13)) 8 else s.env.sp p := by
  rw [enter_eq, take_vector_sp, with_stack_sp, push_all_pointer]
  split_ifs with h
  · rfl
  · rw [V7mState.sp, if_neg h]

theorem enter_word {s : System M N} (hsp : 4 ∣ (s.env.regs 13).toNat)
    (hram : ∀ k < 8, b.InRam (frameSlot (s.env.regs 13) k)) {k : ℕ} {w : UInt32}
    (hw : (frameWords (padded (s.env.regs 13) xpsr) s.env)[k]? = some w) :
    b.ldl (enter b xpsr lr s).mem (frameSlot (s.env.regs 13) k) = w := by
  have hlen : (frameWords (padded (s.env.regs 13) xpsr) s.env).length = 8 := rfl
  rw [enter_eq]
  exact push_all_word (p := (alignedSp (s.env.regs 13), s.mem)) (aligned_sp_aligned hsp)
    (by rwa [hlen]) (by rw [hlen]; norm_num) hw

end Entry

section Exit

variable {b}

def exitSp (env : V7mState) : UInt32 := env.sp (env.regs 15 &&& 4 != 0)

variable (b) in
def exitWord (s : System M N) (j : ℕ) : UInt32 :=
  b.ldl s.mem (exitSp s.env + UInt32.ofNat (4 * j))

def unpaddedSp (sp xpsr : UInt32) : UInt32 := if xpsr &&& 0x200 ≠ 0 then sp ||| 4 else sp

variable (b) in
/-- What the exit leaves, in terms of the words on the stack it selects. -/
structure Exited (h r : System M N) : Prop where
  regs : ∀ j i, [0, 1, 2, 3, 12, 14, 15][j]? = some i → i ≠ 15 → r.env.regs i = exitWord b h j
  pc : r.env.regs 15 = exitWord b h 6 &&& ~~~1
  thumb : r.env.thumb = (exitWord b h 7 &&& xpsrT != 0)
  xpsr : xpsrRead r.env = exitWord b h 7 &&& xpsrBits
  current : r.env.currentSp = (h.env.regs 15 &&& 4 != 0)
  sp : ∀ p, r.env.sp p =
    if r.env.currentSp = p then unpaddedSp (exitSp h.env + 32) (exitWord b h 7) else h.env.sp p

theorem resume_env (s : System M N) :
    (resume b s).env =
      { xpsrWrite s.env (b.ldl s.mem (s.env.regs 13)) 0xFFFFFDFF with
        regs := Function.update (Function.update s.env.regs 15 (s.env.regs 15 &&& ~~~1)) 13
          (unpaddedSp (s.env.regs 13 + 4) (b.ldl s.mem (s.env.regs 13))) } := by
  have h13 : Function.update s.env.regs 15 (s.env.regs 15 &&& ~~~1) 13 = s.env.regs 13 :=
    Function.update_of_ne (by decide) _ _
  unfold resume unpaddedSp
  simp only [xpsr_write_eq, v7mPop, System.setReg, h13]
  by_cases hpad : b.ldl s.mem (s.env.regs 13) &&& 0x200 ≠ 0
  · simp only [if_pos hpad, Function.update_self, Function.update_idem]
  · simp only [if_neg hpad]

theorem resume_regs {s : System M N} {i : Fin 16} (h13 : i ≠ 13) (h15 : i ≠ 15) :
    (resume b s).env.regs i = s.env.regs i := by
  rw [resume_env]
  simp [h13, h15]

theorem resume_pc (s : System M N) : (resume b s).env.regs 15 = s.env.regs 15 &&& ~~~1 := by
  rw [resume_env]
  rfl

theorem resume_thumb (s : System M N) :
    (resume b s).env.thumb = (b.ldl s.mem (s.env.regs 13) &&& xpsrT != 0) := by
  rw [resume_env, xpsr_write_eq]

theorem resume_xpsr (s : System M N) :
    xpsrRead (resume b s).env = b.ldl s.mem (s.env.regs 13) &&& xpsrBits := by
  rw [← xpsr_read_write s.env, resume_env]
  rfl

theorem resume_current (s : System M N) : (resume b s).env.currentSp = s.env.currentSp := by
  rw [resume_env, xpsr_write_eq]

theorem resume_sp (s : System M N) (p : Bool) :
    (resume b s).env.sp p = if s.env.currentSp = p then
      unpaddedSp (s.env.regs 13 + 4) (b.ldl s.mem (s.env.regs 13)) else s.env.otherSp := by
  rw [V7mState.sp, resume_current, resume_env, xpsr_write_eq]
  simp

theorem leave_handler_env (h : System M N) :
    (leaveHandler b h).env = switchV7mSp h.env (h.env.regs 15 &&& 4 != 0) := by
  unfold leaveHandler
  split_ifs <;> rfl

theorem leave_handler_mem (h : System M N) : (leaveHandler b h).mem = h.mem := by
  unfold leaveHandler
  split_ifs <;> rfl

theorem exited (h : System M N) : Exited b h (doV7mExceptionExit b h) := by
  have hsp : (leaveHandler b h).env.regs 13 = exitSp h.env := by
    rw [leave_handler_env]
    exact switch_pointer _ _
  obtain ⟨⟨regs, hframe⟩, hpointer, hword⟩ :=
    popped_all (b := b) [0, 1, 2, 3, 12, 14, 15] (by decide) (by decide) (leaveHandler b h)
  rw [doV7mExceptionExit]
  generalize [0, 1, 2, 3, 12, 14, 15].foldl (popInto b) (leaveHandler b h) = t at *
  rw [hsp, leave_handler_mem] at hword
  rw [hsp] at hpointer
  have hcurrent : t.env.currentSp = (h.env.regs 15 &&& 4 != 0) := by
    rw [hframe, leave_handler_env, switch_current]
  have hother : t.env.otherSp = (switchV7mSp h.env (h.env.regs 15 &&& 4 != 0)).otherSp := by
    rw [hframe, leave_handler_env]
  have hlast : b.ldl t.mem (t.env.regs 13) = exitWord b h 7 := by
    rw [hpointer, hframe, leave_handler_mem]
    rfl
  have hend : t.env.regs 13 + 4 = exitSp h.env + 32 := by
    rw [hpointer, add_assoc]
    rfl
  constructor
  case regs =>
    intro j i hj h15
    have hmem : i ∈ [0, 1, 2, 3, 12, 14, 15] := List.mem_of_getElem? hj
    rw [resume_regs (ne_of_mem_of_not_mem hmem (by decide)) h15]
    exact hword j i hj
  case pc => rw [resume_pc, hword 6 15 rfl, exitWord]
  case thumb => rw [resume_thumb, hlast]
  case xpsr => rw [resume_xpsr, hlast]
  case current => rw [resume_current, hcurrent]
  case sp =>
    intro p
    rw [resume_sp, resume_current, hlast, hend, hother]
    split_ifs with hp
    · rfl
    · rw [← switch_sp h.env (h.env.regs 15 &&& 4 != 0) p, V7mState.sp, switch_current, ← hcurrent,
        if_neg hp]

end Exit

section RoundTrip

/-- The states an exception can be taken in: the frame goes to aligned RAM. -/
structure Normal (s : System M N) : Prop extends FlagsNormal s.env where
  pc_even : s.env.regs 15 &&& 1 = 0
  sp_aligned : 4 ∣ (s.env.regs 13).toNat
  frame_in_ram : ∀ k < 8, b.InRam (frameSlot (s.env.regs 13) k)

/-- What a handler keeps for the code it interrupted, up to its return. The branch that returns
may clear the low bit of the address. -/
structure Handled (s e h : System M N) : Prop where
  sp : ∀ p, h.env.sp p = e.env.sp p
  frame : ∀ k < 8,
    b.ldl h.mem (frameSlot (s.env.regs 13) k) = b.ldl e.mem (frameSlot (s.env.regs 13) k)
  pc : h.env.regs 15 ||| 1 = e.env.regs 14

structure Restored (s r : System M N) : Prop where
  regs : ∀ i ∈ [0, 1, 2, 3, 12, 14, 15], r.env.regs i = s.env.regs i
  thumb : r.env.thumb = s.env.thumb
  current : r.env.currentSp = s.env.currentSp
  sp : ∀ p, r.env.sp p = s.env.sp p
  xpsr : xpsrRead r.env = xpsrRead s.env

variable {b}

theorem return_value_process (env : V7mState) : (returnValue env &&& 4 != 0) = env.currentSp := by
  unfold returnValue
  cases h : env.currentSp
  · split_ifs <;> first | decide | contradiction
  · split_ifs <;> first | decide | contradiction

theorem exit_process {env : V7mState} {pc : UInt32} (h : pc ||| 1 = returnValue env) :
    (pc &&& 4 != 0) = env.currentSp := by
  have hbit : (pc ||| 1) &&& 4 = pc &&& 4 := by
    rw [word_or_and, show (1 : UInt32) &&& 4 = 0 by decide, UInt32.or_zero]
  rw [← return_value_process, ← h, hbit]

theorem pc_restored {env : V7mState} (hpc : env.regs 15 &&& 1 = 0) :
    (env.regs 15 ||| env.thumb.toUInt32) &&& ~~~1 = env.regs 15 := by
  have hthumb : env.thumb.toUInt32 &&& ~~~1 = 0 := by
    cases env.thumb <;> decide
  rw [word_or_and, word_and_not hpc, hthumb, UInt32.or_zero]

theorem padded_and {m : UInt32} (hm : 0x200 &&& m = 0) (sp xpsr : UInt32) :
    padded sp xpsr &&& m = xpsr &&& m := by
  unfold padded
  split_ifs
  · rw [word_or_and, hm, UInt32.or_zero]
  · rfl

theorem sp_restored (sp : UInt32) {xpsr : UInt32} (hx : xpsr &&& 0x200 = 0) :
    unpaddedSp (alignedSp sp) (padded sp xpsr) = sp := by
  unfold alignedSp padded
  split_ifs with hpad
  · have hset : (xpsr ||| 0x200) &&& 0x200 ≠ 0 := by
      rw [word_or_and, hx]
      decide
    rw [unpaddedSp, if_pos hset]
    exact word_sub_or (and_bit_eq _ 2 rfl hpad)
  · rw [unpaddedSp, if_neg (not_not.mpr hx)]

theorem entered {s : System M N} (hs : Normal b s) :
    ∃ e, armV7mCpuDoInterrupt b s .irq = some e ∧ e.env.regs 14 = returnValue s.env ∧
      (∀ p, e.env.sp p =
        if s.env.currentSp = p then slot (alignedSp (s.env.regs 13)) 8 else s.env.sp p) ∧
      ∀ k w, (frameWords (padded (s.env.regs 13) (xpsrRead s.env)) s.env)[k]? = some w →
        b.ldl e.mem (frameSlot (s.env.regs 13) k) = w := by
  have hregs : (acknowledge b s).env.regs = s.env.regs := rfl
  have hwords : ∀ x, frameWords x (acknowledge b s).env = frameWords x s.env := fun _ ↦ rfl
  refine ⟨_, rfl, enter_lr _ _ _, enter_sp _ _ _, ?_⟩
  intro k w hw
  rw [← hwords, ← hregs] at hw
  exact enter_word (s := acknowledge b s) _ _ hs.sp_aligned hs.frame_in_ram hw

theorem frame_reg {xpsr : UInt32} {env : V7mState} {j : ℕ} {i : Fin 16}
    (hj : [0, 1, 2, 3, 12, 14, 15][j]? = some i) (hi : i ≠ 15) :
    (frameWords xpsr env)[7 - j]? = some (env.regs i) := by
  have hlt : j < 7 := (List.getElem?_eq_some_iff.mp hj).1
  interval_cases j <;> obtain rfl := Option.some.inj hj
  all_goals first | exact absurd rfl hi | rfl

/-- The exit undoes the entry, whatever the handler did. -/
theorem exception_round_trip {s : System M N} (hs : Normal b s) :
    ∃ e, armV7mCpuDoInterrupt b s .irq = some e ∧
      ∀ h, Handled b s e h →
        ∃ r, armV7mCpuDoInterrupt b h .exceptionExit = some r ∧ Restored s r := by
  obtain ⟨e, he, hlr, hsp, hframe⟩ := entered hs
  refine ⟨e, he, fun h hh ↦ ⟨_, rfl, ?_⟩⟩
  have hx := exited (b := b) h
  have hprocess := exit_process (hh.pc.trans hlr)
  have hexit : exitSp h.env = slot (alignedSp (s.env.regs 13)) 8 := by
    rw [exitSp, hprocess, hh.sp, hsp, if_pos rfl]
  have hword : ∀ j < 8, exitWord b h j = b.ldl e.mem (frameSlot (s.env.regs 13) (7 - j)) := by
    intro j hj
    rw [exitWord, hexit, slot_add _ hj.le, ← hh.frame _ (by omega), frameSlot,
      show 7 - j + 1 = 8 - j by omega]
  have hxpsr : exitWord b h 7 = padded (s.env.regs 13) (xpsrRead s.env) := by
    rw [hword 7 (by norm_num), hframe _ _ rfl]
  have hpc : exitWord b h 6 = s.env.regs 15 ||| s.env.thumb.toUInt32 := by
    rw [hword 6 (by norm_num), hframe _ _ rfl]
  constructor
  case regs =>
    intro i hi
    by_cases h15 : i = 15
    · rw [h15, hx.pc, hpc, pc_restored hs.pc_even]
    · obtain ⟨j, hj⟩ := List.mem_iff_getElem?.mp hi
      have hlt : j < 7 := (List.getElem?_eq_some_iff.mp hj).1
      rw [hx.regs j i hj h15, hword j (by omega), hframe _ _ (frame_reg hj h15)]
  case thumb => rw [hx.thumb, hxpsr, padded_and (by decide), xpsr_read_thumb hs.toFlagsNormal]
  case current => rw [hx.current, hprocess]
  case sp =>
    intro p
    have hend : exitSp h.env + 32 = alignedSp (s.env.regs 13) := by
      rw [hexit]
      exact (slot_add _ (le_refl 8)).trans (slot_zero _)
    rw [hx.sp, hx.current, hprocess, hend, hxpsr,
      sp_restored _ (xpsr_read_unpadded hs.toFlagsNormal)]
    split_ifs with hp
    · rw [← hp, sp_current]
    · rw [hh.sp, hsp, if_neg hp]
  case xpsr => rw [hx.xpsr, hxpsr, padded_and (by decide), xpsr_read_bits hs.toFlagsNormal]

theorem handled_at_once {s e : System M N} (hlr : e.env.regs 14 ||| 1 = e.env.regs 14) :
    Handled b s e (e.setReg 15 (e.env.regs 14)) where
  sp p := by simp [System.setReg, V7mState.sp]
  frame _ _ := rfl
  pc := by simp [System.setReg, hlr]

def flatBoard : Board (UInt32 → UInt8) Unit where
  toRam := byteRam
  setPending n _ := n
  acknowledgeIrq n := (n, 17)
  completeIrq n _ := n
  semihostingEnabled := false
  lduwCode _ _ _ := 0
  doArmSemihosting s := (s, 0)

/-- Thumb code on the process stack, in an IT block, with its stack pointer at an odd word. -/
def thread : System (UInt32 → UInt8) Unit where
  env := {
    featureM := true
    featureThumb2 := true
    regs := Function.update (Function.update (fun i ↦ 7 * UInt32.ofNat i) 13 0x20001FF4) 15 0x8002
    uncachedCpsr := 0
    v7mException := 0
    v7mControl := 2
    ZF := 0
    CF := 1
    NF := -1
    VF := 0
    thumb := true
    condexecBits := 0xA5
    bswapCode := false
    vecLen := 0
    vecStride := 0
    fpexc := 0
    QF := 1
    otherSp := 0x20004000
    vecbase := 0
    currentSp := true }
  mem _ := 0
  nvic := ()

theorem thread_normal : Normal flatBoard thread where
  CF_lt := by decide
  QF_lt := by decide
  exception_lt := by decide
  pc_even := by decide
  sp_aligned := by decide
  frame_in_ram _ _ := trivial

theorem thread_round_trip :
    ∃ e h r, armV7mCpuDoInterrupt flatBoard thread .irq = some e ∧ Handled flatBoard thread e h ∧
      armV7mCpuDoInterrupt flatBoard h .exceptionExit = some r ∧ Restored thread r := by
  obtain ⟨e, he, hexit⟩ := exception_round_trip thread_normal
  have hlr : e.env.regs 14 = 0xFFFFFFFD := by
    rw [← Option.some.inj he, enter_lr]
    decide
  have hhandled := handled_at_once (b := flatBoard) (s := thread) (e := e) (by rw [hlr]; decide)
  obtain ⟨r, hr, hrestored⟩ := hexit _ hhandled
  exact ⟨e, _, r, he, hhandled, hr, hrestored⟩

end RoundTrip

end VarEmu.Processor.ExceptionFrame
