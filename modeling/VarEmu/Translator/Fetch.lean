import VarEmu.Translator.Errors

namespace VarEmu.Translator.Fetch

open Decode Errors Library.Bits

/-- The loads of guest code, in the order of the bytes in memory. -/
structure CodeMemory where
  cpuLdlCode : UInt32 → UInt32
  cpuLduwCode : UInt32 → UInt16

def bswap16 (x : UInt16) : UInt16 := (x <<< 8) ||| (x >>> 8)

def bswap32 (x : UInt32) : UInt32 :=
  let mask : UInt32 := 0xFF00
  (x <<< 24) ||| ((x &&& mask) <<< 8) ||| ((x >>> 8) &&& mask) ||| (x >>> 24)

variable (m : CodeMemory)

def armLdlCode (addr : UInt32) (doSwap : Bool) : UInt32 :=
  let insn := m.cpuLdlCode addr
  if doSwap then bswap32 insn else insn

def armLduwCode (addr : UInt32) (doSwap : Bool) : UInt16 :=
  let insn := m.cpuLduwCode addr
  if doSwap then bswap16 insn else insn

inductive IsJmp
  | next
  | jump
  | update
  | tbJump
  | wfi
  | swi
  | smc
  deriving DecidableEq

structure DisasContext where
  pc : UInt32
  isJmp : IsJmp
  condjmp : Bool
  condlabel : ℕ
  condexecMask : UInt32
  condexecCond : UInt32
  singlestepEnabled : Bool
  thumb : Bool
  bswapCode : Bool

/-- What the translator takes for one instruction. -/
inductive Consumed
  | word (insn : UInt32)
  | one (hw : UInt16)
  | two (hw1 hw2 : UInt16)
  deriving DecidableEq

def Consumed.entry : Consumed → UInt32 × InstrSet
  | .word insn => (insn, .arm)
  | .one hw => (hw.toUInt32, .thumb)
  | .two hw1 hw2 => ((hw1.toUInt32 <<< 16) ||| hw2.toUInt32, .thumb2)

abbrev targetPageMask : UInt32 := ~~~0x3FF

variable (env : CpuArmState) (s : DisasContext)

def disasArmInsn : Consumed × DisasContext :=
  (.word (armLdlCode m s.pc s.bswapCode), { s with pc := s.pc + 4 })

/-- The halves of a branch with link are instructions of their own on a Thumb-1 core. -/
def disasThumb2Insn (insnHw1 : UInt16) : Consumed × DisasContext :=
  let insn := insnHw1.toUInt32
  if ¬(env.featureThumb2 = true ∨ env.featureM = true) ∧
      (insn &&& 0x1000 = 0 ∨ insn &&& 0x800 ≠ 0 ∨ s.pc &&& ~~~targetPageMask = 0) then
    (.one insnHw1, s)
  else (.two insnHw1 (armLduwCode m s.pc s.bswapCode), { s with pc := s.pc + 2 })

def disasThumbInsn : Consumed × DisasContext :=
  let hw := armLduwCode m s.pc s.bswapCode
  let insn := hw.toUInt32
  let s := { s with pc := s.pc + 2 }
  if insn >>> 12 = 14 then
    if insn &&& 0x800 ≠ 0 then disasThumb2Insn m env s hw else (.one hw, s)
  else if insn >>> 12 = 15 then disasThumb2Insn m env s hw
  else (.one hw, s)

def disasInsn : Consumed × DisasContext :=
  if s.thumb then disasThumbInsn m env s else disasArmInsn m s

def codeAt : Code :=
  if s.thumb then .thumb (armLduwCode m s.pc s.bswapCode) (armLduwCode m (s.pc + 2) s.bswapCode)
  else .arm (armLdlCode m s.pc s.bswapCode)

def AgreesWithTranslator : Prop :=
  accountedAs (codeAt m s) = (disasInsn m env s).1.entry

/-- The halfword does not begin with a prefix of a 32-bit instruction, or with that of a branch
with link. -/
def Recognised (hw : UInt16) : Prop :=
  hw.toNat < 0xE000 ∨ 0xF000 ≤ hw.toNat ∧ hw.toNat < 0xF800

variable {m env s}

theorem arm_agrees (h : s.thumb = false) : AgreesWithTranslator m env s := by
  simp [AgreesWithTranslator, codeAt, disasInsn, h, disasArmInsn, Consumed.entry, accountedAs]

theorem disas_thumb_insn_fst (h : env.featureThumb2 = true ∨ env.featureM = true) :
    (disasThumbInsn m env s).1 =
      if (armLduwCode m s.pc s.bswapCode).toNat < 0xE800 then
        .one (armLduwCode m s.pc s.bswapCode)
      else .two (armLduwCode m s.pc s.bswapCode) (armLduwCode m (s.pc + 2) s.bswapCode) := by
  have htwo : ∀ s hw, (disasThumb2Insn m env s hw).1 =
      .two hw (armLduwCode m s.pc s.bswapCode) := by
    intro s hw
    simp [disasThumb2Insn, h]
  have hlt := (armLduwCode m s.pc s.bswapCode).toNat_lt
  have h11 : (armLduwCode m s.pc s.bswapCode).toUInt32 &&& 0x800 = 0 ↔
      (armLduwCode m s.pc s.bswapCode).toNat / 2 ^ 11 % 2 = 0 := halfword_bit _ 11 rfl
  simp only [disasThumbInsn, halfword_nibble, ne_eq, h11, UInt32.reduceToNat]
  split_ifs
  all_goals first | omega | exact htwo _ _ | rfl

theorem thumb_agrees_iff (h : env.featureThumb2 = true ∨ env.featureM = true)
    (hthumb : s.thumb = true) :
    AgreesWithTranslator m env s ↔ Recognised (armLduwCode m s.pc s.bswapCode) := by
  have hcode : codeAt m s = .thumb (armLduwCode m s.pc s.bswapCode)
      (armLduwCode m (s.pc + 2) s.bswapCode) := if_pos hthumb
  have hdisas : disasInsn m env s = disasThumbInsn m env s := if_pos hthumb
  rw [AgreesWithTranslator, Recognised, hcode, hdisas, disas_thumb_insn_fst h, accounted_as_thumb]
  by_cases hsmall : (armLduwCode m s.pc s.bswapCode).toNat < 0xE000
  · rw [if_pos hsmall, if_pos (by omega)]
    simp [hsmall, Consumed.entry]
  rw [if_neg hsmall]
  by_cases hpair : 0xF000 ≤ (armLduwCode m s.pc s.bswapCode).toNat ∧
      (armLduwCode m s.pc s.bswapCode).toNat < 0xF800
  · rw [if_pos hpair, if_neg (by omega)]
    simp [hpair, Consumed.entry]
  · rw [if_neg hpair]
    split_ifs
    · simp [hsmall, hpair, Consumed.entry]
    · simp [hsmall, hpair, Consumed.entry]

/-- The accounting looks an instruction up in the right table, with the halfwords the translator
takes, if and only if it is an ARM instruction or begins with a recognised halfword. -/
theorem agrees_with_translator_iff (m : CodeMemory) (env : CpuArmState) (s : DisasContext)
    (h : env.featureThumb2 = true ∨ env.featureM = true) :
    AgreesWithTranslator m env s ↔
      s.thumb = false ∨ Recognised (armLduwCode m s.pc s.bswapCode) := by
  cases hthumb : s.thumb with
  | false => simp [arm_agrees hthumb]
  | true => simp [thumb_agrees_iff h hthumb]

def filled (hw : UInt16) : CodeMemory where
  cpuLdlCode := fun _ ↦ (hw.toUInt32 <<< 16) ||| hw.toUInt32
  cpuLduwCode := fun _ ↦ hw

def thumbStart (pc : UInt32) (swap : Bool) : DisasContext where
  pc := pc
  isJmp := .next
  condjmp := false
  condlabel := 0
  condexecMask := 0
  condexecCond := 0
  singlestepEnabled := false
  thumb := true
  bswapCode := swap

theorem mov_agrees :
    AgreesWithTranslator (filled 0x2001) unprivilegedThread (thumbStart 0x8000 false) ∧
    AgreesWithTranslator (filled 0x0120) unprivilegedThread (thumbStart 0x8000 true) := by
  constructor
  · rw [agrees_with_translator_iff _ _ _ (.inl rfl)]
    exact .inr (.inl (by decide))
  · rw [agrees_with_translator_iff _ _ _ (.inl rfl)]
    exact .inr (.inl (by decide))

theorem branch_and_wide_load_mistaken :
    (accountedAs (codeAt (filled 0xE7FE) (thumbStart 0x8000 false)) = (0xE7FE, .arm) ∧
      ¬AgreesWithTranslator (filled 0xE7FE) unprivilegedThread (thumbStart 0x8000 false)) ∧
    accountedAs (codeAt (filled 0xF8D0) (thumbStart 0x8000 false)) = (0xF8D0, .arm) ∧
      ¬AgreesWithTranslator (filled 0xF8D0) unprivilegedThread (thumbStart 0x8000 false) := by
  unfold AgreesWithTranslator
  decide

end VarEmu.Translator.Fetch
