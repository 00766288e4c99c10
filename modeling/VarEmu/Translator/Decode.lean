import VarEmu.Library.Bits
import VarEmu.Emulator.State

namespace VarEmu.Translator.Decode

open Emulator.State Library.Bits

/-- What stands at an address: a word in ARM state, and in Thumb state a halfword with the one
that follows it. -/
inductive Code
  | arm (word : UInt32)
  | thumb (hw1 hw2 : UInt16)
  deriving DecidableEq

inductive InstrSet
  | arm
  | thumb
  | thumb2
  deriving DecidableEq

def thumbOpcode (instr : UInt32) : UInt32 :=
  (((instr >>> 12) &&& 0xF) <<< 4) ||| ((instr >>> 8) &&& 0xF)

def armOpcode (instr : UInt32) : UInt32 :=
  (((instr >>> 20) &&& 0xFF) <<< 4) ||| ((instr >>> 4) &&& 0xF)

theorem arm_opcode_toNat (instr : UInt32) :
    (armOpcode instr).toNat = instr.toNat / 2 ^ 20 % 2 ^ 8 * 16 + instr.toNat / 2 ^ 4 % 2 ^ 4 := by
  rw [armOpcode, concat_toNat (n := 8) (by norm_num) (and_lt _ (by decide)) (and_lt _ (by decide)),
    field_toNat instr 20 8 rfl rfl (by norm_num), field_toNat instr 4 4 rfl rfl (by norm_num)]

theorem thumb_opcode_toNat (instr : UInt32) :
    (thumbOpcode instr).toNat =
      instr.toNat / 2 ^ 12 % 2 ^ 4 * 16 + instr.toNat / 2 ^ 8 % 2 ^ 4 := by
  rw [thumbOpcode,
    concat_toNat (n := 4) (by norm_num) (and_lt _ (by decide)) (and_lt _ (by decide)),
    field_toNat instr 12 4 rfl rfl (by norm_num), field_toNat instr 8 4 rfl rfl (by norm_num)]

theorem thumb_opcode_lt (instr : UInt32) : (thumbOpcode instr).toNat < 0x100 := by
  rw [thumb_opcode_toNat]
  omega

theorem arm_opcode_lt (instr : UInt32) : (armOpcode instr).toNat < 0x1000 := by
  rw [arm_opcode_toNat]
  omega

theorem arm_opcode_surjective {i : ℕ} (hi : i < 0x1000) :
    ∃ instr, (armOpcode instr).toNat = i := by
  refine ⟨UInt32.ofNat (i / 16 * 2 ^ 20 + i % 16 * 2 ^ 4), ?_⟩
  rw [arm_opcode_toNat, UInt32.toNat_ofNat_of_lt' (by change _ < 2 ^ 32; omega)]
  omega

theorem thumb_opcode_surjective {i : ℕ} (hi : i < 0x100) :
    ∃ instr, (thumbOpcode instr).toNat = i := by
  refine ⟨UInt32.ofNat (i / 16 * 2 ^ 12 + i % 16 * 2 ^ 8), ?_⟩
  rw [thumb_opcode_toNat, UInt32.toNat_ofNat_of_lt' (by change _ < 2 ^ 32; omega)]
  omega

scoped instance instNeZeroTable : NeZero 0x1000 := ⟨by decide⟩

structure Tables where
  vemuArmInstr : Fin 0x1000 → VemuInstrInfo
  vemuThumbInstr : Fin 0x100 → VemuInstrInfo
  vemuThumb2Instr : Fin 1 → VemuInstrInfo

variable (t : Tables)

def vemuTargetDecodeInstr (instr : UInt32) (set : InstrSet) : VemuTbInfo where
  instrWord := instr
  instrInfo := match set with
    | .thumb => t.vemuThumbInstr ⟨(thumbOpcode instr).toNat, thumb_opcode_lt instr⟩
    | .thumb2 => t.vemuThumb2Instr 0
    | .arm => t.vemuArmInstr ⟨(armOpcode instr).toNat, arm_opcode_lt instr⟩

/-- The word and the table that the accounting uses for an instruction. -/
def accountedAs : Code → UInt32 × InstrSet
  | .arm word => (word, .arm)
  | .thumb hw1 hw2 =>
    let insn := hw1.toUInt32
    if insn >>> 12 = 0xF ∨ insn >>> 12 = 0xE then
      if ¬(insn &&& 0x1000 = 0 ∨ insn &&& 0x800 ≠ 0) then
        ((insn <<< 16) ||| hw2.toUInt32, .thumb2)
      -- The type keeps its initial value, which is that of the ARM table.
      else (insn, .arm)
    else (insn, .thumb)

def genVemuInfo (code : Code) : VemuTbInfo :=
  vemuTargetDecodeInstr t (accountedAs code).1 (accountedAs code).2

theorem accounted_as_thumb (hw1 hw2 : UInt16) :
    accountedAs (.thumb hw1 hw2) =
      if hw1.toNat < 0xE000 then (hw1.toUInt32, .thumb)
      else if 0xF000 ≤ hw1.toNat ∧ hw1.toNat < 0xF800 then
        ((hw1.toUInt32 <<< 16) ||| hw2.toUInt32, .thumb2)
      else (hw1.toUInt32, .arm) := by
  have hlt := hw1.toNat_lt
  have h12 : hw1.toUInt32 &&& 0x1000 = 0 ↔ hw1.toNat / 2 ^ 12 % 2 = 0 := halfword_bit hw1 12 rfl
  have h11 : hw1.toUInt32 &&& 0x800 = 0 ↔ hw1.toNat / 2 ^ 11 % 2 = 0 := halfword_bit hw1 11 rfl
  simp only [accountedAs, halfword_nibble, h12, ne_eq, h11, UInt32.reduceToNat]
  by_cases hsmall : hw1.toNat < 0xE000
  · rw [if_pos hsmall, if_neg (by omega)]
  · rw [if_neg hsmall, if_pos (by omega)]
    by_cases hpair : 0xF000 ≤ hw1.toNat ∧ hw1.toNat < 0xF800
    · rw [if_pos hpair, if_pos (by omega)]
    · rw [if_neg hpair, if_neg (by omega)]

end VarEmu.Translator.Decode
