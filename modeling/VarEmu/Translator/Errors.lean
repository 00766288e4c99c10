import VarEmu.Translator.Decode

namespace VarEmu.Translator.Errors

open Emulator.State Decode Library.Bits

scoped instance instNeZeroRegs : NeZero 16 := ⟨by decide⟩

/-- The processor state that translation and fault injection look at. The zero flag is set when
`ZF` is zero, and the negative and overflow flags are the signs of `NF` and `VF`. -/
structure CpuArmState where
  featureM : Bool
  featureThumb2 : Bool
  regs : Fin 16 → UInt32
  uncachedCpsr : UInt32
  v7mException : Int32
  v7mControl : UInt32
  ZF : UInt32
  CF : UInt32
  NF : Int32
  VF : Int32
  thumb : Bool
  condexecBits : UInt32
  bswapCode : Bool
  vecLen : UInt32
  vecStride : UInt32
  fpexc : UInt32

abbrev cpsrM : UInt32 := 0x1F

abbrev armCpuModeUsr : UInt32 := 0x10

structure TbFlags where
  thumb : Bool
  vecLen : UInt32
  vecStride : UInt32
  priv : Bool
  vfpEn : Bool
  condexec : UInt32
  bswapCode : Bool

def cpuGetTbCpuState (env : CpuArmState) : UInt32 × TbFlags :=
  let privmode :=
    if env.featureM then !(decide (env.v7mException = 0) && env.v7mControl &&& 1 != 0)
    else env.uncachedCpsr &&& cpsrM != armCpuModeUsr
  (env.regs 15,
    { thumb := env.thumb
      vecLen := env.vecLen
      vecStride := env.vecStride
      priv := privmode
      vfpEn := env.fpexc &&& 0x40000000 != 0
      condexec := env.condexecBits
      bswapCode := env.bswapCode })

abbrev vemuOpcodeMul : UInt32 := 0x009

abbrev vemuOpcodeMla : UInt32 := 0x029

abbrev vemuOpcodeUmull : UInt32 := 0x089

def reg (instr : UInt32) (shift : UInt32) : Fin 16 :=
  ⟨((instr >>> shift) &&& 0xF).toNat, and_lt _ (by decide)⟩

inductive Replacement
  | vemuMul
  | vemuMla
  | vemuUmull
  deriving DecidableEq

def Replacement.apply (env : CpuArmState) (instrWord : UInt32) : Replacement → CpuArmState
  | .vemuMul =>
    let rd := reg instrWord 16
    let rs := reg instrWord 8
    let rm := reg instrWord 0
    { env with regs := Function.update env.regs rd (env.regs rm + env.regs rs) }
  | .vemuMla =>
    let rd := reg instrWord 16
    let rs := reg instrWord 8
    let rm := reg instrWord 0
    let rn := reg instrWord 12
    { env with regs := Function.update env.regs rd (env.regs rm * env.regs rs + env.regs rn) }
  | .vemuUmull => env

/-- The switch on the opcode number. The case of `MLA` runs on into the next one. -/
def replacements (opcode : UInt32) : List Replacement :=
  if opcode = vemuOpcodeMul then [.vemuMul]
  else if opcode = vemuOpcodeMla then [.vemuMla, .vemuUmull]
  else if opcode = vemuOpcodeUmull then [.vemuUmull]
  else []

def errorsEnabled (vemuErrorsEnabled : UInt64) (env : CpuArmState) : Bool :=
  let privmode :=
    if env.featureM then !(decide (env.v7mException ≠ 0) && env.v7mControl &&& 1 != 0)
    else env.uncachedCpsr &&& cpsrM != armCpuModeUsr
  !privmode && decide (vemuErrorsEnabled > 0)

def vemuErrorReplace (vemuErrorsEnabled : UInt64) (env : CpuArmState) (tb : VemuTbInfo) :
    UInt32 × CpuArmState :=
  if errorsEnabled vemuErrorsEnabled env then
    (1, (replacements tb.instrInfo.opcode).foldl (fun env r ↦ r.apply env tb.instrWord) env)
  else (0, env)

/-- The helper replaces an instruction exactly when injection is on and the translator takes the
state for an unprivileged one, and otherwise leaves the processor alone. -/
def FollowsPrivilege (vemuErrorsEnabled : UInt64) (env : CpuArmState) (tb : VemuTbInfo) : Prop :=
  ((vemuErrorReplace vemuErrorsEnabled env tb).1 = 1 ↔
    0 < vemuErrorsEnabled ∧ (cpuGetTbCpuState env).2.priv = false) ∧
  (¬(0 < vemuErrorsEnabled ∧ (cpuGetTbCpuState env).2.priv = false) →
    (vemuErrorReplace vemuErrorsEnabled env tb).2 = env)

theorem error_replace_eq_one {enabled : UInt64} {env : CpuArmState} {tb : VemuTbInfo} :
    (vemuErrorReplace enabled env tb).1 = 1 ↔ errorsEnabled enabled env = true := by
  unfold vemuErrorReplace
  split_ifs with h
  · simp [h]
  · simp [h]

theorem error_replace_disabled {enabled : UInt64} {env : CpuArmState} {tb : VemuTbInfo}
    (h : ¬errorsEnabled enabled env = true) : vemuErrorReplace enabled env tb = (0, env) :=
  if_neg h

theorem errors_enabled_iff (enabled : UInt64) (env : CpuArmState) :
    errorsEnabled enabled env = true ↔ 0 < enabled ∧
      if env.featureM then env.v7mException ≠ 0 ∧ env.v7mControl &&& 1 ≠ 0
      else env.uncachedCpsr &&& cpsrM = armCpuModeUsr := by
  unfold errorsEnabled
  cases env.featureM
  · simp [and_comm]
  · simp [and_comm]

theorem unprivileged_iff (env : CpuArmState) :
    (cpuGetTbCpuState env).2.priv = false ↔
      if env.featureM then env.v7mException = 0 ∧ env.v7mControl &&& 1 ≠ 0
      else env.uncachedCpsr &&& cpsrM = armCpuModeUsr := by
  unfold cpuGetTbCpuState
  cases env.featureM
  · simp
  · simp

theorem follows_iff_agrees (enabled : UInt64) (env : CpuArmState) (tb : VemuTbInfo) :
    FollowsPrivilege enabled env tb ↔ (errorsEnabled enabled env = true ↔
      0 < enabled ∧ (cpuGetTbCpuState env).2.priv = false) := by
  unfold FollowsPrivilege
  rw [error_replace_eq_one]
  refine ⟨fun h ↦ h.1, fun h ↦ ⟨h, ?_⟩⟩
  intro hoff
  rw [error_replace_disabled fun hon ↦ hoff (h.mp hon)]

/-- The helper agrees with the translator, except on an M-profile processor whose threads are
unprivileged: there it takes the handlers for the threads. -/
theorem follows_privilege_iff (vemuErrorsEnabled : UInt64) (env : CpuArmState) (tb : VemuTbInfo) :
    FollowsPrivilege vemuErrorsEnabled env tb ↔
      env.featureM = false ∨ vemuErrorsEnabled = 0 ∨ env.v7mControl &&& 1 = 0 := by
  rw [follows_iff_agrees, errors_enabled_iff, unprivileged_iff]
  have hpos : 0 < vemuErrorsEnabled ↔ vemuErrorsEnabled ≠ 0 := UInt64.pos_iff_ne_zero
  cases env.featureM with
  | false => simp
  | true =>
    simp only [hpos, if_true, reduceCtorEq, false_or]
    constructor
    · intro h
      by_contra hno
      obtain ⟨hon, hthread⟩ := not_or.mp hno
      by_cases hexc : env.v7mException = 0
      · exact (h.mpr ⟨hon, hexc, hthread⟩).2.1 hexc
      · exact hexc (h.mp ⟨hon, hexc, hthread⟩).2.1
    · rintro (hoff | hthread)
      · simp [hoff]
      · simp [hthread]

/-- A Cortex-M core in thread mode, with unprivileged threads. -/
def unprivilegedThread : CpuArmState where
  featureM := true
  featureThumb2 := true
  regs := fun _ ↦ 0
  uncachedCpsr := 0
  v7mException := 0
  v7mControl := 1
  ZF := 1
  CF := 0
  NF := 0
  VF := 0
  thumb := true
  condexecBits := 0
  bswapCode := false
  vecLen := 0
  vecStride := 0
  fpexc := 0

def mulBlock : VemuTbInfo := ⟨0xE0010392, ⟨0x009, "MUL", 0, 1, true⟩⟩

theorem thread_and_handler_swapped :
    ((vemuErrorReplace 1 unprivilegedThread mulBlock).1 = 0 ∧
      (cpuGetTbCpuState unprivilegedThread).2.priv = false) ∧
    ((vemuErrorReplace 1 { unprivilegedThread with v7mException := 3 } mulBlock).1 = 1 ∧
      (cpuGetTbCpuState { unprivilegedThread with v7mException := 3 }).2.priv = true) := by
  decide

/-- The opcode numbers of the shipped tables: the ARM and the Thumb table are numbered by their
index, and the only entry of the Thumb-2 table has a number outside both. -/
structure Numbered (t : Tables) : Prop where
  arm : ∀ i, (t.vemuArmInstr i).opcode.toNat = i.val
  thumb : ∀ i, (t.vemuThumbInstr i).opcode.toNat = i.val
  thumb2 : (t.vemuThumb2Instr 0).opcode = 0xFFF

def called (t : Tables) (vemuErrorsEnabled : UInt64) (env : CpuArmState) (code : Code) :
    List Replacement :=
  let tb := genVemuInfo t code
  if tb.instrInfo.errors && errorsEnabled vemuErrorsEnabled env then
    replacements tb.instrInfo.opcode
  else []

/-- `cond 0000000S dddd xxxx ssss 1001 mmmm`, with a condition. -/
def IsMul (word : UInt32) : Prop :=
  word >>> 28 ≠ 0xF ∧ (word >>> 21) &&& 0x7F = 0 ∧ (word >>> 4) &&& 0xF = 9

/-- `cond 0000001S dddd nnnn ssss 1001 mmmm`, with a condition. -/
def IsMla (word : UInt32) : Prop :=
  word >>> 28 ≠ 0xF ∧ (word >>> 21) &&& 0x7F = 1 ∧ (word >>> 4) &&& 0xF = 9

/-- The multiply functions are called for multiplies only, and take the registers from the word
of the multiply. -/
def OnlyMultiplies (t : Tables) (vemuErrorsEnabled : UInt64) (env : CpuArmState) (code : Code) :
    Prop :=
  (.vemuMul ∈ called t vemuErrorsEnabled env code →
    ∃ word, code = .arm word ∧ IsMul word ∧ (genVemuInfo t code).instrWord = word) ∧
  (.vemuMla ∈ called t vemuErrorsEnabled env code →
    ∃ word, code = .arm word ∧ IsMla word ∧ (genVemuInfo t code).instrWord = word)

/-- What the opcode number takes for a multiply and is none: an ARM word without a condition, a
Thumb `LSR` or `CMP`, and a Thumb branch or prefix that the decoder looks up in the ARM table. -/
def Mistaken : Code → Prop
  | .arm word =>
    word >>> 28 = 0xF ∧ (armOpcode word = vemuOpcodeMul ∨ armOpcode word = vemuOpcodeMla)
  | .thumb hw1 _ =>
    hw1 >>> 8 = 0x09 ∨ hw1 >>> 8 = 0x29 ∨
      ((hw1 >>> 12 = 0xE ∨ hw1 >>> 11 = 0x1F) ∧ (hw1 >>> 4) &&& 0xF = 9)

theorem mul_mem_replacements {opcode : UInt32} :
    .vemuMul ∈ replacements opcode ↔ opcode = vemuOpcodeMul := by
  unfold replacements
  split_ifs with h h' h'' <;> simp [h]

theorem mla_mem_replacements {opcode : UInt32} :
    .vemuMla ∈ replacements opcode ↔ opcode = vemuOpcodeMla := by
  unfold replacements
  split_ifs with h h' h''
  · subst h
    decide
  · simp [h']
  · simp [h']
  · simp [h']

theorem arm_entry_opcode {t : Tables} (ht : Numbered t) (word : UInt32) :
    (vemuTargetDecodeInstr t word .arm).instrInfo.opcode = armOpcode word :=
  UInt32.toNat_inj.mp (ht.arm _)

theorem thumb_entry_opcode {t : Tables} (ht : Numbered t) (word : UInt32) :
    (vemuTargetDecodeInstr t word .thumb).instrInfo.opcode = thumbOpcode word :=
  UInt32.toNat_inj.mp (ht.thumb _)

theorem mul_opcode_iff (word : UInt32) : armOpcode word = vemuOpcodeMul ↔
    word.toNat / 2 ^ 20 % 2 ^ 8 = 0 ∧ word.toNat / 2 ^ 4 % 2 ^ 4 = 9 := by
  rw [← UInt32.toNat_inj, arm_opcode_toNat]
  change _ = 9 ↔ _
  omega

theorem mla_opcode_iff (word : UInt32) : armOpcode word = vemuOpcodeMla ↔
    word.toNat / 2 ^ 20 % 2 ^ 8 = 2 ∧ word.toNat / 2 ^ 4 % 2 ^ 4 = 9 := by
  rw [← UInt32.toNat_inj, arm_opcode_toNat]
  change _ = 0x29 ↔ _
  omega

theorem fields_toNat (word : UInt32) {n : UInt32} :
    ((word >>> 21) &&& 0x7F = n ∧ (word >>> 4) &&& 0xF = 9) ↔
      word.toNat / 2 ^ 21 % 2 ^ 7 = n.toNat ∧ word.toNat / 2 ^ 4 % 2 ^ 4 = 9 := by
  rw [← UInt32.toNat_inj, ← UInt32.toNat_inj, field_toNat word 21 7 rfl rfl (by norm_num),
    field_toNat word 4 4 rfl rfl (by norm_num)]
  rfl

theorem is_mul_of_opcode {word : UInt32} (h : armOpcode word = vemuOpcodeMul) :
    IsMul word ↔ word >>> 28 ≠ 0xF := by
  rw [mul_opcode_iff] at h
  rw [IsMul, fields_toNat]
  refine ⟨fun h ↦ h.1, fun hc ↦ ⟨hc, ?_, h.2⟩⟩
  change _ = 0
  omega

theorem is_mla_of_opcode {word : UInt32} (h : armOpcode word = vemuOpcodeMla) :
    IsMla word ↔ word >>> 28 ≠ 0xF := by
  rw [mla_opcode_iff] at h
  rw [IsMla, fields_toNat]
  refine ⟨fun h ↦ h.1, fun hc ↦ ⟨hc, ?_, h.2⟩⟩
  change _ = 1
  omega

theorem mistaken_thumb_iff (hw1 hw2 : UInt16) : Mistaken (.thumb hw1 hw2) ↔
    hw1.toNat / 2 ^ 8 = 0x09 ∨ hw1.toNat / 2 ^ 8 = 0x29 ∨
      ((hw1.toNat / 2 ^ 12 = 0xE ∨ hw1.toNat / 2 ^ 11 = 0x1F) ∧
        hw1.toNat / 2 ^ 4 % 2 ^ 4 = 9) := by
  simp only [Mistaken, ← UInt16.toNat_inj, UInt16.toNat_and, UInt16.toNat_shiftRight,
    Nat.shiftRight_eq_div_pow]
  have hmask : ∀ n : ℕ, n &&& 0xF = n % 2 ^ 4 := fun n ↦ Nat.and_two_pow_sub_one_eq_mod n 4
  simp only [UInt16.reduceToNat, hmask]

theorem thumb_opcode_iff {t : Tables} (ht : Numbered t) (hw1 hw2 : UInt16) :
    (genVemuInfo t (.thumb hw1 hw2)).instrInfo.opcode = vemuOpcodeMul ∨
      (genVemuInfo t (.thumb hw1 hw2)).instrInfo.opcode = vemuOpcodeMla ↔
    Mistaken (.thumb hw1 hw2) := by
  have hlt := hw1.toNat_lt
  have hx : hw1.toUInt32.toNat = hw1.toNat := UInt16.toNat_toUInt32 hw1
  rw [mistaken_thumb_iff, genVemuInfo, accounted_as_thumb]
  split_ifs with hsmall hpair
  · rw [thumb_entry_opcode ht, ← UInt32.toNat_inj, ← UInt32.toNat_inj, thumb_opcode_toNat, hx]
    change _ = 9 ∨ _ = 0x29 ↔ _
    omega
  · have hout : (vemuTargetDecodeInstr t ((hw1.toUInt32 <<< 16) ||| hw2.toUInt32)
        .thumb2).instrInfo.opcode = 0xFFF := ht.thumb2
    rw [hout]
    constructor
    · rintro (h | h) <;> exact absurd h (by decide)
    · intro h
      omega
  · rw [arm_entry_opcode ht, mul_opcode_iff, mla_opcode_iff, hx]
    omega

theorem called_eq {t : Tables} {enabled : UInt64} {env : CpuArmState} {code : Code}
    (hon : errorsEnabled enabled env = true) :
    called t enabled env code =
      if (genVemuInfo t code).instrInfo.errors then
        replacements (genVemuInfo t code).instrInfo.opcode
      else [] := by
  simp [called, hon]

/-- With injection enabled, only multiplies are replaced by the multiply functions if and only if
no entry is flagged that a mistaken code selects. -/
theorem only_multiplies_iff (t : Tables) (ht : Numbered t) (vemuErrorsEnabled : UInt64)
    (env : CpuArmState) (hon : errorsEnabled vemuErrorsEnabled env = true) (code : Code) :
    OnlyMultiplies t vemuErrorsEnabled env code ↔
      ¬((genVemuInfo t code).instrInfo.errors = true ∧ Mistaken code) := by
  rw [OnlyMultiplies, called_eq hon]
  cases (genVemuInfo t code).instrInfo.errors with
  | false => simp
  | true =>
    simp only [if_true, mul_mem_replacements, mla_mem_replacements, true_and]
    cases code with
    | arm word =>
      have hop : (genVemuInfo t (.arm word)).instrInfo.opcode = armOpcode word :=
        arm_entry_opcode ht word
      have hword : (genVemuInfo t (.arm word)).instrWord = word := rfl
      simp only [hop, hword, Code.arm.injEq, exists_eq_left', and_true, Mistaken]
      constructor
      · rintro ⟨hmul, hmla⟩ ⟨hcond, h | h⟩
        · exact (hmul h).1 hcond
        · exact (hmla h).1 hcond
      · intro h
        refine ⟨fun hmul ↦ (is_mul_of_opcode hmul).mpr ?_,
          fun hmla ↦ (is_mla_of_opcode hmla).mpr ?_⟩
        · exact fun hcond ↦ h ⟨hcond, .inl hmul⟩
        · exact fun hcond ↦ h ⟨hcond, .inr hmla⟩
    | thumb hw1 hw2 =>
      rw [← thumb_opcode_iff ht]
      simp [not_or]

def flagged : Tables where
  vemuArmInstr := fun i ↦ ⟨UInt32.ofNat i, "", 0, 1, true⟩
  vemuThumbInstr := fun i ↦ ⟨UInt32.ofNat i, "", 0, 1, true⟩
  vemuThumb2Instr := fun _ ↦ ⟨0xFFF, "UNKNOWN", 0, 1, true⟩

theorem numbered_flagged : Numbered flagged where
  arm := fun i ↦ UInt32.toNat_ofNat_of_lt (by have := i.isLt; change _ < 2 ^ 32; omega)
  thumb := fun i ↦ UInt32.toNat_ofNat_of_lt (by have := i.isLt; change _ < 2 ^ 32; omega)
  thumb2 := rfl

def userMode : CpuArmState := { unprivilegedThread with
  featureM := false, uncachedCpsr := 0x10, thumb := false }

theorem mul_only_multiplies :
    errorsEnabled 1 userMode = true ∧ OnlyMultiplies flagged 1 userMode (.arm 0xE0010392) := by
  refine ⟨by decide, ?_⟩
  rw [only_multiplies_iff flagged numbered_flagged 1 userMode (by decide)]
  rintro ⟨-, hcond, -⟩
  exact absurd hcond (by decide)

theorem thumb_shift_multiplies :
    errorsEnabled 1 { userMode with thumb := true } = true ∧
    (.vemuMul ∈ called flagged 1 { userMode with thumb := true } (.thumb 0x0900 0)) ∧
    ¬OnlyMultiplies flagged 1 { userMode with thumb := true } (.thumb 0x0900 0) := by
  have hcalled : .vemuMul ∈ called flagged 1 { userMode with thumb := true } (.thumb 0x0900 0) := by
    decide
  refine ⟨by decide, hcalled, fun h ↦ ?_⟩
  obtain ⟨word, hword, -⟩ := h.1 hcalled
  cases hword

end VarEmu.Translator.Errors
