import VarEmu.Translator.Emission

namespace VarEmu.Translator.Injection

open Emulator.State Decode Errors Fetch Emission Library.Bits Library.LabelledCode

def startContext (pc : UInt32) (flags : TbFlags) (singlestepEnabled : Bool) : DisasContext where
  pc := pc
  isJmp := .next
  condjmp := false
  condlabel := 0
  condexecMask := (flags.condexec &&& 0xF) <<< 1
  condexecCond := (flags.condexec &&& 0xFF) >>> 4
  singlestepEnabled := singlestepEnabled
  thumb := flags.thumb
  bswapCode := flags.bswapCode

def armGuards (env : CpuArmState) (insn : UInt32) : List Guard :=
  let cond := insn >>> 28
  if env.featureM then []
  else if cond = 0xF then []
  else if cond ≠ 0xE then [.onCondition cond]
  else []

def itGuards (dc : DisasContext) : List Guard :=
  if dc.condexecMask ≠ 0 ∧ dc.condexecCond ≠ 0xE then [.onCondition dc.condexecCond] else []

def thumbGuards (hw : UInt16) : List Guard :=
  let insn := hw.toUInt32
  let op := (insn >>> 8) &&& 0xF
  if insn >>> 12 = 13 then
    if op = 0xE ∨ op = 0xF then [] else [.onCondition op]
  else if insn >>> 12 = 11 ∧ (op = 1 ∨ op = 3 ∨ op = 9 ∨ op = 11) then
    [.onRegister (reg (insn &&& 7) 0) (insn &&& 0x800 ≠ 0)]
  else []

def thumb2Guards (env : CpuArmState) (hw1 hw2 : UInt16) : List Guard :=
  let insn := (hw1.toUInt32 <<< 16) ||| hw2.toUInt32
  if env.featureThumb2 = true ∧ insn >>> 27 = 0x1E ∧ insn &&& 0x8000 ≠ 0 ∧
      insn &&& 0x5000 = 0 ∧ (insn >>> 23) &&& 7 ≠ 7 then
    [.onCondition ((insn >>> 22) &&& 0xF)]
  else []

/-- The guards of an instruction, in the order in which the translator emits them. -/
def guards (env : CpuArmState) (dc : DisasContext) : Consumed → List Guard
  | .word insn => armGuards env insn
  | .one hw => itGuards dc ++ thumbGuards hw
  | .two hw1 hw2 => itGuards dc ++ thumb2Guards env hw1 hw2

def ifThen (c : Consumed) (dc : DisasContext) : DisasContext :=
  match c with
  | .one hw =>
    let insn := hw.toUInt32
    if insn >>> 8 = 0xBF ∧ insn &&& 0xF ≠ 0 then
      { dc with condexecCond := (insn >>> 4) &&& 0xE, condexecMask := insn &&& 0x1F }
    else dc
  | .word _ | .two _ _ => dc

/-- The state that an IT instruction puts its block into. -/
def itState : Consumed → Option UInt32
  | .one hw =>
    let insn := hw.toUInt32
    if insn >>> 8 = 0xBF ∧ insn &&& 0xF ≠ 0 then some (insn &&& 0xFF) else none
  | .word _ | .two _ _ => none

/-- How the architecture moves on in an IT block. -/
def itAdvance (bits : UInt32) : UInt32 :=
  if bits &&& (7 : UInt32) = 0 then 0
  else (bits &&& (0xE0 : UInt32)) ||| ((bits <<< 1) &&& (0x1F : UInt32))

def advanceCondexec (dc : DisasContext) : DisasContext :=
  if dc.thumb = true ∧ dc.condexecMask ≠ 0 then
    let cond := (dc.condexecCond &&& (0xE : UInt32)) ||| ((dc.condexecMask >>> 4) &&& (1 : UInt32))
    let mask := (dc.condexecMask <<< 1) &&& 0x1F
    { dc with condexecMask := mask, condexecCond := if mask = 0 then 0 else cond }
  else dc

/-- A block of one instruction, and what it is translated with: the label to be given next, the
instruction behind its guards, and what the accounting does to the rest of the emulator. -/
structure Block (M : Type) where
  tables : Tables
  memory : CodeMemory
  env : CpuArmState
  pc : UInt32
  flags : TbFlags
  singlestepEnabled : Bool
  lastIo : Bool
  nbLabels : ℕ
  body : Body M
  account : VemuTbInfo → M → M

variable {M : Type}

namespace Block

variable (b : Block M)

def start : DisasContext := startContext b.pc b.flags b.singlestepEnabled

def slot : VemuTbInfo := genVemuInfo b.tables (codeAt b.memory b.start)

def consumed : Consumed := (disasInsn b.memory b.env b.start).1

def nextPc : UInt32 := (disasInsn b.memory b.env b.start).2.pc

/-- The bits a state has in which the block is entered. -/
def entryBits : UInt32 := b.flags.condexec &&& 0xFF

/-- The bits behind an instruction that has left them alone. -/
def nextBits : UInt32 := if b.flags.thumb then itAdvance b.entryBits else b.entryBits

def instrGuards : List Guard := guards b.env b.start b.consumed

def passes (s : Machine M) : Bool := b.instrGuards.all (·.passes s.env)

def counted (s : Machine M) : Machine M := { s with rest := b.account b.slot s.rest }

def prologue : List (TcgOp M) :=
  (if b.start.condexecMask ≠ 0 ∨ b.start.condexecCond ≠ 0 then [storeCondexecBits 0] else []) ++
    [.exec fun s ↦ (b.counted s, none)]

def afterInsn (dc : DisasContext) : DisasContext :=
  advanceCondexec (ifThen b.consumed { dc with pc := b.nextPc, isJmp := b.body.isJmp })

/-- The code of the block, with or without the call of the replacement. There is none where the
translator aborts. -/
def gen (replace : Bool) : Option (List (TcgOp M)) := do
  let g : Gen M := ⟨b.start, b.nbLabels, b.prologue⟩
  let g := if replace then genVemuErrorReplace b.slot g else g
  let g ← b.instrGuards.foldlM genGuard g
  let rest ← finish b.lastIo b.body (b.afterInsn g.dc)
  some (g.code ++ rest)

end Block

def replaced (tb : VemuTbInfo) (s : Machine M) : Machine M :=
  { s with env := (vemuErrorReplace s.vemuErrorsEnabled s.env tb).2 }

/-- The block is left for the instruction behind it, with the program counter and the
conditional-execution bits moved on, and with nothing else changed. -/
def GoesOn (b : Block M) (s : Machine M) (c : Status Exit × Machine M) : Prop :=
  c = (.left (stepExit b.singlestepEnabled),
    withCondexecBits b.nextBits (withPc b.nextPc s))

/-- The code that is emitted for a flagged instruction skips it when its condition fails, replaces
it when injection is enabled, and does what the original does otherwise. -/
def RespectsCondition (b : Block M) : Prop :=
  ∃ code, b.gen b.slot.instrInfo.errors = some code ∧ WellPlaced code ∧
    ∀ s : Machine M, s.env.condexecBits = b.entryBits →
    (b.passes s = false → GoesOn b (b.counted s) (run (.running, s) code)) ∧
    (b.passes s = true → errorsEnabled s.vemuErrorsEnabled s.env = true →
      GoesOn b (b.counted (replaced b.slot s)) (run (.running, s) code)) ∧
    (b.passes s = true → errorsEnabled s.vemuErrorsEnabled s.env = false →
      ∃ original, b.gen false = some original ∧
        run (.running, s) code = run (.running, s) original)

/-- What the code of a block leaves in the conditional-execution bits, which it clears first. -/
def bitsOf (dc : DisasContext) : UInt32 :=
  if dc.condexecMask ≠ 0 then (dc.condexecCond <<< 4) ||| (dc.condexecMask >>> 1) else 0

section Bits

theorem low_byte (x : UInt32) : ∃ n : Fin 256, x &&& 0xFF = UInt32.ofNat n.val :=
  ⟨⟨(x &&& 0xFF).toNat, and_lt x (by decide)⟩, UInt32.ofNat_toNat.symm⟩

theorem entry_fields (bits : UInt32) : (bits &&& 0xFF) &&& 0xF = bits &&& 0xF := by
  rw [UInt32.and_assoc]
  rfl

/-- The translator's fields alone, with the instruction set. -/
def fields (thumb : Bool) (mask cond : UInt32) : DisasContext :=
  ⟨0, .next, false, 0, mask, cond, false, thumb, false⟩

theorem bits_of_advance (dc : DisasContext) : bitsOf (advanceCondexec dc) =
    bitsOf (advanceCondexec (fields dc.thumb dc.condexecMask dc.condexecCond)) := by
  unfold advanceCondexec fields
  dsimp only
  split_ifs <;> rfl

theorem advance_thumb : ∀ n : Fin 256,
    bitsOf (advanceCondexec (fields true ((UInt32.ofNat n.val &&& 0xF) <<< 1)
      (UInt32.ofNat n.val >>> 4))) = itAdvance (UInt32.ofNat n.val) := by
  decide +kernel

theorem advance_arm : ∀ n : Fin 256,
    bitsOf (advanceCondexec (fields false ((UInt32.ofNat n.val &&& 0xF) <<< 1)
      (UInt32.ofNat n.val >>> 4))) =
        if UInt32.ofNat n.val &&& 0xF = 0 then 0 else UInt32.ofNat n.val := by
  decide +kernel

theorem advance_it : ∀ n : Fin 256, UInt32.ofNat (0xBF00 + n.val) &&& 0xF ≠ 0 →
    bitsOf (advanceCondexec (fields true (UInt32.ofNat (0xBF00 + n.val) &&& 0x1F)
      ((UInt32.ofNat (0xBF00 + n.val) >>> 4) &&& 0xE))) =
        UInt32.ofNat (0xBF00 + n.val) &&& 0xFF := by
  decide +kernel

variable (b : Block M)

def Block.storedBits : UInt32 := bitsOf (b.afterInsn b.start)

variable {b}

theorem start_fields : ∃ n : Fin 256, b.entryBits = UInt32.ofNat n.val ∧
    b.start.condexecMask = (UInt32.ofNat n.val &&& 0xF) <<< 1 ∧
    b.start.condexecCond = UInt32.ofNat n.val >>> 4 := by
  obtain ⟨n, hn⟩ := low_byte b.flags.condexec
  refine ⟨n, hn, ?_, ?_⟩
  · rw [← hn, entry_fields]
    rfl
  · rw [← hn]
    rfl

theorem cleared_entry (h : ¬(b.start.condexecMask ≠ 0 ∨ b.start.condexecCond ≠ 0)) :
    b.entryBits = 0 := by
  have hall : ∀ n : Fin 256, (UInt32.ofNat n.val &&& 0xF) <<< 1 = 0 →
      UInt32.ofNat n.val >>> 4 = 0 → UInt32.ofNat n.val = 0 := by decide +kernel
  obtain ⟨n, hn, hmask, hcond⟩ := start_fields (b := b)
  rw [not_or, not_not, not_not, hmask, hcond] at h
  rw [hn, hall n h.1 h.2]

theorem stored_bits_plain (h : itState b.consumed = none) :
    b.storedBits = if b.flags.thumb then itAdvance b.entryBits
      else if b.entryBits &&& 0xF = 0 then 0 else b.entryBits := by
  have hplain : ∀ dc, ifThen b.consumed dc = dc := by
    intro dc
    cases hc : b.consumed with
    | word insn | two hw1 hw2 => rfl
    | one hw =>
      rw [hc, itState] at h
      rw [ifThen]
      split_ifs at h with hit
      exact if_neg hit
  obtain ⟨n, hn, hmask, hcond⟩ := start_fields (b := b)
  rw [Block.storedBits, Block.afterInsn, hplain, bits_of_advance]
  dsimp only
  rw [hmask, hcond, hn]
  change bitsOf (advanceCondexec (fields b.flags.thumb _ _)) = _
  cases b.flags.thumb with
  | true => exact advance_thumb n
  | false => exact advance_arm n

theorem consumed_one {hw : UInt16} (h : b.consumed = .one hw) : b.flags.thumb = true := by
  cases hthumb : b.flags.thumb with
  | true => rfl
  | false =>
    have hstart : b.start.thumb = false := hthumb
    simp [Block.consumed, disasInsn, hstart, disasArmInsn] at h

theorem it_halfword {hw : UInt16} (h : hw.toUInt32 >>> 8 = 0xBF) :
    ∃ n : Fin 256, hw.toUInt32 = UInt32.ofNat (0xBF00 + n.val) := by
  have hhigh : hw.toUInt32.toNat / 2 ^ 8 = 0xBF := by
    have hshift : (hw.toUInt32 >>> 8).toNat = hw.toUInt32.toNat / 2 ^ 8 :=
      shift_toNat _ 8 rfl (by norm_num)
    rw [← hshift, h]
    rfl
  have hsum : 0xBF00 + hw.toUInt32.toNat % 256 = hw.toUInt32.toNat := by omega
  exact ⟨⟨hw.toUInt32.toNat % 256, Nat.mod_lt _ (by norm_num)⟩,
    (congrArg UInt32.ofNat hsum |>.trans UInt32.ofNat_toNat).symm⟩

theorem stored_bits_it {bits : UInt32} (h : itState b.consumed = some bits) :
    b.flags.thumb = true ∧ b.storedBits = bits := by
  cases hc : b.consumed with
  | word insn | two hw1 hw2 => simp [hc, itState] at h
  | one hw =>
    rw [hc, itState] at h
    split_ifs at h with hit
    have hthumb : b.start.thumb = true := consumed_one hc
    refine ⟨consumed_one hc, ?_⟩
    obtain ⟨n, hn⟩ := it_halfword hit.1
    have hbits := advance_it n (hn ▸ hit.2)
    rw [← hn] at hbits
    rw [← Option.some.inj h, ← hbits, Block.storedBits, Block.afterInsn, hc, ifThen]
    dsimp only
    rw [if_pos hit, bits_of_advance]
    dsimp only
    rw [hthumb]

/-- The bits come out right unless the instruction sets them itself, or the state is none of the
architecture's. -/
theorem stored_bits_iff : b.storedBits = b.nextBits ↔
    (∀ bits, itState b.consumed = some bits → bits = b.nextBits) ∧
    (b.flags.thumb = false → b.entryBits = 0 ∨ b.entryBits &&& 0xF ≠ 0) := by
  cases hit : itState b.consumed with
  | some bits =>
    obtain ⟨hthumb, hstored⟩ := stored_bits_it hit
    simp [hstored, hthumb]
  | none =>
    rw [stored_bits_plain hit, Block.nextBits]
    cases b.flags.thumb with
    | true => simp
    | false =>
      by_cases hlow : b.entryBits &&& 0xF = 0
      · simp [hlow, eq_comm]
      · simp [hlow]

end Bits

section Block

variable {b : Block M} {s s' : Machine M} {code : List (TcgOp M)} {tb : VemuTbInfo} {bits : UInt32}

theorem prologue_labels : branches b.prologue = [] ∧ placed b.prologue = [] := by
  unfold Block.prologue
  split_ifs <;> exact ⟨rfl, rfl⟩

theorem run_prologue (hs : s.env.condexecBits = b.entryBits) : run (.running, s) b.prologue =
    (.running, withCondexecBits 0 (b.counted s)) := by
  unfold Block.prologue
  split_ifs with h
  · rfl
  · rw [cleared_entry h] at hs
    rw [← hs]
    rfl

theorem after_insn_frame (dc : DisasContext) :
    (b.afterInsn dc).pc = b.nextPc ∧ (b.afterInsn dc).isJmp = b.body.isJmp ∧
    (b.afterInsn dc).condjmp = dc.condjmp ∧ (b.afterInsn dc).condlabel = dc.condlabel ∧
    (b.afterInsn dc).singlestepEnabled = dc.singlestepEnabled := by
  unfold Block.afterInsn advanceCondexec ifThen
  cases b.consumed with
  | word insn | two hw1 hw2 =>
    dsimp only
    split_ifs <;> exact ⟨rfl, rfl, rfl, rfl, rfl⟩
  | one hw =>
    dsimp only
    split_ifs <;> exact ⟨rfl, rfl, rfl, rfl, rfl⟩

theorem after_insn_slot (dc : DisasContext) (label : ℕ) (skip : Bool) :
    b.afterInsn { dc with condlabel := label, condjmp := skip } =
      { b.afterInsn dc with condlabel := label, condjmp := skip } := by
  unfold Block.afterInsn advanceCondexec ifThen
  cases b.consumed with
  | word insn | two hw1 hw2 =>
    dsimp only
    split_ifs <;> rfl
  | one hw =>
    dsimp only
    split_ifs <;> rfl

theorem epilogue_without_slot (dc : DisasContext) (label : ℕ) :
    genEpilogue (M := M) { dc with condlabel := label, condjmp := false } =
      genEpilogue { dc with condjmp := false } := by
  have hset : genSetCondexec (M := M) { dc with condlabel := label, condjmp := false } =
    genSetCondexec { dc with condjmp := false } := rfl
  have hend : endOfBlock (M := M) { dc with condlabel := label, condjmp := false } =
    endOfBlock { dc with condjmp := false } := rfl
  simp only [genEpilogue, hset, hend, Bool.false_eq_true, if_false]

theorem error_replace_skips (tb : VemuTbInfo) (label : ℕ) :
    Skips label [errorReplaceOp tb label]
      (fun s : Machine M ↦ errorsEnabled s.vemuErrorsEnabled s.env) (replaced tb) where
  newer := by simp [errorReplaceOp]
  branches := by simp [errorReplaceOp]
  run := by
    intro s
    simp only [errorReplaceOp, run_cons, run_nil, step, replaced]
    cases h : errorsEnabled s.vemuErrorsEnabled s.env <;> simp [vemuErrorReplace, h]

theorem error_replace_condexec (enabled : UInt64) (env : CpuArmState) (tb : VemuTbInfo)
    (bits : UInt32) :
    (vemuErrorReplace enabled { env with condexecBits := bits } tb).2 =
      { (vemuErrorReplace enabled env tb).2 with condexecBits := bits } := by
  have hon : errorsEnabled enabled { env with condexecBits := bits } =
    errorsEnabled enabled env := rfl
  unfold vemuErrorReplace
  rw [hon]
  split_ifs
  · unfold replacements
    split_ifs <;> rfl
  · rfl

theorem replaced_condexec :
    replaced tb (withCondexecBits bits s) = withCondexecBits bits (replaced tb s) := by
  unfold replaced withCondexecBits
  rw [error_replace_condexec]

theorem with_condexec_cleared (dc : DisasContext) (val : UInt32) :
    withCondexec dc (withPc val (withCondexecBits 0 s)) =
      withCondexecBits (bitsOf dc) (withPc val s) := by
  unfold withCondexec bitsOf
  split_ifs <;> rfl

theorem condexec_bits_inj {x y : UInt32} (h : withCondexecBits x s = withCondexecBits y s) :
    x = y :=
  congrArg (fun t ↦ t.env.condexecBits) h

theorem raised_debug {isJmp : IsJmp} :
    raised isJmp = .exception excpDebug ↔ ¬(isJmp = .swi ∨ isJmp = .smc) := by
  cases isJmp <;> decide

def hooked (b : Block M) : DisasContext :=
  { b.afterInsn b.start with condlabel := b.nbLabels, condjmp := true }

theorem gen_replace (hguards : b.instrGuards = []) :
    b.gen true = (finish b.lastIo b.body (hooked b)).map fun rest ↦
      b.prologue ++ [errorReplaceOp b.slot b.nbLabels] ++ rest := by
  unfold Block.gen hooked
  rw [hguards, ← after_insn_slot, Option.map_eq_bind]
  rfl

theorem gen_original (hguards : b.instrGuards = []) :
    b.gen false =
      some (b.prologue ++ .exec b.body.effect :: genEpilogue (b.afterInsn b.start)) := by
  have hjmp : (b.afterInsn b.start).condjmp = false := (after_insn_frame b.start).2.2.1
  unfold Block.gen
  rw [hguards]
  simp [finish_unskipped hjmp]

theorem finish_hooked_none :
    finish b.lastIo b.body (hooked b) = none ↔ b.lastIo = true ∧ b.body.isJmp ≠ .next := by
  have hjmp : (hooked b).isJmp = b.body.isJmp := (after_insn_frame b.start).2.1
  have hcond : (hooked b).condjmp = true := rfl
  unfold finish afterLabel
  by_cases hnext : b.body.isJmp = .next
  · simp [hcond, hjmp, hnext]
  · simp [hcond, hjmp, hnext]

theorem hooked_epilogue : genEpilogue (M := M) { hooked b with condjmp := false } =
    genEpilogue (b.afterInsn b.start) := by
  have hoff : (b.afterInsn b.start).condjmp = false := (after_insn_frame b.start).2.2.1
  have hdc : b.afterInsn b.start = { b.afterInsn b.start with condjmp := false } := by
    rw [← hoff]
  exact (epilogue_without_slot (b.afterInsn b.start) b.nbLabels).trans
    (congrArg genEpilogue hdc.symm)

theorem run_hooked (hguards : b.instrGuards = []) (hgen : b.gen true = some code)
    (hs : s.env.condexecBits = b.entryBits) :
    run (.running, s) code =
      if errorsEnabled s.vemuErrorsEnabled s.env then
        (.left (if b.singlestepEnabled then raised b.body.isJmp else .nextTb),
          withCondexecBits b.storedBits (withPc b.nextPc (b.counted (replaced b.slot s))))
      else
        run (.running, withCondexecBits 0 (b.counted s))
          (.exec b.body.effect :: genEpilogue (b.afterInsn b.start)) := by
  rw [gen_replace hguards, Option.map_eq_some_iff] at hgen
  obtain ⟨rest, hfin, rfl⟩ := hgen
  have hjmp : (hooked b).isJmp = b.body.isJmp := (after_insn_frame b.start).2.1
  have hpc : (hooked b).pc = b.nextPc := (after_insn_frame b.start).1
  have hsingle : (hooked b).singlestepEnabled = b.singlestepEnabled :=
    (after_insn_frame b.start).2.2.2.2
  have hon : errorsEnabled (withCondexecBits 0 (b.counted s)).vemuErrorsEnabled
      (withCondexecBits 0 (b.counted s)).env = errorsEnabled s.vemuErrorsEnabled s.env := rfl
  rw [List.append_assoc, run_append, run_prologue hs,
    run_slot (error_replace_skips b.slot b.nbLabels) rfl hjmp hfin, hon]
  cases henabled : errorsEnabled s.vemuErrorsEnabled s.env with
  | true =>
    rw [if_pos rfl, if_pos rfl, hjmp, hpc, hsingle, replaced_condexec, with_condexec_cleared]
    rfl
  | false =>
    have hsame : replaced b.slot (withCondexecBits 0 (b.counted s)) =
        withCondexecBits 0 (b.counted s) := by
      unfold replaced
      rw [error_replace_disabled (by rw [hon, henabled]; exact Bool.false_ne_true)]
    rw [if_neg Bool.false_ne_true, if_neg Bool.false_ne_true, hsame, hooked_epilogue]

/-- Where a guard follows the replacement, the label of the replacement is lost. -/
theorem guarded_not_well_placed (hguards : b.instrGuards ≠ []) (hgen : b.gen true = some code) :
    ¬WellPlaced code := by
  unfold Block.gen at hgen
  simp only [if_true, Option.bind_eq_bind, Option.bind_eq_some_iff, Option.some.injEq] at hgen
  obtain ⟨g, hg, rest, hfin, rfl⟩ := hgen
  obtain ⟨ops, hcode, hplaced, hslot⟩ := guards_labels hg
  have hlabel : (b.afterInsn g.dc).condlabel = g.dc.condlabel := (after_insn_frame g.dc).2.2.2.1
  have hlt : b.nbLabels < g.dc.condlabel := hslot hguards
  have hpro : placed (genVemuErrorReplace b.slot
      (⟨b.start, b.nbLabels, b.prologue⟩ : Gen M)).code = [] := by
    simp [genVemuErrorReplace, Gen.emit, Gen.takeSlot, errorReplaceOp, prologue_labels.2]
  rw [hcode]
  refine not_well_placed b.nbLabels ?_ ?_
  · simp [genVemuErrorReplace, Gen.emit, errorReplaceOp]
  · rw [placed_append, placed_append, hpro, (finish_labels hfin).1, hlabel]
    simp only [List.nil_append, List.mem_append, not_or]
    refine ⟨fun hmem ↦ absurd (hplaced _ hmem) (Nat.not_succ_le_self _), ?_⟩
    split_ifs
    · simpa using hlt.ne
    · exact List.not_mem_nil

theorem unguarded_passes (hguards : b.instrGuards = []) (s : Machine M) : b.passes s = true := by
  simp [Block.passes, hguards]

theorem skip_exit
    (h : ¬(b.singlestepEnabled = true ∧ (b.body.isJmp = .swi ∨ b.body.isJmp = .smc))) :
    (if b.singlestepEnabled then raised b.body.isJmp else .nextTb) =
      stepExit b.singlestepEnabled := by
  unfold stepExit
  cases hsingle : b.singlestepEnabled with
  | false => rfl
  | true => exact raised_debug.mpr fun htrap ↦ h ⟨hsingle, htrap⟩

theorem hooked_well_placed (hguards : b.instrGuards = []) (hgen : b.gen true = some code) :
    WellPlaced code := by
  rw [gen_replace hguards, Option.map_eq_some_iff] at hgen
  obtain ⟨rest, hfin, rfl⟩ := hgen
  obtain ⟨hplaced, hbranches⟩ := finish_labels hfin
  exact well_placed_of_skips (error_replace_skips b.slot b.nbLabels) prologue_labels
    ⟨hbranches, hplaced⟩

/-- A state in which a block is entered with injection on. -/
def injecting [Inhabited M] (b : Block M) : Machine M :=
  ⟨{ userMode with condexecBits := b.entryBits }, 1, default⟩

theorem injecting_on [Inhabited M] (b : Block M) :
    errorsEnabled (injecting b).vemuErrorsEnabled (injecting b).env = true := by
  have hon : errorsEnabled 1 userMode = true := by decide
  exact hon

/-- A flagged instruction respects its condition if and only if it has none, unless it is a trap
under the debugger, ends a block that is to end with an access to a device, sets the
conditional-execution bits itself, or finds bits in them that ARM state does not have. -/
theorem respects_condition_iff [Inhabited M] (b : Block M)
    (hflag : b.slot.instrInfo.errors = true) :
    RespectsCondition b ↔ b.instrGuards = [] ∧
      ¬(b.singlestepEnabled = true ∧ (b.body.isJmp = .swi ∨ b.body.isJmp = .smc)) ∧
      ¬(b.lastIo = true ∧ b.body.isJmp ≠ .next) ∧
      (∀ bits, itState b.consumed = some bits → bits = b.nextBits) ∧
      (b.flags.thumb = false → b.entryBits = 0 ∨ b.entryBits &&& 0xF ≠ 0) := by
  unfold RespectsCondition
  rw [hflag, ← stored_bits_iff]
  constructor
  · rintro ⟨code, hgen, hplaced, hrun⟩
    have hguards : b.instrGuards = [] := by
      by_contra hne
      exact guarded_not_well_placed hne hgen hplaced
    -- Any state with injection on will do: the replaced trap still raises its exception, and the
    -- bits of an IT instruction are stored although it is replaced.
    have hgoes : GoesOn b _ _ :=
      (hrun (injecting b) rfl).2.1 (unguarded_passes hguards _) (injecting_on b)
    rw [GoesOn, run_hooked hguards hgen rfl, if_pos (injecting_on b), Prod.mk.injEq] at hgoes
    refine ⟨hguards, ?_, ?_, condexec_bits_inj hgoes.2⟩
    · rintro ⟨hsingle, htrap⟩
      have hexit := hgoes.1
      simp only [hsingle, if_true, stepExit, Status.left.injEq] at hexit
      exact raised_debug.mp hexit htrap
    · intro hio
      rw [gen_replace hguards, finish_hooked_none.mpr hio] at hgen
      cases hgen
  · rintro ⟨hguards, htrap, hio, hbits⟩
    cases hgen : b.gen true with
    | none =>
      rw [gen_replace hguards, Option.map_eq_none_iff] at hgen
      exact absurd (finish_hooked_none.mp hgen) hio
    | some code =>
      refine ⟨code, rfl, hooked_well_placed hguards hgen, fun s hs ↦ ⟨?_, ?_, ?_⟩⟩
      · intro hfail
        rw [unguarded_passes hguards] at hfail
        cases hfail
      · intro _ hon
        rw [GoesOn, run_hooked hguards hgen hs, if_pos hon, skip_exit htrap, hbits]
      · intro _ hoff
        refine ⟨_, gen_original hguards, ?_⟩
        rw [run_hooked hguards hgen hs, hoff, run_append, run_prologue hs]
        rfl

theorem guard_passes_condexec {guard : Guard} :
    guard.passes (withCondexecBits bits (b.counted s)).env = guard.passes s.env := by
  cases guard <;> rfl

/-- The translator's own code, with no replacement in it, skips an instruction exactly when its
guard fails. -/
theorem original_respects_guard {guard : Guard} (hguards : b.instrGuards = [guard])
    (htrap : ¬(b.singlestepEnabled = true ∧ (b.body.isJmp = .swi ∨ b.body.isJmp = .smc)))
    (hbits : b.storedBits = b.nextBits) (hgen : b.gen false = some code) :
    WellPlaced code ∧ ∀ s, s.env.condexecBits = b.entryBits →
      if guard.passes s.env then
        run (.running, s) code = run (.running, s)
          (b.prologue ++ .exec b.body.effect :: genEpilogue (b.afterInsn b.start))
      else GoesOn b (b.counted s) (run (.running, s) code) := by
  unfold Block.gen at hgen
  simp only [hguards, List.foldlM_cons, List.foldlM_nil, Option.bind_eq_bind,
    Option.bind_eq_some_iff, Option.some.injEq, Bool.false_eq_true, if_false] at hgen
  obtain ⟨g, ⟨g', hguard, hg⟩, rest, hfin, rfl⟩ := hgen
  cases hg
  obtain ⟨ops, hcode, hskips, -, hdc⟩ := guard_skips hguard
  have hhook : b.afterInsn g.dc = hooked b := by
    rw [hdc]
    exact after_insn_slot b.start b.nbLabels true
  rw [hhook] at hfin
  rw [hcode]
  refine ⟨well_placed_of_skips hskips prologue_labels (finish_labels hfin).symm, fun s hs ↦ ?_⟩
  have hjmp : (hooked b).isJmp = b.body.isJmp := (after_insn_frame b.start).2.1
  have hpc : (hooked b).pc = b.nextPc := (after_insn_frame b.start).1
  have hsingle : (hooked b).singlestepEnabled = b.singlestepEnabled :=
    (after_insn_frame b.start).2.2.2.2
  have hstart : ∀ after, run (.running, s) (b.prologue ++ after) =
      run (.running, withCondexecBits 0 (b.counted s)) after := by
    intro after
    rw [run_append, run_prologue hs]
  rw [List.append_assoc, hstart, hstart, run_slot hskips rfl hjmp hfin, guard_passes_condexec]
  cases guard.passes s.env with
  | true => exact congrArg (run _) (congrArg _ hooked_epilogue)
  | false =>
    rw [GoesOn, hjmp, hpc, hsingle, skip_exit htrap, ← hbits]
    exact congrArg (Prod.mk _) (with_condexec_cleared (hooked b) b.nextPc)

end Block

def mulUnder (cond : UInt32) : Block Unit where
  tables := flagged
  memory := ⟨fun _ ↦ (cond <<< 28) ||| 0x00010392, fun _ ↦ 0⟩
  env := userMode
  pc := 0x8000
  flags := (cpuGetTbCpuState userMode).2
  singlestepEnabled := false
  lastIo := false
  nbLabels := 0
  body :=
    { effect := fun s ↦ ({ s with env := { s.env with
        regs := Function.update s.env.regs 1 (s.env.regs 2 * s.env.regs 3) } }, none)
      isJmp := .next
      leaves := nofun }
  account := fun _ ↦ id

theorem mul_respects_condition :
    (mulUnder 0xE).slot.instrInfo.errors = true ∧ RespectsCondition (mulUnder 0xE) :=
  ⟨rfl, (respects_condition_iff (mulUnder 0xE) rfl).mpr
    ⟨by decide, by decide, by decide, nofun, fun _ ↦ .inl rfl⟩⟩

def numbered : Machine Unit := ⟨{ userMode with regs := fun r ↦ r.val.toUInt32 }, 1, ()⟩

/-- `MULEQ r1, r2, r3` is not to be executed, but writes `r1` and branches nowhere. -/
theorem failed_mul_replaced : ∃ code,
    (mulUnder 0x0).gen (mulUnder 0x0).slot.instrInfo.errors = some code ∧ ¬WellPlaced code ∧
    (mulUnder 0x0).passes numbered = false ∧ (run (.running, numbered) code).1 = .skipping 0 ∧
    numbered.env.regs 1 = 1 ∧ (run (.running, numbered) code).2.env.regs 1 = 5 :=
  ⟨_, rfl, guarded_not_well_placed (b := mulUnder 0x0) (by decide) rfl, by decide, rfl, rfl, rfl⟩

end VarEmu.Translator.Injection
