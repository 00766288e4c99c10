import VarEmu.Library.LabelledCode
import VarEmu.Translator.Fetch

namespace VarEmu.Translator.Emission

open Emulator.State Errors Fetch Library.LabelledCode

/-- What the emitted code works on: the processor, the switch of the fault injection, and the rest
of the emulator. -/
structure Machine (M : Type) where
  env : CpuArmState
  vemuErrorsEnabled : UInt64
  rest : M

abbrev excpSwi : ℕ := 2

abbrev excpSmc : ℕ := 11

abbrev excpDebug : ℕ := 0x10002

inductive Exit
  | nextTb
  | exception (excp : ℕ)
  | halted
  deriving DecidableEq

abbrev TcgOp (M : Type) := Op (Machine M) Exit

/-- The tests by which an instruction skips itself: on a condition, and on a register that must
or must not be zero. -/
inductive Guard
  | onCondition (cond : UInt32)
  | onRegister (rm : Fin 16) (nonzero : Bool)
  deriving DecidableEq

def holds (z c n v : Bool) : ℕ → Bool
  | 0 => z
  | 1 => !z
  | 2 => c
  | 3 => !c
  | 4 => n
  | 5 => !n
  | 6 => v
  | 7 => !v
  | 8 => c && !z
  | 9 => !(c && !z)
  | 10 => n == v
  | 11 => n != v
  | 12 => !z && n == v
  | 13 => !(!z && n == v)
  | _ => true

def conditionPassed (env : CpuArmState) (cond : UInt32) : Bool :=
  holds (env.ZF = 0) (env.CF ≠ 0) (env.NF < 0) (env.VF < 0) cond.toNat

def Guard.passes (env : CpuArmState) : Guard → Bool
  | .onCondition cond => conditionPassed env cond
  | .onRegister rm nonzero => if nonzero then env.regs rm ≠ 0 else env.regs rm = 0

section Emission

variable {M : Type}

def brcond (test : CpuArmState → Bool) (label : ℕ) : TcgOp M :=
  .branch (fun s ↦ (s, test s.env)) label

/-- The branches to a label on a condition, and the labels in use afterwards. Two of the
conditions need a label of their own. -/
def genTestCc (cc : UInt32) (label nbLabels : ℕ) : Option (List (TcgOp M) × ℕ) :=
  match cc.toNat with
  | 0 => some ([brcond (fun env ↦ env.ZF = 0) label], nbLabels)
  | 1 => some ([brcond (fun env ↦ env.ZF ≠ 0) label], nbLabels)
  | 2 => some ([brcond (fun env ↦ env.CF ≠ 0) label], nbLabels)
  | 3 => some ([brcond (fun env ↦ env.CF = 0) label], nbLabels)
  | 4 => some ([brcond (fun env ↦ env.NF < 0) label], nbLabels)
  | 5 => some ([brcond (fun env ↦ env.NF ≥ 0) label], nbLabels)
  | 6 => some ([brcond (fun env ↦ env.VF < 0) label], nbLabels)
  | 7 => some ([brcond (fun env ↦ env.VF ≥ 0) label], nbLabels)
  | 8 =>
    let inv := nbLabels
    some ([brcond (fun env ↦ env.CF = 0) inv, brcond (fun env ↦ env.ZF ≠ 0) label, .label inv],
      nbLabels + 1)
  | 9 => some ([brcond (fun env ↦ env.CF = 0) label, brcond (fun env ↦ env.ZF = 0) label], nbLabels)
  | 10 => some ([brcond (fun env ↦ env.VF ^^^ env.NF ≥ 0) label], nbLabels)
  | 11 => some ([brcond (fun env ↦ env.VF ^^^ env.NF < 0) label], nbLabels)
  | 12 =>
    let inv := nbLabels
    some ([brcond (fun env ↦ env.ZF = 0) inv, brcond (fun env ↦ env.VF ^^^ env.NF ≥ 0) label,
      .label inv], nbLabels + 1)
  | 13 =>
    some ([brcond (fun env ↦ env.ZF = 0) label, brcond (fun env ↦ env.VF ^^^ env.NF < 0) label],
      nbLabels)
  | _ => none

structure Gen (M : Type) where
  dc : DisasContext
  nbLabels : ℕ
  code : List (TcgOp M)

/-- A new label in the only slot there is for one. -/
def Gen.takeSlot (g : Gen M) : Gen M where
  dc := { g.dc with condlabel := g.nbLabels, condjmp := true }
  nbLabels := g.nbLabels + 1
  code := g.code

def Gen.emit (g : Gen M) (ops : List (TcgOp M)) : Gen M := { g with code := g.code ++ ops }

def errorReplaceOp (tb : VemuTbInfo) (label : ℕ) : TcgOp M :=
  .branch (fun s ↦
    let r := vemuErrorReplace s.vemuErrorsEnabled s.env tb
    ({ s with env := r.2 }, r.1 ≠ 0)) label

def genVemuErrorReplace (tb : VemuTbInfo) (g : Gen M) : Gen M :=
  g.takeSlot.emit [errorReplaceOp tb g.nbLabels]

def genGuard (g : Gen M) : Guard → Option (Gen M)
  | .onCondition cond => do
    let (ops, nbLabels) ← genTestCc (cond ^^^ 1) g.nbLabels (g.nbLabels + 1)
    some { g.takeSlot.emit ops with nbLabels }
  | .onRegister rm nonzero =>
    some (g.takeSlot.emit [brcond (fun env ↦
      if nonzero then env.regs rm = 0 else env.regs rm ≠ 0) g.nbLabels])

def withPc (val : UInt32) (s : Machine M) : Machine M :=
  { s with env := { s.env with regs := Function.update s.env.regs 15 val } }

def withCondexecBits (val : UInt32) (s : Machine M) : Machine M :=
  { s with env := { s.env with condexecBits := val } }

def genSetPcIm (val : UInt32) : TcgOp M := .exec fun s ↦ (withPc val s, none)

def storeCondexecBits (val : UInt32) : TcgOp M := .exec fun s ↦ (withCondexecBits val s, none)

def leave (exit : Exit) : TcgOp M := .exec fun s ↦ (s, some exit)

/-- The next block is entered with the program counter at `dest`, through a direct jump or not. -/
def genGotoTb (dest : UInt32) : List (TcgOp M) := [genSetPcIm dest, leave .nextTb]

def genSetCondexec (dc : DisasContext) : List (TcgOp M) :=
  if dc.condexecMask ≠ 0 then
    [storeCondexecBits ((dc.condexecCond <<< 4) ||| (dc.condexecMask >>> 1))]
  else []

def raised : IsJmp → Exit
  | .swi => .exception excpSwi
  | .smc => .exception excpSmc
  | .next | .jump | .update | .tbJump | .wfi => .exception excpDebug

def endOfBlock (dc : DisasContext) : List (TcgOp M) :=
  match dc.isJmp with
  | .next => genGotoTb dc.pc
  | .jump | .update => [leave .nextTb]
  | .tbJump => []
  | .wfi => [leave .halted]
  | .swi => [leave (.exception excpSwi)]
  | .smc => [leave (.exception excpSmc)]

/-- The epilogue. Under the debugger the skipped instruction is followed by the same exception as
the executed one, as the flag it is chosen by is cleared before. -/
def genEpilogue (dc : DisasContext) : List (TcgOp M) :=
  if dc.singlestepEnabled then
    (if dc.condjmp then
      genSetCondexec dc ++ [leave (raised dc.isJmp), .label dc.condlabel] else []) ++
    (if dc.condjmp ∨ dc.isJmp = .next then [genSetPcIm dc.pc] else []) ++
    genSetCondexec dc ++ [leave (raised dc.isJmp)]
  else
    genSetCondexec dc ++ endOfBlock dc ++
    (if dc.condjmp then .label dc.condlabel :: (genSetCondexec dc ++ genGotoTb dc.pc) else [])

end Emission

/-- What the translator makes of an instruction apart from its guards. After a direct jump
nothing of the block is left to run. -/
structure Body (M : Type) where
  effect : Machine M → Machine M × Option Exit
  isJmp : IsJmp
  leaves : isJmp = .tbJump → ∀ s, (effect s).2.isSome

variable {M : Type}

def placeLabel (dc : DisasContext) : List (TcgOp M) :=
  if dc.condjmp = true ∧ dc.isJmp = .next then [.label dc.condlabel] else []

def afterLabel (dc : DisasContext) : DisasContext :=
  if dc.condjmp = true ∧ dc.isJmp = .next then { dc with condjmp := false } else dc

def finish (lastIo : Bool) (body : Body M) (dc : DisasContext) : Option (List (TcgOp M)) :=
  if lastIo = true ∧ (afterLabel dc).condjmp = true then none
  else some (.exec body.effect :: (placeLabel dc ++ genEpilogue (afterLabel dc)))

def stepExit (singlestepEnabled : Bool) : Exit :=
  if singlestepEnabled then .exception excpDebug else .nextTb

section Slot

variable {lastIo : Bool} {body : Body M} {dc : DisasContext} {s : Machine M}
  {rest : List (TcgOp M)} {label : ℕ}

def withCondexec (dc : DisasContext) (s : Machine M) : Machine M :=
  if dc.condexecMask ≠ 0 then
    withCondexecBits ((dc.condexecCond <<< 4) ||| (dc.condexecMask >>> 1)) s
  else s

theorem with_pc_condexec (val : UInt32) :
    withPc val (withCondexec dc s) = withCondexec dc (withPc val s) := by
  unfold withCondexec
  split_ifs <;> rfl

theorem run_set_condexec :
    run (.running, s) (genSetCondexec dc) = (.running, withCondexec dc s) := by
  unfold genSetCondexec withCondexec
  split_ifs <;> rfl

@[simp]
theorem placed_set_condexec : placed (genSetCondexec (M := M) dc) = [] := by
  unfold genSetCondexec
  split_ifs <;> rfl

@[simp]
theorem branches_set_condexec : branches (genSetCondexec (M := M) dc) = [] := by
  unfold genSetCondexec
  split_ifs <;> rfl

theorem skip_set_condexec :
    run (.skipping label, s) (genSetCondexec dc) = (.skipping label, s) :=
  run_skipping (by simp)

theorem placed_epilogue :
    placed (genEpilogue (M := M) dc) = if dc.condjmp then [dc.condlabel] else [] := by
  unfold genEpilogue endOfBlock
  cases dc.condjmp <;> cases dc.singlestepEnabled <;> cases dc.isJmp <;>
    simp [leave, genSetPcIm, genGotoTb]

theorem branches_epilogue : branches (genEpilogue (M := M) dc) = [] := by
  unfold genEpilogue endOfBlock
  cases dc.condjmp <;> cases dc.singlestepEnabled <;> cases dc.isJmp <;>
    simp [leave, genSetPcIm, genGotoTb]

theorem finish_labels (h : finish lastIo body dc = some rest) :
    placed rest = (if dc.condjmp then [dc.condlabel] else []) ∧ branches rest = [] := by
  unfold finish at h
  split_ifs at h
  cases h
  simp only [placed_exec, placed_append, placed_epilogue, branches_exec, branches_append,
    branches_epilogue]
  unfold placeLabel afterLabel
  split_ifs <;> simp_all

theorem finish_unskipped (hjmp : dc.condjmp = false) :
    finish lastIo body dc = some (.exec body.effect :: genEpilogue dc) := by
  simp [finish, placeLabel, afterLabel, hjmp]

theorem end_of_block_leaves (hne : dc.isJmp ≠ .tbJump) :
    ∃ exit s', run (.running, s) (endOfBlock dc) = (.left exit, s') := by
  unfold endOfBlock
  cases hjmp : dc.isJmp with
  | tbJump => exact absurd hjmp hne
  | next | jump | update | wfi | swi | smc => exact ⟨_, _, rfl⟩

theorem placed_end_of_block : placed (endOfBlock (M := M) dc) = [] := by
  unfold endOfBlock
  cases dc.isJmp <;> rfl

variable (dc) in
theorem epilogue_next (hcond : dc.condjmp = false) (hnext : dc.isJmp = .next) :
    run (.running, s) (genEpilogue dc) =
      (.left (stepExit dc.singlestepEnabled), withCondexec dc (withPc dc.pc s)) := by
  unfold genEpilogue endOfBlock
  rw [hcond, hnext]
  cases dc.singlestepEnabled with
  | true => simp [run_append, run_set_condexec, step, genSetPcIm, leave, raised, stepExit]
  | false =>
    simp [run_append, run_set_condexec, step, genGotoTb, genSetPcIm, leave, stepExit,
      with_pc_condexec]

theorem epilogue_leaves (hcond : dc.condjmp = true) (hne : dc.isJmp ≠ .tbJump)
    (hnext : dc.isJmp ≠ .next) :
    run (.running, s) (genEpilogue dc) =
      run (.running, s) (genEpilogue { dc with condjmp := false }) := by
  have hset : genSetCondexec (M := M) { dc with condjmp := false } = genSetCondexec dc := rfl
  have hend : endOfBlock (M := M) { dc with condjmp := false } = endOfBlock dc := rfl
  unfold genEpilogue
  simp only [hcond, hset, hend]
  cases dc.singlestepEnabled with
  | true => simp [hnext, run_append, run_set_condexec, run_left, step, leave]
  | false =>
    obtain ⟨exit, s', hleft⟩ := end_of_block_leaves (s := withCondexec dc s) hne
    simp [run_append, run_set_condexec, hleft, run_left, step]

theorem epilogue_skipped (hcond : dc.condjmp = true) :
    run (.skipping dc.condlabel, s) (genEpilogue dc) =
      (.left (if dc.singlestepEnabled then raised dc.isJmp else .nextTb),
        withCondexec dc (withPc dc.pc s)) := by
  have hend : run (.skipping dc.condlabel, s) (endOfBlock dc) = (.skipping dc.condlabel, s) :=
    run_skipping (by simp [placed_end_of_block])
  unfold genEpilogue
  rw [hcond]
  cases dc.singlestepEnabled with
  | true => simp [run_append, run_set_condexec, skip_set_condexec, step, genSetPcIm, leave]
  | false =>
    simp [run_append, run_set_condexec, skip_set_condexec, hend, step, genGotoTb, genSetPcIm, leave,
      with_pc_condexec]

theorem place_label_next (hcond : dc.condjmp = true) (hnext : dc.isJmp = .next) :
    placeLabel (M := M) dc = [.label dc.condlabel] ∧
      afterLabel dc = { dc with condjmp := false } :=
  ⟨if_pos ⟨hcond, hnext⟩, if_pos ⟨hcond, hnext⟩⟩

theorem place_label_of_not (h : ¬(dc.condjmp = true ∧ dc.isJmp = .next)) :
    placeLabel (M := M) dc = [] ∧ afterLabel dc = dc :=
  ⟨if_neg h, if_neg h⟩

theorem rest_running (hne : dc.isJmp ≠ .tbJump) :
    run (.running, s) (placeLabel dc ++ genEpilogue (afterLabel dc)) =
      run (.running, s) (genEpilogue { dc with condjmp := false }) := by
  by_cases hlabel : dc.condjmp = true ∧ dc.isJmp = .next
  · obtain ⟨hplace, hafter⟩ := place_label_next (M := M) hlabel.1 hlabel.2
    rw [hplace, hafter]
    rfl
  obtain ⟨hplace, hafter⟩ := place_label_of_not (M := M) hlabel
  rw [hplace, hafter, List.nil_append]
  cases hcond : dc.condjmp with
  | false => rw [← hcond]
  | true => exact epilogue_leaves hcond hne fun hnext ↦ hlabel ⟨hcond, hnext⟩

theorem rest_skipping (hcond : dc.condjmp = true) :
    run (.skipping dc.condlabel, s) (placeLabel dc ++ genEpilogue (afterLabel dc)) =
      (.left (if dc.singlestepEnabled then raised dc.isJmp else .nextTb),
        withCondexec dc (withPc dc.pc s)) := by
  by_cases hnext : dc.isJmp = .next
  · obtain ⟨hplace, hafter⟩ := place_label_next (M := M) hcond hnext
    have hstep : step (.skipping dc.condlabel, s) (.label dc.condlabel : TcgOp M) =
        (.running, s) := by simp [step]
    rw [hplace, hafter, List.singleton_append, run_cons, hstep,
      epilogue_next { dc with condjmp := false } rfl hnext, hnext]
    rfl
  · obtain ⟨hplace, hafter⟩ := place_label_of_not (M := M) fun h ↦ hnext h.2
    rw [hplace, hafter, List.nil_append, epilogue_skipped hcond]

theorem finish_running (hjmp : dc.isJmp = body.isJmp) (h : finish lastIo body dc = some rest) :
    run (.running, s) rest =
      run (.running, s) (.exec body.effect :: genEpilogue { dc with condjmp := false }) := by
  unfold finish at h
  split_ifs at h
  cases h
  rw [run_cons, run_cons]
  simp only [step]
  cases hexit : (body.effect s).2 with
  | some exit => rw [Option.elim, run_left, run_left]
  | none =>
    apply rest_running
    intro htb
    have hleaves := body.leaves (hjmp ▸ htb) s
    rw [hexit] at hleaves
    cases hleaves

theorem finish_skipping (hcond : dc.condjmp = true) (h : finish lastIo body dc = some rest) :
    run (.skipping dc.condlabel, s) rest =
      (.left (if dc.singlestepEnabled then raised dc.isJmp else .nextTb),
        withCondexec dc (withPc dc.pc s)) := by
  unfold finish at h
  split_ifs at h
  cases h
  exact rest_skipping hcond

/-- What the code of a slot and what follows it do: the instruction is skipped or executed. -/
theorem run_slot {ops : List (TcgOp M)} {test : Machine M → Bool}
    {effect : Machine M → Machine M} (hskip : Skips dc.condlabel ops test effect)
    (hcond : dc.condjmp = true) (hjmp : dc.isJmp = body.isJmp)
    (h : finish lastIo body dc = some rest) :
    run (.running, s) (ops ++ rest) =
      if test s then
        (.left (if dc.singlestepEnabled then raised dc.isJmp else .nextTb),
          withCondexec dc (withPc dc.pc (effect s)))
      else
        run (.running, effect s)
          (.exec body.effect :: genEpilogue { dc with condjmp := false }) := by
  rw [run_append, hskip.run]
  cases test s with
  | true => exact finish_skipping hcond h
  | false => exact finish_running hjmp h

end Slot

section Tests

variable {label inv : ℕ} {s : Machine M}

theorem brcond_skips (test : CpuArmState → Bool) (label : ℕ) :
    Skips label [brcond test label] (fun s : Machine M ↦ test s.env) id where
  newer := by simp [brcond]
  branches := by simp [brcond]
  run := by simp [brcond, step]

theorem brcond_or_skips (test test' : CpuArmState → Bool) (label : ℕ) :
    Skips label [brcond test label, brcond test' label]
      (fun s : Machine M ↦ test s.env || test' s.env) id where
  newer := by simp [brcond]
  branches := by simp [brcond]
  run := by
    intro s
    cases h : test s.env <;> simp [brcond, step, h]

theorem brcond_unless_skips (test test' : CpuArmState → Bool) (hlt : label < inv) :
    Skips label [brcond test inv, brcond test' label, .label inv]
      (fun s : Machine M ↦ !test s.env && test' s.env) id where
  newer := by simpa [brcond] using hlt
  branches := by simp [brcond]
  run := by
    intro s
    cases h : test s.env <;> cases h' : test' s.env <;> simp [brcond, step, h, h', hlt.ne']

theorem neg_iff_msb (a : Int32) : a < 0 ↔ a.toBitVec.msb = true := by
  rw [Int32.lt_iff_toInt_lt, BitVec.msb_eq_toInt]
  simp

theorem xor_neg (a b : Int32) : decide (a ^^^ b < 0) = (decide (b < 0) != decide (a < 0)) := by
  simp only [neg_iff_msb, Int32.toBitVec_xor, BitVec.msb_xor]
  cases a.toBitVec.msb <;> cases b.toBitVec.msb <;> rfl

theorem ge_zero (a : Int32) : decide (a ≥ 0) = !decide (a < 0) := by
  rw [← decide_not]
  exact decide_eq_decide.mpr Int32.not_lt.symm

theorem test_cc_skips {cc : UInt32} {nbLabels nbLabels' : ℕ} {ops : List (TcgOp M)}
    (h : genTestCc cc label nbLabels = some (ops, nbLabels')) (hlt : label < nbLabels) :
    Skips label ops (fun s ↦ conditionPassed s.env cc) id ∧ nbLabels ≤ nbLabels' := by
  unfold genTestCc at h
  unfold conditionPassed
  split at h <;> cases h
  case h_9 hcc | h_13 hcc =>
    exact ⟨(brcond_unless_skips _ _ hlt).congr fun s ↦ by simp [hcc, holds, xor_neg, ge_zero, bne],
      Nat.le_succ _⟩
  case h_10 hcc | h_14 hcc =>
    exact ⟨(brcond_or_skips _ _ label).congr fun s ↦ by simp [hcc, holds, xor_neg, bne], le_rfl⟩
  all_goals
    rename_i hcc
    exact ⟨(brcond_skips _ label).congr fun s ↦ by simp [hcc, holds, xor_neg, ge_zero, bne], le_rfl⟩

theorem holds_inverse : ∀ cond < 16, cond ^^^ 1 < 14 → ∀ z c n v,
    holds z c n v (cond ^^^ 1) = !holds z c n v cond := by
  decide

theorem condition_inverse {env : CpuArmState} {cond : UInt32} (h : (cond ^^^ 1).toNat < 14) :
    conditionPassed env (cond ^^^ 1) = !conditionPassed env cond := by
  rw [UInt32.toNat_xor] at h
  have hcond : cond.toNat < 16 := by
    have hxor : cond.toNat ^^^ 1 ^^^ 1 < 2 ^ 4 :=
      Nat.xor_lt_two_pow (Nat.lt_trans h (by norm_num)) (by norm_num)
    rwa [Nat.xor_assoc, Nat.xor_self, Nat.xor_zero] at hxor
  unfold conditionPassed
  rw [UInt32.toNat_xor]
  exact holds_inverse cond.toNat hcond h _ _ _ _

theorem test_cc_lt {cc : UInt32} {label nbLabels : ℕ} {r : List (TcgOp M) × ℕ}
    (h : genTestCc cc label nbLabels = some r) : cc.toNat < 14 := by
  unfold genTestCc at h
  split at h <;> first | omega | cases h

theorem guard_skips {g g' : Gen M} {guard : Guard} (h : genGuard g guard = some g') :
    ∃ ops, g'.code = g.code ++ ops ∧
      Skips g.nbLabels ops (fun s ↦ !guard.passes s.env) id ∧ g.nbLabels < g'.nbLabels ∧
      g'.dc = { g.dc with condlabel := g.nbLabels, condjmp := true } := by
  cases guard with
  | onCondition cond =>
    simp only [genGuard, Option.bind_eq_bind, Option.bind_eq_some_iff] at h
    obtain ⟨⟨ops, nbLabels⟩, htest, h⟩ := h
    cases h
    obtain ⟨hskips, hle⟩ := test_cc_skips htest (Nat.lt_succ_self _)
    refine ⟨ops, rfl, hskips.congr fun s ↦ ?_, hle, rfl⟩
    exact condition_inverse (test_cc_lt htest)
  | onRegister rm nonzero =>
    cases h
    refine ⟨_, rfl, (brcond_skips _ g.nbLabels).congr fun s ↦ ?_, Nat.lt_succ_self _, rfl⟩
    cases nonzero <;> simp [Guard.passes]

end Tests

section Labels

variable {g g' : Gen M} {gs : List Guard}

theorem guards_labels (h : gs.foldlM genGuard g = some g') :
    ∃ ops, g'.code = g.code ++ ops ∧ (∀ l ∈ placed ops, g.nbLabels ≤ l) ∧
      (gs ≠ [] → g.nbLabels ≤ g'.dc.condlabel) := by
  induction gs generalizing g with
  | nil =>
    cases h
    exact ⟨[], (List.append_nil _).symm, nofun, fun h ↦ absurd rfl h⟩
  | cons guard gs ih =>
    obtain ⟨g₁, hguard, h⟩ := Option.bind_eq_some_iff.mp h
    obtain ⟨ops, hcode, hskips, hlt, hdc⟩ := guard_skips hguard
    obtain ⟨ops', hcode', hplaced, hslot⟩ := ih h
    refine ⟨ops ++ ops', by rw [hcode', hcode, List.append_assoc], ?_, fun _ ↦ ?_⟩
    · intro l hl
      rw [placed_append, List.mem_append] at hl
      rcases hl with hl | hl
      · exact (hskips.newer l hl).le
      · exact hlt.le.trans (hplaced l hl)
    · cases gs with
      | nil =>
        cases h
        rw [hdc]
      | cons => exact hlt.le.trans (hslot (List.cons_ne_nil _ _))

end Labels

end VarEmu.Translator.Emission
