import VarEmu.Emulator.Machine
import VarEmu.Translator.Decode

namespace VarEmu.Translator.Blocks

open Emulator.State Emulator.Cycles Decode Library.Execution
open Emulator.Energy (Books)
open Emulator.Machine (linearHost gigahertz ldrEntry)

structure Insn where
  code : Code
  length : UInt32
  isJmp : Bool
  ops : ℕ
  deriving DecidableEq

/-- The guest's code by block flags and address. There is none where the translator stops before
an instruction: at a breakpoint, or at the return address of an M-profile exception. -/
abbrev Guest := UInt64 → UInt32 → Option Insn

abbrev opcMaxSize : ℕ := 640 - 208

abbrev cfCountMask : UInt16 := 0x7fff

abbrev targetPageSize : UInt32 := 0x400

def maxInsns (cflags : UInt16) : ℕ :=
  let count := cflags &&& cfCountMask
  if count = 0 then cfCountMask.toNat else count.toNat

/-- The translation loop, with the instructions still allowed as fuel: the guest's code from
`pc` on, until an instruction ends the block. -/
def genInsns (code : UInt32 → Option Insn) (single : Bool) (nextPageStart : UInt32) :
    ℕ → UInt32 → ℕ → List Insn
  | 0, _, _ => []
  | fuel + 1, pc, ops =>
    match code pc with
    | none => []
    | some insn =>
      let pc := pc + insn.length
      let ops := ops + insn.ops
      if !insn.isJmp && decide (ops < opcMaxSize) && !single && decide (pc < nextPageStart) then
        insn :: genInsns code single nextPageStart fuel pc ops
      else [insn]

structure TranslationBlock where
  pc : UInt32
  flags : UInt64
  cflags : UInt16
  insns : List Insn
  vemu : VemuTbInfo

structure Cpu where
  singlestep : Bool
  singlestepEnabled : Bool
  tbs : List TranslationBlock
  emu : Emu

/-- The state after `-variability`, which turns single stepping on. -/
def start (emu : Emu) : Cpu where
  singlestep := true
  singlestepEnabled := false
  tbs := []
  emu := emu

def genIntermediateCode (g : Guest) (s : Cpu) (pc : UInt32) (flags : UInt64) (cflags : UInt16) :
    List Insn :=
  let nextPageStart := (pc &&& ~~~(targetPageSize - 1)) + targetPageSize
  genInsns (g flags) (s.singlestepEnabled || s.singlestep) nextPageStart (maxInsns cflags) pc 0

variable (t : Tables)

/-- The slot after a translation: `gen_vemu_info` overwrites it with every instruction. -/
def writtenSlot (slot : VemuTbInfo) (insns : List Insn) : VemuTbInfo :=
  insns.foldl (fun _ insn ↦ genVemuInfo t insn.code) slot

def noInfo : VemuTbInfo := ⟨0, ⟨0, "", 0, 0, false⟩⟩

inductive Event
  | doSinglestep (option : Option String)
  | cpuSingleStep (enabled : Bool)
  | tbGenCode (pc : UInt32) (flags : UInt64) (cflags : UInt16)
  | cpuRestoreState (tb : ℕ)
  | tbExec (tb first count : ℕ)
  | tbFlush
  | emulator (e : Emulator.Machine.Event)

variable (host : Host) (g : Guest)

/-- One event. A block runs in stretches, between which its instructions may reach the rest of the
emulator. It calls the helper before each instruction, always with its one slot. Restoring the
state translates the block again under the flags of that moment, only for the addresses, and
writes the slot again. -/
def step (s : Cpu) : Event → Except Fault Cpu
  | .doSinglestep option =>
    if option = none ∨ option = some "on" then .ok { s with singlestep := true }
    else if option = some "off" then .ok { s with singlestep := false }
    else .ok s
  | .cpuSingleStep enabled =>
    if s.singlestepEnabled = enabled then .ok s
    else .ok { s with singlestepEnabled := enabled, tbs := [] }
  | .tbGenCode pc flags cflags =>
    let insns := genIntermediateCode g s pc flags cflags
    .ok { s with tbs := s.tbs ++ [⟨pc, flags, cflags, insns, writtenSlot t noInfo insns⟩] }
  | .cpuRestoreState i =>
    match s.tbs[i]? with
    | some tb =>
      let insns := genIntermediateCode g s tb.pc tb.flags tb.cflags
      .ok { s with tbs := s.tbs.set i { tb with vemu := writtenSlot t tb.vemu insns } }
    | none => .error .disabled
  | .tbExec i first count =>
    match s.tbs[i]? with
    | some tb =>
      if first + count ≤ tb.insns.length then do
        let emu ← (List.replicate count tb.vemu).foldlM vemuIncrementCycles s.emu
        .ok { s with emu }
      else .error .disabled
    | none => .error .disabled
  | .tbFlush => .ok { s with tbs := [] }
  | .emulator e =>
    if e.retires then .error .disabled
    else do
      let emu ← Emulator.Machine.step host s.emu e
      .ok { s with emu }

def executedBy (s : Cpu) : Event → List Insn
  | .tbExec i first count =>
    match s.tbs[i]? with
    | some tb => (tb.insns.drop first).take count
    | none => []
  | _ => []

def executed : Cpu → List Event → List Insn :=
  journal (step t host g) (fun s e _ insns ↦ insns ++ executedBy s e) []

def translatedBy (s : Cpu) : Event → List Insn
  | .tbGenCode pc flags cflags => genIntermediateCode g s pc flags cflags
  | .cpuRestoreState i =>
    match s.tbs[i]? with
    | some tb => genIntermediateCode g s tb.pc tb.flags tb.cflags
    | none => []
  | _ => []

def charge (info : VemuTbInfo) (c : InstrClass) : ℚ≥0 :=
  if info.instrInfo.instrClass.toNat = c.val then info.instrInfo.cycles else 0

def reference (insns : List Insn) (c : InstrClass) : ℚ≥0 :=
  (insns.map fun insn ↦ charge (genVemuInfo t insn.code) c).sum

/-- The instructions of one translation all cost the same. -/
def Uniform (insns : List Insn) : Prop :=
  ∀ i ∈ insns, ∀ j ∈ insns, charge (genVemuInfo t i.code) = charge (genVemuInfo t j.code)

instance : DecidablePred (Uniform t) :=
  fun _ ↦ inferInstanceAs (Decidable (∀ i ∈ _, ∀ j ∈ _, _))

section Translation

variable {t g} {insns : List Insn} {slot : VemuTbInfo}

theorem max_insns_pos (cflags : UInt16) : 0 < maxInsns cflags := by
  unfold maxInsns
  dsimp only
  split_ifs with hzero
  · decide
  · exact Nat.pos_of_ne_zero fun h ↦ hzero (UInt16.toNat_inj.mp h)

theorem gen_intermediate_code_head (s : Cpu) (pc : UInt32) (flags : UInt64) (cflags : UInt16) :
    (genIntermediateCode g s pc flags cflags).head? = g flags pc := by
  obtain ⟨fuel, hfuel⟩ := Nat.exists_eq_add_one.mpr (max_insns_pos cflags)
  simp only [genIntermediateCode, hfuel, genInsns]
  cases g flags pc with
  | none => rfl
  | some insn =>
    dsimp only
    split_ifs <;> rfl

theorem gen_insns_single (code : UInt32 → Option Insn) (nextPageStart pc : UInt32) (fuel ops : ℕ) :
    (genInsns code true nextPageStart fuel pc ops).length ≤ 1 := by
  cases fuel with
  | zero => simp [genInsns]
  | succ fuel =>
    simp only [genInsns]
    cases code pc <;> simp

theorem uniform_of_length_le_one (h : insns.length ≤ 1) : Uniform t insns := by
  match insns, h with
  | [], _ => exact nofun
  | [insn], _ =>
    intro i hi j hj
    rw [List.mem_singleton.mp hi, List.mem_singleton.mp hj]

theorem written_slot_charge {q : InstrClass → ℚ≥0}
    (h : ∀ insn ∈ insns, charge (genVemuInfo t insn.code) = q)
    (hslot : insns = [] → charge slot = q) : charge (writtenSlot t slot insns) = q := by
  induction insns generalizing slot with
  | nil => exact hslot rfl
  | cons insn insns ih =>
    exact ih (fun i hi ↦ h i (List.mem_cons_of_mem insn hi)) fun _ ↦ h insn List.mem_cons_self

theorem fresh_slot_charge (hu : Uniform t insns) : ∀ insn ∈ insns,
    charge (genVemuInfo t insn.code) = charge (writtenSlot t noInfo insns) := by
  intro insn hinsn
  refine (written_slot_charge (fun i hi ↦ hu i hi insn hinsn) ?_).symm
  intro hnil
  exact absurd (hnil ▸ hinsn) List.not_mem_nil

end Translation

section Outcomes

variable {s s' : Cpu}

inductive Outcome (s s' : Cpu) : Event → Prop
  | switch {option : Option String} {single : Bool}
      (hsingle : option ≠ some "off" → s.singlestep = true → single = true)
      (hs : s' = { s with singlestep := single }) : Outcome s s' (.doSinglestep option)
  | debug {enabled : Bool} {tbs : List TranslationBlock} (htbs : tbs ⊆ s.tbs)
      (hs : s' = { s with singlestepEnabled := enabled, tbs := tbs }) :
      Outcome s s' (.cpuSingleStep enabled)
  | translate {pc : UInt32} {flags : UInt64} {cflags : UInt16}
      (hs : s' = { s with tbs := s.tbs ++ [⟨pc, flags, cflags,
        genIntermediateCode g s pc flags cflags,
        writtenSlot t noInfo (genIntermediateCode g s pc flags cflags)⟩] }) :
      Outcome s s' (.tbGenCode pc flags cflags)
  | restore {i : ℕ} {tb : TranslationBlock} (hi : s.tbs[i]? = some tb)
      (hs : s' = { s with tbs := s.tbs.set i { tb with
        vemu := writtenSlot t tb.vemu (genIntermediateCode g s tb.pc tb.flags tb.cflags) } }) :
      Outcome s s' (.cpuRestoreState i)
  | exec {i first count : ℕ} {tb : TranslationBlock} {emu : Emu} (hi : s.tbs[i]? = some tb)
      (hcount : first + count ≤ tb.insns.length)
      (hemu : (List.replicate count tb.vemu).foldlM vemuIncrementCycles s.emu = .ok emu)
      (hs : s' = { s with emu := emu }) : Outcome s s' (.tbExec i first count)
  | flush (hs : s' = { s with tbs := [] }) : Outcome s s' .tbFlush
  | emulate {e : Emulator.Machine.Event} {emu : Emu} (he : e.retires = false)
      (hemu : Emulator.Machine.step host s.emu e = .ok emu) (hs : s' = { s with emu := emu }) :
      Outcome s s' (.emulator e)

variable {t host g} {e : Event}

theorem step_outcome (h : step t host g s e = .ok s') : Outcome t host g s s' e := by
  cases e with
  | doSinglestep option =>
    simp only [step] at h
    split_ifs at h with hon hoff <;> cases h
    · exact .switch (fun _ _ ↦ rfl) rfl
    · exact .switch (fun hne ↦ absurd hoff hne) rfl
    · exact .switch (fun _ hs ↦ hs) rfl
  | cpuSingleStep enabled =>
    simp only [step] at h
    split_ifs at h with hsame <;> cases h
    · exact .debug (List.Subset.refl s.tbs) (by rw [← hsame])
    · exact .debug (List.nil_subset s.tbs) rfl
  | tbGenCode pc flags cflags =>
    cases h
    exact .translate rfl
  | cpuRestoreState i =>
    simp only [step] at h
    split at h <;> cases h
    exact .restore ‹_› rfl
  | tbExec i first count =>
    simp only [step] at h
    split at h
    · split_ifs at h with hcount
      obtain ⟨emu, hemu, h⟩ := bind_ok_iff.mp h
      cases h
      exact .exec ‹_› hcount hemu rfl
    · cases h
  | tbFlush =>
    cases h
    exact .flush rfl
  | emulator e =>
    simp only [step] at h
    split_ifs at h with he
    obtain ⟨emu, hemu, h⟩ := bind_ok_iff.mp h
    cases h
    exact .emulate (by simpa using he) hemu rfl

end Outcomes

/-- The slot stands for every instruction of the block. That the block begins with the code at
its address is what makes a second translation write the same. -/
structure Sound (tb : TranslationBlock) : Prop where
  head : tb.insns.head? = g tb.flags tb.pc
  slot : ∀ insn ∈ tb.insns, charge (genVemuInfo t insn.code) = charge tb.vemu

section Blocks

variable {t host g} {s s' : Cpu} {e : Event}

theorem Sound.fresh {pc : UInt32} {flags : UInt64} {cflags : UInt16}
    (hu : Uniform t (genIntermediateCode g s pc flags cflags)) :
    Sound t g ⟨pc, flags, cflags, genIntermediateCode g s pc flags cflags,
      writtenSlot t noInfo (genIntermediateCode g s pc flags cflags)⟩ :=
  ⟨gen_intermediate_code_head s pc flags cflags, fresh_slot_charge hu⟩

theorem Sound.restored {tb : TranslationBlock} (htb : Sound t g tb)
    (hu : Uniform t (genIntermediateCode g s tb.pc tb.flags tb.cflags)) :
    Sound t g { tb with
      vemu := writtenSlot t tb.vemu (genIntermediateCode g s tb.pc tb.flags tb.cflags) } := by
  have hhead := (gen_intermediate_code_head s tb.pc tb.flags tb.cflags).trans htb.head.symm
  refine ⟨htb.head, fun insn hinsn ↦ (htb.slot insn hinsn).trans ?_⟩
  refine (written_slot_charge ?_ fun _ ↦ rfl).symm
  intro i hi
  obtain ⟨first, hfirst⟩ : ∃ first, (genIntermediateCode g s tb.pc tb.flags tb.cflags).head? =
      some first := by
    rw [← Option.isSome_iff_exists, List.isSome_head?]
    exact List.ne_nil_of_mem hi
  rw [hu i hi first (List.mem_of_mem_head? hfirst)]
  exact htb.slot first (List.mem_of_mem_head? (hhead ▸ hfirst))

theorem step_sound (hs : ∀ tb ∈ s.tbs, Sound t g tb) (hu : Uniform t (translatedBy g s e))
    (h : step t host g s e = .ok s') : ∀ tb ∈ s'.tbs, Sound t g tb := by
  cases step_outcome h with
  | switch _ hs' | exec _ _ _ hs' | emulate _ _ hs' =>
    subst hs'
    exact hs
  | debug htbs hs' =>
    subst hs'
    exact fun tb htb ↦ hs tb (htbs htb)
  | flush hs' =>
    subst hs'
    exact nofun
  | translate hs' =>
    subst hs'
    intro tb htb
    rcases List.mem_append.mp htb with htb | htb
    · exact hs tb htb
    · rw [List.mem_singleton.mp htb]
      exact .fresh hu
  | restore hi hs' =>
    subst hs'
    simp only [translatedBy, hi] at hu
    intro tb htb
    rcases List.mem_or_eq_of_mem_set htb with htb | rfl
    · exact hs tb htb
    · exact (hs _ (List.mem_of_getElem? hi)).restored hu

theorem increments_charge {infos : List VemuTbInfo} {u v : Emu}
    (h : infos.foldlM vemuIncrementCycles u = .ok v) (c : InstrClass) :
    v.cycleCount c = u.cycleCount c + (infos.map fun info ↦ charge info c).sum := by
  induction infos generalizing u with
  | nil =>
    cases h
    simp
  | cons info infos ih =>
    obtain ⟨m, hm, h⟩ := bind_ok_iff.mp h
    rw [ih h, List.map_cons, List.sum_cons, ← add_assoc]
    congr 1
    obtain ⟨d, hz, hd, _, _, rfl⟩ := increment_cycles_ok hm
    by_cases hc : c = d
    · subst hc
      simp [charge, hd]
    · have hne : info.instrInfo.instrClass.toNat ≠ c.val := fun h ↦ hc (Fin.ext (hd.trans h).symm)
      simp [charge, hne, Function.update_of_ne hc]

theorem charges_eq_reference {insns : List Insn} {slot : VemuTbInfo}
    (hslot : ∀ insn ∈ insns, charge (genVemuInfo t insn.code) = charge slot) {count : ℕ}
    (hcount : count ≤ insns.length) (c : InstrClass) :
    ((List.replicate count slot).map fun info ↦ charge info c).sum =
      reference t (insns.take count) c := by
  have hcosts : (insns.take count).map (fun insn ↦ charge (genVemuInfo t insn.code) c) =
      List.replicate count (charge slot c) := by
    refine List.eq_replicate_iff.mpr ⟨by simpa using hcount, ?_⟩
    intro q hq
    obtain ⟨insn, hinsn, rfl⟩ := List.mem_map.mp hq
    rw [hslot insn (List.mem_of_mem_take hinsn)]
  rw [reference, hcosts, List.map_replicate]

theorem reference_append (xs ys : List Insn) (c : InstrClass) :
    reference t (xs ++ ys) c = reference t xs c + reference t ys c := by
  simp [reference]

/-- However far a newly translated block runs, it charges what its instructions cost, if and only
if they all cost the same. -/
theorem fresh_block_exact_iff (t : Tables) (insns : List Insn) :
    (∀ count ≤ insns.length, ∀ c,
      ((List.replicate count (writtenSlot t noInfo insns)).map fun info ↦ charge info c).sum =
        reference t (insns.take count) c) ↔ Uniform t insns := by
  constructor
  · intro h
    have hslot : ∀ insn ∈ insns,
        charge (genVemuInfo t insn.code) = charge (writtenSlot t noInfo insns) := by
      intro insn hinsn
      funext c
      obtain ⟨n, hn, rfl⟩ := List.mem_iff_getElem.mp hinsn
      have hnext := h (n + 1) hn c
      rw [List.take_succ_eq_append_getElem hn, reference_append, ← h n hn.le c] at hnext
      simpa [reference, List.replicate_succ', add_one_mul] using hnext.symm
    intro i hi j hj
    rw [hslot i hi, hslot j hj]
  · intro hu count hcount c
    exact charges_eq_reference (fresh_slot_charge hu) hcount c

theorem emulator_cycle_count {u v : Emu} {e : Emulator.Machine.Event} (he : e.retires = false)
    (h : Emulator.Machine.step host u e = .ok v) : v.cycleCount = u.cycleCount := by
  cases Emulator.Machine.step_outcome h with
  | retire => cases he
  | tick hs | sleep _ hs | wake _ _ hs | faults hs => rw [hs]
  | books _ hs => exact hs.cycleCount_eq
  | change _ _ ht hs => rw [hs, ← ht.cycleCount_eq]
  | latch ht hs => rw [hs, ← ht.cycleCount_eq]

theorem step_charges (hs : ∀ tb ∈ s.tbs, Sound t g tb) (h : step t host g s e = .ok s')
    (c : InstrClass) :
    s'.emu.cycleCount c = s.emu.cycleCount c + reference t (executedBy s e) c := by
  cases step_outcome h with
  | switch _ hs' | debug _ hs' | translate hs' | restore _ hs' | flush hs' =>
    subst hs'
    simp [executedBy, reference]
  | exec hi hcount hemu hs' =>
    subst hs'
    simp only [executedBy, hi]
    have hslot := (hs _ (List.mem_of_getElem? hi)).slot
    rw [increments_charge hemu c, charges_eq_reference
      (fun insn hinsn ↦ hslot insn (List.mem_of_mem_drop hinsn)) _ c]
    rw [List.length_drop]
    omega
  | emulate he hemu hs' =>
    subst hs'
    simp [executedBy, reference, emulator_cycle_count he hemu]

theorem run_charges {emu : Emu} {es : List Event} (h : run (step t host g) (start emu) es = .ok s)
    (hu : Always (step t host g) (fun s e ↦ Uniform t (translatedBy g s e)) (start emu) es)
    (c : InstrClass) :
    s.emu.cycleCount c = emu.cycleCount c +
      reference t (executed t host g (start emu) es) c := by
  refine (run_journal (R := fun insns s ↦ (∀ tb ∈ s.tbs, Sound t g tb) ∧
    s.emu.cycleCount c = emu.cycleCount c + reference t insns c) ?_ h hu ⟨nofun, ?_⟩).2
  · rintro insns s e s' ⟨hs, hcount⟩ hu he
    refine ⟨step_sound hs hu he, ?_⟩
    rw [step_charges hs he c, hcount, reference_append, add_assoc]
  · simp [start, reference]

theorem step_singlestep (he : e ≠ .doSinglestep (some "off")) (hs : s.singlestep = true)
    (h : step t host g s e = .ok s') : s'.singlestep = true := by
  cases step_outcome h with
  | switch hsingle hs' =>
    subst hs'
    exact hsingle (fun hoff ↦ he (congrArg Event.doSinglestep hoff)) hs
  | debug _ hs' | translate hs' | restore _ hs' | exec _ _ _ hs' | flush hs' | emulate _ _ hs' =>
    subst hs'
    exact hs

theorem translated_single (hs : s.singlestep = true) : Uniform t (translatedBy g s e) := by
  apply uniform_of_length_le_one
  cases e with
  | tbGenCode pc flags cflags =>
    simp only [translatedBy, genIntermediateCode, hs, Bool.or_true]
    exact gen_insns_single ..
  | cpuRestoreState i =>
    simp only [translatedBy]
    split
    · simp only [genIntermediateCode, hs, Bool.or_true]
      exact gen_insns_single ..
    · exact Nat.zero_le 1
  | _ => exact Nat.zero_le 1

/-- As long as the monitor never switches single stepping off, every executed instruction is
charged its own class and its own cycles. -/
theorem single_stepped_exact {emu : Emu} {es : List Event}
    (hoff : ∀ e ∈ es, e ≠ .doSinglestep (some "off"))
    (h : run (step t host g) (start emu) es = .ok s) (c : InstrClass) :
    s.emu.cycleCount c = emu.cycleCount c +
      reference t (executed t host g (start emu) es) c := by
  have hu : Always (step t host g) (fun s e ↦ Uniform t (translatedBy g s e)) (start emu) es :=
    always_of_invariant (I := fun s ↦ s.singlestep = true)
      (fun e he s s' hs hstep ↦ step_singlestep (hoff e he) hs hstep)
      (fun s e hs ↦ translated_single hs) rfl
  exact run_charges h hu c

end Blocks

/-- In every run in which each translation groups only instructions that cost the same, every
executed instruction is charged its own class and its own cycles, however the code is split. -/
theorem blocks_charged_exactly (t : Tables) (host : Host) (g : Guest) (emu : Emu)
    (es : List Event) (s : Cpu) (hrun : run (step t host g) (start emu) es = .ok s)
    (hcond : Always (step t host g) (fun s e ↦ Uniform t (translatedBy g s e)) (start emu) es)
    (c : InstrClass) :
    s.emu.cycleCount c = emu.cycleCount c +
      reference t (executed t host g (start emu) es) c :=
  run_charges hrun hcond c

def sampleTables : Tables where
  vemuArmInstr opcode :=
    if opcode = 0x590 then ldrEntry
    else if opcode = 0xAFF then ⟨0xAFF, "B", 0, 2, false⟩
    else ⟨0x080, "ADD lli", 0, 1, false⟩
  vemuThumbInstr _ := ⟨0x18, "ADD reg", 0, 1, false⟩
  vemuThumb2Instr _ := ⟨0xFFF, "UNKNOWN", 0, 1, false⟩

def loadThenBranch : Guest := fun _ pc ↦
  if pc = 0x8000 then some ⟨.arm 0xE5910000, 4, false, 8⟩
  else if pc = 0x8004 then some ⟨.arm 0xEAFFFFFD, 4, true, 4⟩
  else some ⟨.arm 0xE0800001, 4, false, 3⟩

def uniformRun : List Event :=
  [.tbGenCode 0x8000 0 0, .tbExec 0 0 1, .doSinglestep (some "off"), .tbGenCode 0x83F8 0 0,
    .tbExec 1 0 1, .cpuRestoreState 1, .tbExec 1 1 1]

theorem uniform_run_exact :
    ∃ s, run (step sampleTables linearHost loadThenBranch)
        (start (vemuInitCycles gigahertz 0)) uniformRun = .ok s ∧
      s.emu.cycleCount 0 = (vemuInitCycles gigahertz 0).cycleCount 0 + reference sampleTables
        (executed sampleTables linearHost loadThenBranch (start (vemuInitCycles gigahertz 0))
          uniformRun) 0 := by
  have hok : Ends (fun _ ↦ True) (run (step sampleTables linearHost loadThenBranch)
      (start (vemuInitCycles gigahertz 0)) uniformRun) := by
    decide +kernel
  obtain ⟨s, hs, _⟩ := hok.exists
  have hcond : Always (step sampleTables linearHost loadThenBranch)
      (fun s e ↦ Uniform sampleTables (translatedBy loadThenBranch s e))
      (start (vemuInitCycles gigahertz 0)) uniformRun := by
    decide +kernel
  exact ⟨s, hs, blocks_charged_exactly sampleTables linearHost loadThenBranch
    (vemuInitCycles gigahertz 0) uniformRun s hs hcond 0⟩

def groupedRun : List Event :=
  [.doSinglestep (some "off"), .tbGenCode 0x8000 0 0, .tbExec 0 0 2]

theorem grouped_run_mischarged :
    reference sampleTables (executed sampleTables linearHost loadThenBranch
        (start (vemuInitCycles gigahertz 0)) groupedRun) 0 = 5 ∧
      ∃ s, run (step sampleTables linearHost loadThenBranch)
        (start (vemuInitCycles gigahertz 0)) groupedRun = .ok s ∧ s.emu.cycleCount 0 = 4 := by
  refine ⟨by decide +kernel, ?_⟩
  have hok : Ends (fun s ↦ s.emu.cycleCount 0 = 4)
      (run (step sampleTables linearHost loadThenBranch) (start (vemuInitCycles gigahertz 0))
        groupedRun) := by
    decide +kernel
  exact hok.exists

end VarEmu.Translator.Blocks
