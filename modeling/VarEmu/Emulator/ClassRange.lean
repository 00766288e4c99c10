import VarEmu.Emulator.ClassTable

namespace VarEmu.Emulator.ClassRange

open State Cycles Monitor InputFile ClassTable Translator.Decode
open Library.Execution Library.LastWriter

/-- No instruction, of whatever set, has a class that the accounting does not know, and so none
fails the assertion there. -/
def InRange (t : Tables) : Prop :=
  ∀ instr set, (vemuTargetDecodeInstr t instr set).instrInfo.instrClass.toNat < maxInstrClasses ∧
    ∀ s, vemuIncrementCycles s (vemuTargetDecodeInstr t instr set) ≠ .error .assertion

variable (parse : List Char → Option QObject)

def declaration (line file : List Char) : QDict :=
  match parse (fgets line ⟨file, false⟩).1 with
  | some (.qdict classInfo) => classInfo
  | _ => []

/-- The assignments of a file, with those of its last line twice where it is parsed again. -/
def fileAssignments (line file : List Char) : List (String × String) :=
  let r := fgets line ⟨file, false⟩
  (buffers r.1 r.2).flatMap (assignments parse)

def lastIdx (line file : List Char) (name : String) : Option Int64 :=
  lastWrite (assignedIdx (declaration parse line file)) (fileAssignments parse line file) name

def Named (t : Tables) (name : String) : Prop :=
  (∃ i, (t.vemuArmInstr i).name = name) ∨ ∃ i, (t.vemuThumbInstr i).name = name

theorem divisor_no_assertion (s : Emu) : divisor s ≠ .error .assertion := by
  unfold divisor Double.toUInt64
  cases s.pmArray 0 with
  | rat q =>
    unfold State.toUInt64
    dsimp only
    split <;> simp
  | nonfinite => simp

theorem increment_no_assertion {tb : VemuTbInfo}
    (h : tb.instrInfo.instrClass.toNat < maxInstrClasses) (s : Emu) :
    vemuIncrementCycles s tb ≠ .error .assertion := by
  unfold vemuIncrementCycles
  rw [dif_pos h]
  cases hdiv : divisor s with
  | error e =>
    intro herror
    cases herror
    exact divisor_no_assertion s hdiv
  | ok hz =>
    change (if hz = 0 then _ else _) ≠ _
    split_ifs <;> simp

theorem in_range_iff (t : Tables) : InRange t ↔
    (∀ i, (t.vemuArmInstr i).instrClass.toNat < maxInstrClasses) ∧
    (∀ i, (t.vemuThumbInstr i).instrClass.toNat < maxInstrClasses) ∧
    (t.vemuThumb2Instr 0).instrClass.toNat < maxInstrClasses := by
  constructor
  · intro h
    refine ⟨fun i ↦ ?_, fun i ↦ ?_, (h 0 .thumb2).1⟩
    · obtain ⟨instr, hi⟩ := arm_opcode_surjective i.isLt
      obtain rfl : (⟨_, arm_opcode_lt instr⟩ : Fin 0x1000) = i := Fin.ext hi
      exact (h instr .arm).1
    · obtain ⟨instr, hi⟩ := thumb_opcode_surjective i.isLt
      obtain rfl : (⟨_, thumb_opcode_lt instr⟩ : Fin 0x100) = i := Fin.ext hi
      exact (h instr .thumb).1
  · rintro ⟨harm, hthumb, hthumb2⟩ instr set
    have hlt : (vemuTargetDecodeInstr t instr set).instrInfo.instrClass.toNat <
        maxInstrClasses := by
      cases set with
      | arm => exact harm _
      | thumb => exact hthumb _
      | thumb2 => exact hthumb2
    exact ⟨hlt, increment_no_assertion hlt⟩

variable {parse} {line file : List Char} {c c' : Config}

theorem parse_input_file_ok (h : vemuParseInputFile parse line file c = .ok c') :
    c'.tables = assignedTables (declaration parse line file) c.tables
      (fileAssignments parse line file) := by
  unfold vemuParseInputFile at h
  unfold declaration fileAssignments
  dsimp only at h ⊢
  split at h
  · cases h
  · rename_i hparse
    split_ifs at h
    rw [lines_ok h, lines_tables, hparse]
  · cases h

theorem specified_in_range {classInfo : QDict} {as : List (String × String)} {name : String} :
    (specifiedClass classInfo as name).toNat < maxInstrClasses ↔
      ∀ idx ∈ lastWrite (assignedIdx classInfo) as name, idx.toInt % 256 < maxInstrClasses := by
  unfold specifiedClass
  cases lastWrite (assignedIdx classInfo) as name with
  | none => simp
  | some idx =>
    have hbyte : ((toUInt8 idx.toInt).toNat : ℤ) = idx.toInt % 256 := by
      rw [toUInt8, UInt8.toNat_ofNat']
      omega
    simp only [Option.mem_def, Option.some.injEq, forall_eq']
    omega

/-- The classes stay in range if and only if the last assignment to each instruction of the
tables is to a class whose index is in range, as a byte. -/
theorem classes_in_range_iff (parse : List Char → Option QObject) (line file : List Char)
    (c c' : Config) (hc : Unassigned c.tables)
    (h : vemuParseInputFile parse line file c = .ok c') :
    InRange c'.tables ↔ ∀ name, Named c.tables name →
      ∀ idx ∈ lastIdx parse line file name, idx.toInt % 256 < maxInstrClasses := by
  have hthumb2 : (c.tables.vemuThumb2Instr 0).instrClass.toNat < maxInstrClasses := by
    rw [hc.thumb2 0]
    decide
  rw [in_range_iff, parse_input_file_ok h]
  simp only [assignedTables, assigned_apply (hc.arm _), assigned_apply (hc.thumb _), classified,
    specified_in_range]
  constructor
  · rintro ⟨harm, hthumb, -⟩ name (⟨i, rfl⟩ | ⟨i, rfl⟩)
    · exact harm i
    · exact hthumb i
  · intro hnames
    exact ⟨fun i ↦ hnames _ (.inl ⟨i, rfl⟩), fun i ↦ hnames _ (.inr ⟨i, rfl⟩), hthumb2⟩

theorem one_class_idx {idx last : Int64} {params : List String} {a : String × String}
    {name : String} (h : assignedIdx (oneClass idx params) a name = some last) : last = idx := by
  have hdeclared : declaredIdx (oneClass idx params) a.1 =
      if "all" = a.1 then some idx else none := by
    have hentry : declares a.1 ("1", .qdict [("class_name", .qstring "all"), ("idx", .qint idx),
        ("power_param", .qlist (params.map .qstring))]) =
        if "all" = a.1 then some idx else none := rfl
    rw [declaredIdx, oneClass, List.findSome?_cons, hentry]
    split_ifs <;> rfl
  unfold assignedIdx at h
  rw [hdeclared] at h
  split_ifs at h
  · exact (Option.some.inj (Option.filter_eq_some_iff.mp h).1).symm
  · cases h

theorem two_lines_last_idx {decl : List Char} {idx : Int64} {params : List String}
    (hdecl : '\n' ∉ decl ∧ decl.length ≤ 1998) (name : String) :
    ∀ last ∈ lastIdx (twoObjects decl (oneClass idx params)) [] (twoLines decl hdecl).contents name,
      last = idx := by
  have hfgets : fgets [] ⟨(twoLines decl hdecl).contents, false⟩ =
      (decl ++ ['\n'], ⟨(twoLines decl hdecl).body.flatten, false⟩) :=
    fgets_newline hdecl.1 hdecl.2
  have hclasses : declaration (twoObjects decl (oneClass idx params)) []
      (twoLines decl hdecl).contents = oneClass idx params := by
    rw [declaration, hfgets, two_objects_decl]
  intro last hlast
  rw [lastIdx, hclasses] at hlast
  obtain ⟨a, -, ha⟩ := List.exists_of_findSome?_eq_some hlast
  exact one_class_idx ha

theorem class_one_in_range : ∃ c',
    vemuParseInputFile (twoObjects classOne (oneClass 1 ["21"])) []
      (twoLines classOne (by decide)).contents beforeLoading = .ok c' ∧ InRange c'.tables := by
  refine ⟨_, two_lines_load class_one_ne (by decide) beforeLoading, ?_⟩
  rw [classes_in_range_iff _ _ _ _ _ unassigned_unclassified
    (two_lines_load class_one_ne (by decide) beforeLoading)]
  intro name _ idx hidx
  rw [two_lines_last_idx (by decide) name idx hidx]
  decide

def classFour : List Char :=
  "\x7b\"1\": \x7b\"class_name\": \"all\", \"idx\": 4, \"power_param\": []\x7d\x7d".toList

theorem class_four_aborts : ∃ c',
    vemuParseInputFile (twoObjects classFour (oneClass 4 [])) []
      (twoLines classFour (by decide)).contents beforeLoading = .ok c' ∧
    (vemuTargetDecodeInstr c'.tables 0xE0010392 .arm).instrInfo.instrClass = 4 ∧
    ∀ s, vemuIncrementCycles s (vemuTargetDecodeInstr c'.tables 0xE0010392 .arm) =
      .error .assertion := by
  have hne : classFour ≠ assignText := by decide
  refine ⟨_, two_lines_load hne (by decide) beforeLoading, ?_⟩
  rw [lines_tables, two_lines_assignments hne]
  have hclass : (vemuTargetDecodeInstr (assignedTables (oneClass 4 []) beforeLoading.tables
      [("all", "MUL")]) 0xE0010392 .arm).instrInfo.instrClass = 4 := by decide
  refine ⟨hclass, fun s ↦ ?_⟩
  rw [vemuIncrementCycles, dif_neg]
  rw [hclass]
  decide

end VarEmu.Emulator.ClassRange
