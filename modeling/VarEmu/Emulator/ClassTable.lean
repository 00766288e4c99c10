import VarEmu.Emulator.InputFile

namespace VarEmu.Emulator.ClassTable

open State Energy Monitor InputFile Translator.Decode Library.Execution Library.LastWriter

section Reading

variable {line l rest : List Char} {n : ℕ}

theorem read_line_append (hl : '\n' ∉ l) (hn : l.length ≤ n) :
    readLine n (l ++ rest) = (l ++ (readLine (n - l.length) rest).1,
      (readLine (n - l.length) rest).2) := by
  induction l generalizing n with
  | nil => rfl
  | cons ch l ih =>
    obtain ⟨n, rfl⟩ := Nat.exists_eq_add_one.mpr (Nat.zero_lt_of_lt hn)
    have hch : ch ≠ '\n' := fun h ↦ hl (h ▸ List.mem_cons_self)
    have hlen : n + 1 - (ch :: l).length = n - l.length := Nat.add_sub_add_right n 1 l.length
    rw [List.cons_append, readLine, if_neg hch,
      ih (fun h ↦ hl (List.mem_cons_of_mem ch h)) (Nat.le_of_succ_le_succ hn), hlen]
    rfl

theorem read_line_newline (hl : '\n' ∉ l) (hn : l.length < n) :
    readLine n (l ++ '\n' :: rest) = (l ++ ['\n'], ⟨rest, false⟩) := by
  obtain ⟨m, hm⟩ := Nat.exists_eq_add_one.mpr (Nat.sub_pos_of_lt hn)
  rw [read_line_append hl hn.le, hm]
  rfl

theorem read_line_end (hl : '\n' ∉ l) (hn : l.length < n) :
    readLine n l = (l, ⟨[], true⟩) := by
  obtain ⟨m, hm⟩ := Nat.exists_eq_add_one.mpr (Nat.sub_pos_of_lt hn)
  have hread : readLine n (l ++ []) = (l ++ [], ⟨[], true⟩) := by
    rw [read_line_append hl hn.le, hm]
    rfl
  rwa [List.append_nil] at hread

theorem fgets_newline (hl : '\n' ∉ l) (hn : l.length ≤ 1998) :
    fgets line ⟨l ++ '\n' :: rest, false⟩ = (l ++ ['\n'], ⟨rest, false⟩) := by
  simp [fgets, read_line_newline hl (Nat.lt_succ_of_le hn)]

theorem fgets_end (hl : '\n' ∉ l) (hn : l.length ≤ 1998) :
    fgets line ⟨l, false⟩ = (if l = [] then line else l, ⟨[], true⟩) := by
  simp [fgets, read_line_end hl (Nat.lt_succ_of_le hn)]

theorem buffers_eof : buffers line ⟨rest, true⟩ = [] := by
  rw [buffers]
  rfl

theorem buffers_more {fp : Stream} (h : fp.eof = false) :
    buffers line fp = (fgets line fp).1 :: buffers (fgets line fp).1 (fgets line fp).2 := by
  rw [buffers, dif_neg (by simp [h])]

def ended (lines : List (List Char)) : List (List Char) := lines.map (· ++ ['\n'])

theorem buffers_ended {lines : List (List Char)}
    (hlines : ∀ l ∈ lines, '\n' ∉ l ∧ l.length ≤ 1998) (line rest : List Char) :
    ∃ line', buffers line ⟨(ended lines).flatten ++ rest, false⟩ =
      ended lines ++ buffers line' ⟨rest, false⟩ := by
  induction lines generalizing line with
  | nil => exact ⟨line, rfl⟩
  | cons l lines ih =>
    obtain ⟨hl, hn⟩ := hlines l List.mem_cons_self
    obtain ⟨line', hrest⟩ := ih (fun l hl ↦ hlines l (List.mem_cons_of_mem _ hl)) (l ++ ['\n'])
    have hfile : (ended (l :: lines)).flatten ++ rest =
        l ++ '\n' :: ((ended lines).flatten ++ rest) := by
      simp [ended]
    refine ⟨line', ?_⟩
    rw [hfile, buffers_more rfl, fgets_newline hl hn, hrest]
    rfl

end Reading

/-- A file as it is meant to be: the line that declares the classes, at least one more, none of
them longer than the buffer, and the last one perhaps without an end. -/
structure ConfigFile where
  decl : List Char
  lines : List (List Char)
  last : List Char
  newline : Bool
  short : ∀ l ∈ decl :: last :: lines, '\n' ∉ l ∧ l.length ≤ 1998
  last_ne : newline = true ∨ last ≠ []

namespace ConfigFile

variable (f : ConfigFile)

def lastLine : List Char := f.last ++ if f.newline then ['\n'] else []

def body : List (List Char) := ended f.lines ++ [f.lastLine]

def contents : List Char := f.decl ++ '\n' :: f.body.flatten

theorem buffers_body (line : List Char) : buffers line ⟨f.body.flatten, false⟩ =
    f.body ++ if f.newline then [f.lastLine] else [] := by
  have hlines : ∀ l ∈ f.lines, '\n' ∉ l ∧ l.length ≤ 1998 := fun l hl ↦
    f.short l (List.mem_cons_of_mem _ (List.mem_cons_of_mem _ hl))
  obtain ⟨hl, hn⟩ := f.short f.last (List.mem_cons_of_mem _ List.mem_cons_self)
  obtain ⟨line', hbody⟩ := buffers_ended hlines line f.lastLine
  have hflat : f.body.flatten = (ended f.lines).flatten ++ f.lastLine := by simp [body]
  have hend : fgets f.lastLine ⟨[], false⟩ = (f.lastLine, ⟨[], true⟩) := rfl
  rw [hflat, hbody, body, List.append_assoc]
  congr 1
  cases hnl : f.newline with
  | true =>
    -- The end of the file is met only by the read after the last line, which fills in nothing.
    have hlast : f.lastLine = f.last ++ ['\n'] := by simp [lastLine, hnl]
    have hfgets : fgets line' ⟨f.lastLine, false⟩ = (f.lastLine, ⟨[], false⟩) := by
      rw [hlast]
      exact fgets_newline hl hn
    rw [buffers_more rfl, hfgets, buffers_more rfl, hend, buffers_eof]
    rfl
  | false =>
    have hne : f.last ≠ [] := f.last_ne.resolve_left (by simp [hnl])
    have hlast : f.lastLine = f.last := by simp [lastLine, hnl]
    rw [hlast, buffers_more rfl, fgets_end hl hn, if_neg hne, buffers_eof]
    rfl

end ConfigFile

variable (parse : List Char → Option QObject)

section WellFormed

/-- A class with its name and index, and no more parameters than the power model has. -/
def DeclaresClass (entry : String × QObject) : Prop :=
  ∃ pdict idx str, entry.2 = .qdict pdict ∧ pdict.lookup "idx" = some (.qint idx) ∧
    pdict.lookup "class_name" = some (.qstring str) ∧
    ∀ list, pdict.lookup "power_param" = some list →
      ∃ params : List String, list = .qlist (params.map .qstring) ∧ params.length ≤ pmArraySize

def Declaration (classInfo : QDict) : Prop :=
  classInfo ≠ [] ∧ ∀ entry ∈ classInfo, DeclaresClass entry

def AssignmentObject (qdict : QDict) : Prop :=
  qdict ≠ [] ∧ ∀ entry ∈ qdict, ∃ insns : List String, entry.2 = .qlist (insns.map .qstring)

/-- No object, or an object of one of the forms of the file. -/
def WellFormedLine (line : List Char) : Prop :=
  parse line = none ∨ ∃ qdict, parse line = some (.qdict qdict) ∧
    (assignsClasses qdict = true → AssignmentObject qdict) ∧
    (qdictHaskey qdict "y" = true → ∀ entry ∈ qdict, ∃ items, entry.2 = .qlist items)

variable {parse} {classInfo qdict : QDict} {entry : String × QObject} {line : List Char}

theorem find_idx_total (h : ∀ entry ∈ classInfo, DeclaresClass entry) (className : String) :
    ∃ idx, findIdx className classInfo = .ok idx := by
  induction classInfo with
  | nil => exact ⟨-1, rfl⟩
  | cons entry entries ih =>
    obtain ⟨pdict, idx, str, hdict, hidx, hstr, -⟩ := h entry List.mem_cons_self
    obtain ⟨found, hfound⟩ := ih fun e he ↦ h e (List.mem_cons_of_mem entry he)
    refine ⟨if str = className then idx.toInt32 else found, ?_⟩
    refine bind_ok_iff.mpr ⟨pdict, to_qdict_ok.mpr hdict, ?_⟩
    refine bind_ok_iff.mpr ⟨idx, qdict_get_int_ok.mpr hidx, ?_⟩
    refine bind_ok_iff.mpr ⟨str, qdict_get_str_ok.mpr hstr, ?_⟩
    split_ifs
    · rfl
    · exact hfound

theorem parse_instr_class_total (h : ∀ entry ∈ classInfo, DeclaresClass entry)
    (className instr : String) (t : Tables) :
    ∃ t', vemuParseInstrClass classInfo className instr t = .ok t' := by
  obtain ⟨idx, hidx⟩ := find_idx_total h className
  by_cases hnone : idx ≠ -1
  · exact ⟨_, bind_ok_iff.mpr ⟨idx, hidx, if_pos hnone⟩⟩
  · exact ⟨t, bind_ok_iff.mpr ⟨idx, hidx, if_neg hnone⟩⟩

theorem assign_entry_total (h : ∀ entry ∈ classInfo, DeclaresClass entry) {insns : List String}
    (hentry : entry.2 = .qlist (insns.map .qstring)) (t : Tables) :
    ∃ t', assignEntry classInfo t entry = .ok t' := by
  have hinsns : ∀ value ∈ insns.map QObject.qstring, ∀ t, ∃ t', (do
      let insn ← value.getStr
      vemuParseInstrClass classInfo entry.1 insn t) = Except.ok t' := by
    intro value hvalue t
    obtain ⟨insn, -, rfl⟩ := List.mem_map.mp hvalue
    exact parse_instr_class_total h entry.1 insn t
  obtain ⟨t', ht'⟩ := fold_total hinsns t
  exact ⟨t', bind_ok_iff.mpr ⟨_, to_qlist_ok.mpr hentry, ht'⟩⟩

theorem parse_params_total (cc : UInt8) {params : List String} {idx : ℕ}
    (h : idx + params.length ≤ pmArraySize) (s : Emu) :
    ∃ s', parseParams cc idx (params.map .qstring) s = .ok s' := by
  induction params generalizing idx s with
  | nil => exact ⟨s, rfl⟩
  | cons str params ih =>
    rw [List.length_cons] at h
    have hidx : (UInt8.ofNat idx).toNat < pmArraySize := by
      rw [UInt8.toNat_ofNat']
      omega
    have hnext : idx + 1 + params.length ≤ pmArraySize := by omega
    obtain ⟨s', hs'⟩ := ih hnext { s with
      pmArray := Function.update s.pmArray ⟨_, hidx⟩ (strtod str.toList) }
    exact ⟨s', bind_ok_iff.mpr ⟨str, rfl, bind_ok_iff.mpr ⟨_, dif_pos hidx, hs'⟩⟩⟩

theorem parse_pm_parameters_total (h : ∀ entry ∈ classInfo, DeclaresClass entry)
    (classIdx : String) (s : Emu) : ∃ s', vemuParsePmParameters classInfo classIdx s = .ok s' := by
  refine fold_total (fun entry hentry s ↦ ?_) s
  obtain ⟨pdict, -, -, hdict, -, -, hparams⟩ := h entry hentry
  cases hlist : pdict.lookup "power_param" with
  | none => exact ⟨s, bind_ok_iff.mpr ⟨pdict, to_qdict_ok.mpr hdict, by rw [hlist]⟩⟩
  | some list =>
    obtain ⟨params, rfl, hlength⟩ := hparams list hlist
    have hfrom : 0 + params.length ≤ pmArraySize := (Nat.zero_add _).le.trans hlength
    obtain ⟨s', hs'⟩ := parse_params_total (toUInt8 (strtol classIdx.toList)) hfrom s
    refine ⟨s', bind_ok_iff.mpr ⟨pdict, to_qdict_ok.mpr hdict, ?_⟩⟩
    rw [hlist]
    exact bind_ok_iff.mpr ⟨_, rfl, hs'⟩

theorem parse_line_total (h : ∀ entry ∈ classInfo, DeclaresClass entry)
    (hline : WellFormedLine parse line) (c : Config) :
    parseLine parse classInfo c line = .ok (lineEffect parse classInfo c line) := by
  suffices htotal : ∃ c', parseLine parse classInfo c line = .ok c' by
    obtain ⟨c', hc'⟩ := htotal
    rw [hc', parse_line_ok hc']
  unfold parseLine
  rcases hline with hnone | ⟨qdict, hparse, hassign, hwalk⟩
  · exact ⟨c, by rw [hnone]⟩
  rw [hparse]
  change ∃ c', parseDict classInfo c qdict = .ok c'
  rw [parse_dict_eq]
  split_ifs with hassigns hy
  · obtain ⟨hne, hlists⟩ := hassign hassigns
    obtain ⟨entry, entries, rfl⟩ := List.exists_cons_of_ne_nil hne
    obtain ⟨emu, hemu⟩ := parse_pm_parameters_total h entry.1 c.emu
    obtain ⟨tables, htables⟩ := fold_total (f := assignEntry classInfo) (fun e he t ↦
      have ⟨_, hinsns⟩ := hlists e he
      assign_entry_total h hinsns t) c.tables
    exact ⟨_, bind_ok_iff.mpr ⟨emu, hemu, bind_ok_iff.mpr ⟨tables, htables, rfl⟩⟩⟩
  · refine fold_total (fun entry hentry c ↦ ?_) c
    obtain ⟨items, hitems⟩ := hwalk hy entry hentry
    exact ⟨c, bind_ok_iff.mpr ⟨items, to_qlist_ok.mpr hitems, rfl⟩⟩
  · exact ⟨c, rfl⟩

theorem lines_total (h : ∀ entry ∈ classInfo, DeclaresClass entry) {lines : List (List Char)}
    (hlines : ∀ line ∈ lines, WellFormedLine parse line) (c : Config) :
    lines.foldlM (parseLine parse classInfo) c =
      .ok (lines.foldl (lineEffect parse classInfo) c) := by
  obtain ⟨c', hc'⟩ := fold_total (fun line hline c ↦
    ⟨_, parse_line_total h (hlines line hline) c⟩) c
  rw [hc', lines_ok hc']

end WellFormed

section ClassTable

structure Unassigned (t : Tables) : Prop where
  arm : ∀ i, (t.vemuArmInstr i).instrClass = 0
  thumb : ∀ i, (t.vemuThumbInstr i).instrClass = 0
  thumb2 : ∀ i, (t.vemuThumb2Instr i).instrClass = 0

/-- The class that the last of the assignments to an instruction gives it. -/
def specifiedClass (classInfo : QDict) (as : List (String × String)) (name : String) : UInt8 :=
  match lastWrite (assignedIdx classInfo) as name with
  | some idx => toUInt8 idx.toInt
  | none => 0

def classified (classInfo : QDict) (as : List (String × String)) (info : VemuInstrInfo) :
    VemuInstrInfo :=
  { info with instrClass := specifiedClass classInfo as info.name }

variable {parse} {classInfo : QDict} {as : List (String × String)} {c : Config} {line : List Char}

theorem assigned_apply {n : ℕ} {instrs : Fin n → VemuInstrInfo} {i : Fin n}
    (h : (instrs i).instrClass = 0) :
    assigned classInfo instrs as i = classified classInfo as (instrs i) := by
  have hlast : assigned classInfo instrs as i =
      (lastWrite (assignedIdx classInfo) as (instrs i).name).elim (instrs i)
        (withIdx · (instrs i)) :=
    put_all_apply (fun (_ : Fin n) (info : VemuInstrInfo) ↦ info.name) withIdx
      (assignedIdx classInfo) (fun _ _ _ ↦ rfl) (fun _ _ _ ↦ rfl) instrs as i
  rw [hlast, classified, specifiedClass]
  cases lastWrite (assignedIdx classInfo) as (instrs i).name with
  | none => rw [← h, Option.elim_none]
  | some idx => rfl

theorem parse_input_file_eq (f : ConfigFile)
    (hdecl : parse (f.decl ++ ['\n']) = some (.qdict classInfo)) (hne : classInfo ≠ []) :
    vemuParseInputFile parse line f.contents c =
      (f.body ++ if f.newline then [f.lastLine] else []).foldlM (parseLine parse classInfo) c := by
  obtain ⟨hl, hn⟩ := f.short f.decl List.mem_cons_self
  have hfgets : fgets line ⟨f.contents, false⟩ = (f.decl ++ ['\n'], ⟨f.body.flatten, false⟩) :=
    fgets_newline hl hn
  unfold vemuParseInputFile
  simp only [hfgets, hdecl, f.buffers_body]
  exact if_pos (List.length_pos_iff.mpr hne)

theorem repeated_last (f : ConfigFile) :
    (f.body ++ if f.newline then [f.lastLine] else []).foldl (lineEffect parse classInfo) c =
      f.body.foldl (lineEffect parse classInfo) c := by
  unfold ConfigFile.body
  cases f.newline with
  | true => simp [List.foldl_append, line_effect_twice]
  | false => simp

theorem parse_input_file_total (f : ConfigFile)
    (hdecl : parse (f.decl ++ ['\n']) = some (.qdict classInfo))
    (hclasses : Declaration classInfo) (hbody : ∀ l ∈ f.body, WellFormedLine parse l) :
    vemuParseInputFile parse line f.contents c =
      .ok (f.body.foldl (lineEffect parse classInfo) c) := by
  have hlast : WellFormedLine parse f.lastLine :=
    hbody f.lastLine (List.mem_append_right _ (List.mem_singleton_self _))
  have hall : ∀ l ∈ f.body ++ if f.newline then [f.lastLine] else [], WellFormedLine parse l := by
    intro l hl
    rcases List.mem_append.mp hl with hl | hl
    · exact hbody l hl
    · split_ifs at hl
      · exact List.mem_singleton.mp hl ▸ hlast
      · cases hl
  rw [parse_input_file_eq f hdecl hclasses.1, lines_total hclasses.2 hall, repeated_last]

/-- The loaded tables are those of the specification, and are the same as if the last line had
been parsed once. -/
theorem class_table_loaded (parse : List Char → Option QObject) (f : ConfigFile)
    (line : List Char) (c : Config) (hc : Unassigned c.tables) {classInfo : QDict}
    (hdecl : parse (f.decl ++ ['\n']) = some (.qdict classInfo))
    (hclasses : Declaration classInfo) (hbody : ∀ l ∈ f.body, WellFormedLine parse l) :
    ∃ c', vemuParseInputFile parse line f.contents c = .ok c' ∧
      (∀ i, c'.tables.vemuArmInstr i = classified classInfo (f.body.flatMap (assignments parse))
        (c.tables.vemuArmInstr i)) ∧
      (∀ i, c'.tables.vemuThumbInstr i = classified classInfo (f.body.flatMap (assignments parse))
        (c.tables.vemuThumbInstr i)) ∧
      c'.tables.vemuThumb2Instr = c.tables.vemuThumb2Instr ∧
      (∀ i j, (c'.tables.vemuArmInstr i).name = (c'.tables.vemuThumbInstr j).name →
        (c'.tables.vemuArmInstr i).instrClass = (c'.tables.vemuThumbInstr j).instrClass) ∧
      f.body.foldlM (parseLine parse classInfo) c = .ok c' := by
  have harm : ∀ i, (f.body.foldl (lineEffect parse classInfo) c).tables.vemuArmInstr i =
      classified classInfo (f.body.flatMap (assignments parse)) (c.tables.vemuArmInstr i) := by
    intro i
    rw [lines_tables]
    exact assigned_apply (hc.arm i)
  have hthumb : ∀ i, (f.body.foldl (lineEffect parse classInfo) c).tables.vemuThumbInstr i =
      classified classInfo (f.body.flatMap (assignments parse)) (c.tables.vemuThumbInstr i) := by
    intro i
    rw [lines_tables]
    exact assigned_apply (hc.thumb i)
  refine ⟨_, parse_input_file_total f hdecl hclasses hbody, harm, hthumb, ?_, ?_,
    lines_total hclasses.2 hbody c⟩
  · rw [lines_tables]
    rfl
  · intro i j hname
    rw [harm, hthumb] at hname ⊢
    exact congrArg (specifiedClass classInfo _) hname

end ClassTable

def assignText : List Char := "\x7b\"all\": [\"MUL\"]\x7d".toList

/-- A file of two lines, the second of which puts `MUL` into the class `all`. -/
def twoLines (decl : List Char) (hdecl : '\n' ∉ decl ∧ decl.length ≤ 1998) : ConfigFile where
  decl := decl
  lines := []
  last := assignText
  newline := true
  short := by
    intro l hl
    rcases List.mem_cons.mp hl with rfl | hl
    · exact hdecl
    · rw [List.mem_singleton.mp hl]
      decide
  last_ne := .inl rfl

def twoObjects (decl : List Char) (classInfo : QDict) (line : List Char) : Option QObject :=
  if line = decl ++ ['\n'] then some (.qdict classInfo)
  else if line = assignText ++ ['\n'] then some (.qdict [("all", .qlist [.qstring "MUL"])])
  else none

theorem two_objects_decl {decl : List Char} {classInfo : QDict} :
    twoObjects decl classInfo (decl ++ ['\n']) = some (.qdict classInfo) := if_pos rfl

theorem two_objects_assign {decl : List Char} {classInfo : QDict} (hne : decl ≠ assignText) :
    twoObjects decl classInfo (assignText ++ ['\n']) =
      some (.qdict [("all", .qlist [.qstring "MUL"])]) := by
  rw [twoObjects, if_neg fun h ↦ hne (List.append_cancel_right h).symm, if_pos rfl]

def oneClass (idx : Int64) (params : List String) : QDict :=
  [("1", .qdict [("class_name", .qstring "all"), ("idx", .qint idx),
    ("power_param", .qlist (params.map .qstring))])]

theorem one_class_declares {idx : Int64} {params : List String}
    (h : params.length ≤ pmArraySize) : Declaration (oneClass idx params) := by
  refine ⟨List.cons_ne_nil _ _, fun entry hentry ↦ ?_⟩
  rw [List.mem_singleton.mp hentry]
  refine ⟨_, idx, "all", rfl, rfl, rfl, fun list hlist ↦ ⟨params, ?_, h⟩⟩
  exact (Option.some.inj hlist).symm

theorem two_lines_well_formed {decl : List Char} {classInfo : QDict}
    (hdecl : '\n' ∉ decl ∧ decl.length ≤ 1998) (hne : decl ≠ assignText) :
    ∀ l ∈ (twoLines decl hdecl).body, WellFormedLine (twoObjects decl classInfo) l := by
  intro l hl
  have hlast : l = assignText ++ ['\n'] := List.mem_singleton.mp hl
  refine .inr ⟨[("all", .qlist [.qstring "MUL"])], ?_, fun _ ↦ ?_, fun hy ↦ absurd hy (by decide)⟩
  · rw [hlast, two_objects_assign hne]
  · refine ⟨List.cons_ne_nil _ _, fun entry hentry ↦ ⟨["MUL"], ?_⟩⟩
    rw [List.mem_singleton.mp hentry]
    rfl

theorem two_lines_load {decl : List Char} {idx : Int64} {params : List String}
    {hdecl : '\n' ∉ decl ∧ decl.length ≤ 1998} (hne : decl ≠ assignText)
    (hparams : params.length ≤ pmArraySize) (c : Config) :
    vemuParseInputFile (twoObjects decl (oneClass idx params)) [] (twoLines decl hdecl).contents c =
      .ok ((twoLines decl hdecl).body.foldl
        (lineEffect (twoObjects decl (oneClass idx params)) (oneClass idx params)) c) :=
  parse_input_file_total _ two_objects_decl (one_class_declares hparams)
    (two_lines_well_formed hdecl hne)

theorem two_lines_assignments {decl : List Char} {classInfo : QDict}
    {hdecl : '\n' ∉ decl ∧ decl.length ≤ 1998} (hne : decl ≠ assignText) :
    (twoLines decl hdecl).body.flatMap (assignments (twoObjects decl classInfo)) =
      [("all", "MUL")] := by
  change assignments (twoObjects decl classInfo) (assignText ++ ['\n']) ++ [] = _
  rw [assignments, two_objects_assign hne]
  rfl

def unclassified : Tables where
  vemuArmInstr := fun i ↦ ⟨UInt32.ofNat i, if i = 9 then "MUL" else "MOV", 0, 1, false⟩
  vemuThumbInstr := fun i ↦ ⟨UInt32.ofNat i, "MOV", 0, 1, false⟩
  vemuThumb2Instr := fun _ ↦ ⟨0xFFF, "UNKNOWN", 0, 1, false⟩

theorem unassigned_unclassified : Unassigned unclassified :=
  ⟨fun _ ↦ rfl, fun _ ↦ rfl, fun _ ↦ rfl⟩

def beforeLoading : Config := ⟨unclassified, Cycles.vemuInitCycles (fun _ ↦ .rat 0) 0⟩

def classOne : List Char :=
  "\x7b\"1\": \x7b\"class_name\": \"all\", \"idx\": 1, \"power_param\": [\"21\"]\x7d\x7d".toList

theorem class_one_ne : classOne ≠ assignText := by decide

theorem mul_in_class_one : ∃ c',
    vemuParseInputFile (twoObjects classOne (oneClass 1 ["21"])) []
      (twoLines classOne (by decide)).contents beforeLoading = .ok c' ∧
    (c'.tables.vemuArmInstr 9).instrClass = 1 ∧ (c'.tables.vemuArmInstr 8).instrClass = 0 := by
  have hshort : '\n' ∉ classOne ∧ classOne.length ≤ 1998 := by decide
  obtain ⟨c', hload, harm, -⟩ := class_table_loaded (twoObjects classOne (oneClass 1 ["21"]))
    (twoLines classOne hshort) [] beforeLoading unassigned_unclassified two_objects_decl
    (one_class_declares (by decide)) (two_lines_well_formed hshort class_one_ne)
  rw [two_lines_assignments class_one_ne] at harm
  refine ⟨c', hload, ?_, ?_⟩
  · rw [harm]
    decide
  · rw [harm]
    decide

def wrappedIdx : List Char :=
  "\x7b\"1\": \x7b\"class_name\": \"all\", \"idx\": 4294967295, \"power_param\": []\x7d\x7d".toList

def fifteenParams : List Char :=
  ("\x7b\"1\": \x7b\"class_name\": \"all\", \"idx\": 1, \"power_param\": " ++
    "[\"0\", \"0\", \"0\", \"0\", \"0\", \"0\", \"0\", \"0\", \"0\", \"0\", " ++
    "\"0\", \"0\", \"0\", \"0\", \"0\"]\x7d\x7d").toList

theorem two_lines_abort {decl : List Char} {classInfo : QDict}
    {hdecl : '\n' ∉ decl ∧ decl.length ≤ 1998} (hne : decl ≠ assignText) (hclasses : classInfo ≠ [])
    {c : Config} (h : vemuParsePmParameters classInfo "all" c.emu = .error .assertion) :
    vemuParseInputFile (twoObjects decl classInfo) [] (twoLines decl hdecl).contents c =
      .error .assertion := by
  have hline : parseLine (twoObjects decl classInfo) classInfo c (assignText ++ ['\n']) =
      .error .assertion := by
    rw [parseLine, two_objects_assign hne]
    change (vemuParsePmParameters classInfo "all" c.emu >>= _) = _
    rw [h]
    rfl
  refine (parse_input_file_eq (twoLines decl hdecl) two_objects_decl hclasses).trans ?_
  change (parseLine (twoObjects decl classInfo) classInfo c (assignText ++ ['\n']) >>= _) = _
  rw [hline]
  rfl

/-- An index that is `-1` as an `int` is taken for none, where the rest by 256 would be 255, and
the fifteenth parameter of a class ends the emulator. -/
theorem wrapped_index_and_long_list :
    (∃ c', vemuParseInputFile (twoObjects wrappedIdx (oneClass 4294967295 [])) []
        (twoLines wrappedIdx (by decide)).contents beforeLoading = .ok c' ∧
      (c'.tables.vemuArmInstr 9).instrClass = 0 ∧ toUInt8 (4294967295 : Int64).toInt = 255) ∧
    vemuParseInputFile (twoObjects fifteenParams (oneClass 1 (List.replicate 15 "0"))) []
      (twoLines fifteenParams (by decide +kernel)).contents beforeLoading = .error .assertion := by
  constructor
  · have hne : wrappedIdx ≠ assignText := by decide
    refine ⟨_, two_lines_load hne (by decide) beforeLoading, ?_, by decide⟩
    rw [lines_tables, two_lines_assignments hne]
    decide
  · exact two_lines_abort (by decide +kernel) (List.cons_ne_nil _ _) rfl

end VarEmu.Emulator.ClassTable
