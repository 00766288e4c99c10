import VarEmu.Library.LastWriter
import VarEmu.Emulator.Monitor
import VarEmu.Translator.Decode

namespace VarEmu.Emulator.InputFile

open State Energy Monitor Translator.Decode Library.Execution Library.LastWriter

/-- What the JSON parser of QEMU returns. Dictionaries and lists are in the order in which they
are walked, and texts are what `qstring_get_str` gives. -/
inductive QObject
  | qdict (entries : List (String × QObject))
  | qlist (items : List QObject)
  | qstring (str : String)
  | qint (value : Int64)
  | other

abbrev QDict := List (String × QObject)

-- An object of another type becomes a null pointer, which is then followed.
def QObject.toQDict : QObject → Except Fault QDict
  | .qdict entries => .ok entries
  | .qlist _ | .qstring _ | .qint _ | .other => .error .outOfBounds

def QObject.toQList : QObject → Except Fault (List QObject)
  | .qlist items => .ok items
  | .qdict _ | .qstring _ | .qint _ | .other => .error .outOfBounds

def QObject.getStr : QObject → Except Fault String
  | .qstring str => .ok str
  | .qdict _ | .qlist _ | .qint _ | .other => .error .outOfBounds

def qdictGetInt (qdict : QDict) (key : String) : Except Fault Int64 :=
  match qdict.lookup key with
  | some (.qint value) => .ok value
  | _ => .error .assertion

def qdictGetStr (qdict : QDict) (key : String) : Except Fault String :=
  match qdict.lookup key with
  | some (.qstring str) => .ok str
  | _ => .error .assertion

def qdictHaskey (qdict : QDict) (key : String) : Bool := (qdict.lookup key).isSome

structure Config where
  tables : Tables
  emu : Emu

def parseParams (classIdx : UInt8) : ℕ → List QObject → Emu → Except Fault Emu
  | _, [], s => .ok s
  | idx, value :: items, s => do
    let entry ← value.getStr
    let s ← vemuPmChangeParameter s classIdx (UInt8.ofNat idx) (strtod entry.toList)
    parseParams classIdx (idx + 1) items s

def parseClassParams (classIdx : UInt8) (s : Emu) (entry : String × QObject) :
    Except Fault Emu := do
  let pdict ← entry.2.toQDict
  match pdict.lookup "power_param" with
  | some params => do
    let plist ← params.toQList
    parseParams classIdx 0 plist s
  | none => .ok s

def vemuParsePmParameters (classInfo : QDict) (classIdx : String) (s : Emu) : Except Fault Emu :=
  classInfo.foldlM (parseClassParams (toUInt8 (strtol classIdx.toList))) s

/-- The search for a class by its name. The index is held in an `int`. -/
def findIdx (className : String) : QDict → Except Fault Int32
  | [] => .ok (-1)
  | entry :: entries => do
    let pdict ← entry.2.toQDict
    let idx ← qdictGetInt pdict "idx"
    let str ← qdictGetStr pdict "class_name"
    if str = className then .ok idx.toInt32 else findIdx className entries

def setClass (instr : String) (idx : Int32) (info : VemuInstrInfo) : VemuInstrInfo :=
  if info.name = instr then { info with instrClass := idx.toUInt32.toUInt8 } else info

def vemuParseInstrClass (classInfo : QDict) (className instr : String) (t : Tables) :
    Except Fault Tables := do
  let idx ← findIdx className classInfo
  if idx ≠ -1 then
    .ok { t with
      vemuArmInstr := fun i ↦ setClass instr idx (t.vemuArmInstr i)
      vemuThumbInstr := fun i ↦ setClass instr idx (t.vemuThumbInstr i) }
  else .ok t

def assignEntry (classInfo : QDict) (t : Tables) (entry : String × QObject) :
    Except Fault Tables := do
  let insnList ← entry.2.toQList
  insnList.foldlM (fun t value ↦ do
    let insn ← value.getStr
    vemuParseInstrClass classInfo entry.1 insn t) t

def assignLine (classInfo : QDict) (c : Config) : QDict → Except Fault Config
  | [] => .error .outOfBounds
  | entry :: entries => do
    let emu ← vemuParsePmParameters classInfo entry.1 c.emu
    let tables ← (entry :: entries).foldlM (assignEntry classInfo) c.tables
    .ok ⟨tables, emu⟩

def walkLists (qdict : QDict) (c : Config) : Except Fault Config :=
  qdict.foldlM (fun c entry ↦ do
    let _ ← entry.2.toQList
    .ok c) c

/-- One object. Only those that assign classes have an effect. -/
def parseDict (classInfo : QDict) (c : Config) (qdict : QDict) : Except Fault Config :=
  if qdictHaskey qdict "y" then walkLists qdict c
  else if qdictHaskey qdict "start_pc" && qdictHaskey qdict "end_pc" then .ok c
  else if qdictHaskey qdict "start_icount" && qdictHaskey qdict "end_icount" then .ok c
  else if qdictHaskey qdict "error_regs" then .ok c
  else if qdictHaskey qdict "mem_errors" then .ok c
  else assignLine classInfo c qdict

variable (parse : List Char → Option QObject)

def parseLine (classInfo : QDict) (c : Config) (line : List Char) : Except Fault Config :=
  match parse line with
  | none => .ok c
  | some qobj => do
    let qdict ← qobj.toQDict
    parseDict classInfo c qdict

structure Stream where
  rest : List Char
  eof : Bool

/-- Reads at most so many characters, up to the end of the line. -/
def readLine : ℕ → List Char → List Char × Stream
  | 0, rest => ([], ⟨rest, false⟩)
  | _ + 1, [] => ([], ⟨[], true⟩)
  | n + 1, ch :: rest =>
    if ch = '\n' then ([ch], ⟨rest, false⟩)
    else (ch :: (readLine n rest).1, (readLine n rest).2)

/-- At the end of the file nothing is read, and the buffer keeps the line before. -/
def fgets (line : List Char) (fp : Stream) : List Char × Stream :=
  let r := readLine 1999 fp.rest
  (if r.1 = [] then line else r.1, r.2)

def Stream.measure (fp : Stream) : ℕ := fp.rest.length + if fp.eof then 0 else 1

theorem read_line_measure_le (n : ℕ) (rest : List Char) :
    (readLine n rest).2.measure ≤ rest.length + 1 := by
  induction n generalizing rest with
  | zero => exact le_rfl
  | succ n ih =>
    cases rest with
    | nil => exact Nat.zero_le 1
    | cons ch rest =>
      rw [readLine]
      split_ifs
      · exact Nat.le_succ _
      · exact (ih rest).trans (Nat.le_succ _)

theorem fgets_measure_lt (line : List Char) {fp : Stream} (h : ¬fp.eof = true) :
    (fgets line fp).2.measure < fp.measure := by
  have hfp : fp.measure = fp.rest.length + 1 := by simp [Stream.measure, h]
  rw [hfp]
  change (readLine 1999 fp.rest).2.measure < _
  cases hrest : fp.rest with
  | nil => exact Nat.zero_lt_one
  | cons ch rest =>
    rw [readLine]
    split_ifs
    · exact Nat.lt_succ_self _
    · exact Nat.lt_succ_of_le (read_line_measure_le 1998 rest)

/-- The contents of the buffer in the turns of the loop, which ends when the end of the file has
been met. -/
def buffers (line : List Char) (fp : Stream) : List (List Char) :=
  if _h : fp.eof = true then []
  else (fgets line fp).1 :: buffers (fgets line fp).1 (fgets line fp).2
termination_by fp.measure
decreasing_by exact fgets_measure_lt line _h

/-- The whole file, with what the buffer holds before. -/
def vemuParseInputFile (line : List Char) (file : List Char) (c : Config) : Except Fault Config :=
  let r := fgets line ⟨file, false⟩
  match parse r.1 with
  | none => .error .outOfBounds
  | some (.qdict classInfo) =>
    if classInfo.length > 0 then (buffers r.1 r.2).foldlM (parseLine parse classInfo) c
    else .error .assertion
  | some _ => .error .assertion

section Specification

def strings : QObject → List String
  | .qlist items => items.filterMap fun
    | .qstring str => some str
    | .qdict _ | .qlist _ | .qint _ | .other => none
  | .qdict _ | .qstring _ | .qint _ | .other => []

def assignsClasses (qdict : QDict) : Bool :=
  !(qdictHaskey qdict "y" || (qdictHaskey qdict "start_pc" && qdictHaskey qdict "end_pc") ||
    (qdictHaskey qdict "start_icount" && qdictHaskey qdict "end_icount") ||
    qdictHaskey qdict "error_regs" || qdictHaskey qdict "mem_errors")

def entryAssignments (entry : String × QObject) : List (String × String) :=
  (strings entry.2).map fun insn ↦ (entry.1, insn)

/-- The instructions that a line puts into classes, each with the name of its class. -/
def assignments (line : List Char) : List (String × String) :=
  match parse line with
  | some (.qdict qdict) =>
    if assignsClasses qdict then qdict.flatMap entryAssignments else []
  | _ => []

def declares (className : String) (entry : String × QObject) : Option Int64 :=
  match entry.2 with
  | .qdict pdict =>
    match pdict.lookup "idx", pdict.lookup "class_name" with
    | some (.qint idx), some (.qstring str) => if str = className then some idx else none
    | _, _ => none
  | .qlist _ | .qstring _ | .qint _ | .other => none

def declaredIdx (classInfo : QDict) (className : String) : Option Int64 :=
  classInfo.findSome? (declares className)

/-- What an assignment gives an instruction: the index that its class is declared with, unless
that is the `int` that stands for none. -/
def assignedIdx (classInfo : QDict) (a : String × String) (name : String) : Option Int64 :=
  if a.2 = name then (declaredIdx classInfo a.1).filter fun idx ↦ idx.toInt32 ≠ -1 else none

def withIdx (idx : Int64) (info : VemuInstrInfo) : VemuInstrInfo :=
  { info with instrClass := toUInt8 idx.toInt }

def assigned {n : ℕ} (classInfo : QDict) (instrs : Fin n → VemuInstrInfo) :
    List (String × String) → Fin n → VemuInstrInfo :=
  putAll (fun _ info ↦ info.name) withIdx (assignedIdx classInfo) instrs

def assignedTables (classInfo : QDict) (t : Tables) (as : List (String × String)) : Tables :=
  { t with
    vemuArmInstr := assigned classInfo t.vemuArmInstr as
    vemuThumbInstr := assigned classInfo t.vemuThumbInstr as }

end Specification

section Objects

variable {obj : QObject} {qdict : QDict} {key : String}

theorem to_qdict_ok : obj.toQDict = .ok qdict ↔ obj = .qdict qdict := by
  cases obj <;> simp [QObject.toQDict]

theorem to_qlist_ok {items : List QObject} : obj.toQList = .ok items ↔ obj = .qlist items := by
  cases obj <;> simp [QObject.toQList]

theorem get_str_ok {str : String} : obj.getStr = .ok str ↔ obj = .qstring str := by
  cases obj <;> simp [QObject.getStr]

theorem qdict_get_int_ok {value : Int64} :
    qdictGetInt qdict key = .ok value ↔ qdict.lookup key = some (.qint value) := by
  unfold qdictGetInt
  split <;> simp_all

theorem qdict_get_str_ok {str : String} :
    qdictGetStr qdict key = .ok str ↔ qdict.lookup key = some (.qstring str) := by
  unfold qdictGetStr
  split <;> simp_all

end Objects

section Assignments

variable {parse} {classInfo : QDict} {className instr : String} {t t' : Tables}

theorem low_byte (idx : Int64) :
    idx.toInt32.toUInt32.toUInt8.toNat = idx.toBitVec.toNat % 256 := by
  have hword : idx.toInt32.toBitVec = idx.toBitVec.setWidth 32 :=
    BitVec.signExtend_eq_setWidth_of_le idx.toBitVec (by decide)
  have hnat : idx.toInt32.toUInt32.toNat = idx.toInt32.toBitVec.toNat := rfl
  rw [UInt32.toNat_toUInt8, hnat, hword, BitVec.toNat_setWidth]
  omega

theorem byte_of_int (idx : Int64) : idx.toInt32.toUInt32.toUInt8 = toUInt8 idx.toInt := by
  have hint : idx.toInt = idx.toBitVec.toInt := rfl
  rw [← UInt8.toNat_inj, low_byte, toUInt8, hint, BitVec.toInt_eq_toNat_cond, UInt8.toNat_ofNat']
  split_ifs <;> omega

theorem find_idx_ok {idx : Int32} (h : findIdx className classInfo = .ok idx) :
    idx = (declaredIdx classInfo className).elim (-1) Int64.toInt32 := by
  induction classInfo with
  | nil =>
    cases h
    rfl
  | cons entry entries ih =>
    obtain ⟨pdict, hdict, h⟩ := bind_ok_iff.mp h
    obtain ⟨value, hvalue, h⟩ := bind_ok_iff.mp h
    obtain ⟨str, hstr, h⟩ := bind_ok_iff.mp h
    rw [to_qdict_ok] at hdict
    rw [qdict_get_int_ok] at hvalue
    rw [qdict_get_str_ok] at hstr
    have hdeclares : declares className entry = if str = className then some value else none := by
      simp only [declares, hdict, hvalue, hstr]
    rw [declaredIdx, List.findSome?_cons, hdeclares]
    split_ifs at h ⊢ with hname
    · cases h
      rfl
    · exact ih h

theorem set_class_eq {idx : Int64} {info : VemuInstrInfo}
    (hdecl : declaredIdx classInfo className = some idx) (hne : idx.toInt32 ≠ -1) :
    setClass instr idx.toInt32 info =
      (assignedIdx classInfo (className, instr) info.name).elim info (withIdx · info) := by
  have hfilter : (some idx).filter (fun idx ↦ idx.toInt32 ≠ -1) = some idx := by simp [hne]
  unfold setClass assignedIdx
  rw [hdecl, hfilter, byte_of_int]
  by_cases hname : info.name = instr
  · rw [if_pos hname, if_pos hname.symm]
    rfl
  · rw [if_neg hname, if_neg (Ne.symm hname)]
    rfl

theorem not_assigned {name : String}
    (h : (declaredIdx classInfo className).elim (-1) Int64.toInt32 = -1) :
    assignedIdx classInfo (className, instr) name = none := by
  unfold assignedIdx
  cases hdecl : declaredIdx classInfo className with
  | none => simp
  | some idx =>
    rw [hdecl] at h
    simp only [Option.elim_some] at h
    simp [h]

theorem parse_instr_class_ok (h : vemuParseInstrClass classInfo className instr t = .ok t') :
    t' = assignedTables classInfo t [(className, instr)] := by
  obtain ⟨idx, hidx, h⟩ := bind_ok_iff.mp h
  have hfind := find_idx_ok hidx
  split_ifs at h with hnone
  · cases h
    cases hdecl : declaredIdx classInfo className with
    | none =>
      rw [hdecl] at hfind
      exact absurd hfind hnone
    | some value =>
      rw [hdecl, Option.elim_some] at hfind
      subst hfind
      simp only [set_class_eq hdecl hnone]
      rfl
  · cases h
    -- No class of that name, and one whose index is the `int` for none, cannot be told apart.
    have hunset : ∀ {n : ℕ} (instrs : Fin n → VemuInstrInfo),
        assigned classInfo instrs [(className, instr)] = instrs := by
      intro n instrs
      funext i
      have hi : assignedIdx classInfo (className, instr) (instrs i).name = none :=
        not_assigned (hfind ▸ not_not.mp hnone)
      change (assignedIdx classInfo (className, instr) (instrs i).name).elim _ _ = _
      rw [hi]
      rfl
    unfold assignedTables
    rw [hunset, hunset]

theorem assigned_tables_append (t : Tables) (as bs : List (String × String)) :
    assignedTables classInfo t (as ++ bs) =
      assignedTables classInfo (assignedTables classInfo t as) bs := by
  simp only [assignedTables, assigned, putAll, List.foldl_append]

theorem fold_assigned {ι : Type} {f : Tables → ι → Except Fault Tables}
    (as : ι → List (String × String))
    (hf : ∀ t x t', f t x = .ok t' → t' = assignedTables classInfo t (as x)) {xs : List ι}
    (h : xs.foldlM f t = .ok t') : t' = assignedTables classInfo t (xs.flatMap as) := by
  rw [fold_eq_foldl hf h]
  exact foldl_effects (fun _ ↦ rfl) assigned_tables_append as xs t

theorem assign_item_ok {value : QObject} (h : (do
      let insn ← value.getStr
      vemuParseInstrClass classInfo className insn t) = Except.ok t') :
    t' = assignedTables classInfo t
      ((strings (.qlist [value])).map fun insn ↦ (className, insn)) := by
  obtain ⟨insn, hinsn, h⟩ := bind_ok_iff.mp h
  rw [get_str_ok] at hinsn
  rw [hinsn]
  exact parse_instr_class_ok h

theorem flat_items (className : String) (items : List QObject) :
    (items.flatMap fun value ↦ (strings (.qlist [value])).map fun insn ↦ (className, insn)) =
      (strings (.qlist items)).map fun insn ↦ (className, insn) := by
  induction items with
  | nil => rfl
  | cons value items ih =>
    rw [List.flatMap_cons, ih, ← List.map_append]
    cases value <;> rfl

theorem assign_entry_ok {entry : String × QObject} (h : assignEntry classInfo t entry = .ok t') :
    t' = assignedTables classInfo t (entryAssignments entry) := by
  obtain ⟨items, hitems, h⟩ := bind_ok_iff.mp h
  rw [to_qlist_ok] at hitems
  rw [entryAssignments, hitems, ← flat_items]
  exact fold_assigned _ (fun _ _ _ h ↦ assign_item_ok h) h

end Assignments

section Parameters

variable {classInfo : QDict} {s s' : Emu}

def paramValue (w : String × ℕ) (p : Fin pmArraySize) : Option Double :=
  if p.val = (UInt8.ofNat w.2).toNat then some (strtod w.1.toList) else none

def withParams (s : Emu) (ws : List (String × ℕ)) : Emu :=
  { s with pmArray := putAll (fun p _ ↦ p) (fun v _ ↦ v) paramValue s.pmArray ws }

def entryParams (entry : String × QObject) : List (String × ℕ) :=
  match entry.2 with
  | .qdict pdict => ((pdict.lookup "power_param").elim [] strings).zipIdx
  | .qlist _ | .qstring _ | .qint _ | .other => []

def params (classInfo : QDict) : List (String × ℕ) := classInfo.flatMap entryParams

theorem with_params_append (s : Emu) (ws us : List (String × ℕ)) :
    withParams s (ws ++ us) = withParams (withParams s ws) us := by
  simp only [withParams, putAll, List.foldl_append]

theorem with_params_twice (ws : List (String × ℕ)) :
    withParams (withParams s ws) ws = withParams s ws := by
  have htwice := put_all_twice (fun p (_ : Double) ↦ p) (fun v _ ↦ v) paramValue
    (fun _ _ _ ↦ rfl) (fun _ _ _ ↦ rfl) s.pmArray [] ws
  rw [← with_params_append]
  exact congrArg (fun pm ↦ { s with pmArray := pm }) htwice

theorem pm_change_parameter_put {cc : UInt8} {str : String} {idx : ℕ}
    (h : vemuPmChangeParameter s cc (UInt8.ofNat idx) (strtod str.toList) = .ok s') :
    s' = withParams s [(str, idx)] := by
  obtain ⟨p, hp, rfl⟩ := pm_change_parameter_ok h
  have hput : Function.update s.pmArray p (strtod str.toList) =
      putAll (fun p _ ↦ p) (fun v _ ↦ v) paramValue s.pmArray [(str, idx)] := by
    funext q
    change _ = (paramValue (str, idx) q).elim (s.pmArray q) fun v ↦ v
    simp only [Function.update_apply, paramValue, ← hp, Fin.val_inj]
    split_ifs <;> rfl
  rw [hput]
  rfl

theorem parse_params_ok {cc : UInt8} {items : List QObject} {idx : ℕ}
    (h : parseParams cc idx items s = .ok s') :
    s' = withParams s ((strings (.qlist items)).zipIdx idx) := by
  induction items generalizing idx s with
  | nil =>
    cases h
    rfl
  | cons value items ih =>
    obtain ⟨str, hstr, hrest⟩ := bind_ok_iff.mp h
    obtain ⟨s₁, hchange, hrest⟩ := bind_ok_iff.mp hrest
    rw [get_str_ok] at hstr
    rw [ih hrest, pm_change_parameter_put hchange, ← with_params_append, hstr]
    rfl

theorem parse_class_params_ok {cc : UInt8} {entry : String × QObject}
    (h : parseClassParams cc s entry = .ok s') : s' = withParams s (entryParams entry) := by
  obtain ⟨pdict, hdict, h⟩ := bind_ok_iff.mp h
  rw [to_qdict_ok] at hdict
  rw [entryParams, hdict]
  dsimp only
  cases hparams : pdict.lookup "power_param" with
  | none =>
    rw [hparams] at h
    cases h
    rfl
  | some list =>
    rw [hparams] at h
    obtain ⟨items, hitems, h⟩ := bind_ok_iff.mp h
    rw [to_qlist_ok] at hitems
    rw [hitems]
    exact parse_params_ok h

theorem parse_pm_parameters_ok {classIdx : String}
    (h : vemuParsePmParameters classInfo classIdx s = .ok s') :
    s' = withParams s (params classInfo) := by
  rw [fold_eq_foldl (fun _ _ _ ↦ parse_class_params_ok) h]
  exact foldl_effects (fun _ ↦ rfl) with_params_append entryParams classInfo s

end Parameters

section Lines

variable {parse} {classInfo : QDict} {c c' : Config} {line : List Char} {qdict : QDict}

variable (parse) in
def lineAssigns (line : List Char) : Bool :=
  match parse line with
  | some (.qdict qdict) => assignsClasses qdict
  | _ => false

variable (parse classInfo) in
def lineEffect (c : Config) (line : List Char) : Config where
  tables := assignedTables classInfo c.tables (assignments parse line)
  emu := if lineAssigns parse line then withParams c.emu (params classInfo) else c.emu

theorem line_effect_inert (h : lineAssigns parse line = false) :
    lineEffect parse classInfo c line = c := by
  have has : assignments parse line = [] := by
    unfold lineAssigns at h
    unfold assignments
    split <;> simp_all
  rw [lineEffect, has, h]
  rfl

theorem walk_lists_ok (h : walkLists qdict c = .ok c') : c' = c := by
  have hkept : c' = qdict.foldl (fun c _ ↦ c) c := by
    refine fold_eq_foldl (fun c entry c' hentry ↦ ?_) h
    obtain ⟨items, -, hentry⟩ := bind_ok_iff.mp hentry
    cases hentry
    rfl
  rw [hkept, List.foldl_fixed]

theorem parse_dict_eq : parseDict classInfo c qdict =
    if assignsClasses qdict then assignLine classInfo c qdict
    else if qdictHaskey qdict "y" then walkLists qdict c
    else .ok c := by
  unfold parseDict assignsClasses
  generalize (qdictHaskey qdict "start_pc" && qdictHaskey qdict "end_pc") = pc
  generalize (qdictHaskey qdict "start_icount" && qdictHaskey qdict "end_icount") = icount
  cases qdictHaskey qdict "y" <;> cases pc <;> cases icount <;>
    cases qdictHaskey qdict "error_regs" <;> cases qdictHaskey qdict "mem_errors" <;> rfl

theorem assign_line_ok (hparse : parse line = some (.qdict qdict))
    (hassigns : assignsClasses qdict = true) (h : assignLine classInfo c qdict = .ok c') :
    c' = lineEffect parse classInfo c line := by
  cases qdict with
  | nil => cases h
  | cons entry entries =>
    obtain ⟨emu, hemu, h⟩ := bind_ok_iff.mp h
    obtain ⟨tables, htables, h⟩ := bind_ok_iff.mp h
    cases h
    have hfold := fold_assigned entryAssignments (fun _ _ _ h ↦ assign_entry_ok h) htables
    simp [lineEffect, assignments, lineAssigns, hparse, hassigns, parse_pm_parameters_ok hemu,
      hfold]

theorem parse_line_ok (h : parseLine parse classInfo c line = .ok c') :
    c' = lineEffect parse classInfo c line := by
  unfold parseLine at h
  cases hparse : parse line with
  | none =>
    rw [hparse] at h
    cases h
    exact (line_effect_inert (by simp [lineAssigns, hparse])).symm
  | some qobj =>
    rw [hparse] at h
    obtain ⟨qdict, hdict, h⟩ := bind_ok_iff.mp h
    rw [to_qdict_ok] at hdict
    rw [hdict] at hparse
    rw [parse_dict_eq] at h
    split_ifs at h with hassigns hwalk
    · exact assign_line_ok hparse hassigns h
    · rw [line_effect_inert (by simpa [lineAssigns, hparse] using hassigns)]
      exact walk_lists_ok h
    · rw [line_effect_inert (by simpa [lineAssigns, hparse] using hassigns)]
      cases h
      rfl

theorem lines_ok {lines : List (List Char)}
    (h : lines.foldlM (parseLine parse classInfo) c = .ok c') :
    c' = lines.foldl (lineEffect parse classInfo) c :=
  fold_eq_foldl (fun _ _ _ ↦ parse_line_ok) h

theorem lines_tables (lines : List (List Char)) :
    (lines.foldl (lineEffect parse classInfo) c).tables =
      assignedTables classInfo c.tables (lines.flatMap (assignments parse)) := by
  rw [← foldl_effects (fun _ ↦ rfl) assigned_tables_append (assignments parse) lines c.tables]
  exact (List.foldl_hom Config.tables fun _ _ ↦ rfl).symm

theorem assigned_twice {n : ℕ} (instrs : Fin n → VemuInstrInfo) (as : List (String × String)) :
    assigned classInfo (assigned classInfo instrs as) as = assigned classInfo instrs as := by
  have htwice := put_all_twice (fun (_ : Fin n) info ↦ info.name) withIdx (assignedIdx classInfo)
    (fun _ _ _ ↦ rfl) (fun _ _ _ ↦ rfl) instrs [] as
  rw [List.nil_append, putAll, List.foldl_append] at htwice
  exact htwice

/-- The line that is parsed again at the end of the file has no effect the second time. -/
theorem line_effect_twice :
    lineEffect parse classInfo (lineEffect parse classInfo c line) line =
      lineEffect parse classInfo c line := by
  unfold lineEffect
  congr 1
  · unfold assignedTables
    rw [assigned_twice, assigned_twice]
  · split_ifs
    · exact with_params_twice _
    · rfl

end Lines

end VarEmu.Emulator.InputFile
