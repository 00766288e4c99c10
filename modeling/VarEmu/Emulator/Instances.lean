import VarEmu.Emulator.ClassTable
import VarEmu.Emulator.Numerals

namespace VarEmu.Emulator.Instances

open State Energy Monitor Numerals InputFile ClassTable
open Library.Decimal Library.LastWriter

/-- The random numbers of the generator are arguments, and so is `math.exp`. -/
def genInstance (exp : ℚ → ℚ) (x1 x2 x3 x4 : ℚ) : List ℚ :=
  let T := 21
  let Vdd := 1
  let dynamicPowerMultiplier := 0.0001
  let Nd := dynamicPowerMultiplier * (1 + 0.01 * (0.7273 * x1 - 0.6864 * x2))
  let Bd := 2.088 + 0.6864 * x1 + 0.7273 * x2
  let Cd := 0.6386 + x3
  let leakagePowerMultiplier := 0.02
  let Nl := leakagePowerMultiplier * exp x4
  let Al := -9210
  let Bl := 890
  let Vnl := 0.2
  let Vpl := 0.232
  let deltaVtp := 0
  let mode := 1
  let VddScalar := 1
  [T, Vdd, Nd, Bd, Cd, Nl, Al, Bl, Vnl, Vpl, deltaVtp, mode, VddScalar]

inductive Member
  | T | Vdd | Nd | Bd | Cd | Nl | Al | Bl | Vnl | Vpl | deltaVtp | mode | VddScalar
  deriving DecidableEq

namespace Member

def position : Member → ℕ
  | T => 0
  | Vdd => 1
  | Nd => 2
  | Bd => 3
  | Cd => 4
  | Nl => 5
  | Al => 6
  | Bl => 7
  | Vnl => 8
  | Vpl => 9
  | deltaVtp => 10
  | mode => 11
  | VddScalar => 12

/-- Its place in `esweek_pm`, which begins with the frequency. -/
def field : Member → Fin pmArraySize
  | Vdd => 1
  | T => 2
  | Nd => 3
  | Bd => 4
  | Cd => 5
  | Nl => 6
  | Al => 7
  | Bl => 8
  | Vnl => 9
  | Vpl => 10
  | deltaVtp => 11
  | mode => 12
  | VddScalar => 13

end Member

def header : List Char := "\x7b\"0\": \x7b\"class_name\": \"all\", \"power_param\" : [  ".toList

-- The backspace is meant for the blank before it, but stays in the text.
def entry (x : ℚ) : List Char := '\x08' :: '"' :: ((fixed 6 x).text ++ ['"', ',', ' '])

def cut (i : List ℚ) : List Char :=
  let msg := header ++ i.flatMap entry
  msg.take (msg.length - 2)

def printInstance (i : List ℚ) : List Char :=
  cut i ++ "], \"idx\": 0\x7d\x7d\n\x7b\"all\": []\x7d".toList ++ ['\n']

def declLine (i : List ℚ) : List Char := cut i ++ "], \"idx\": 0\x7d\x7d".toList

def allLine : List Char := "\x7b\"all\": []\x7d".toList

def texts (i : List ℚ) : List String := i.map fun x ↦ String.ofList (fixed 6 x).text

def declared (i : List ℚ) : QDict :=
  [("0", .qdict [("class_name", .qstring "all"),
    ("power_param", .qlist ((texts i).map .qstring)), ("idx", .qint 0)])]

/-- What is asked of the JSON parser: if it takes the first line at all, with its backspaces, then
for what it says, and it takes the second. -/
structure Reads (parse : List Char → Option QObject) (i : List ℚ) : Prop where
  decl : parse (declLine i ++ ['\n']) = none ∨
    parse (declLine i ++ ['\n']) = some (.qdict (declared i))
  all : parse (allLine ++ ['\n']) = some (.qdict [("all", .qlist [])])

/-- Every member arrives in the field of its name as it was printed, to the nearest double, and
there is a frequency. -/
def LoadsBack (parse : List Char → Option QObject) (line : List Char) (i : List ℚ) (c : Config) :
    Prop :=
  ∃ c', vemuParseInputFile parse line (printInstance i) c = .ok c' ∧
    (∀ (m : Member) (x : ℚ), i[m.position]? = some x →
      c'.emu.pmArray m.field = .nearest (rounded 6 x)) ∧
    ∃ f, 0 < f ∧ c'.emu.pmArray 0 = .rat f

section Lines

theorem print_instance_eq (i : List ℚ) :
    printInstance i = declLine i ++ '\n' :: (allLine ++ ['\n']) := by
  have htail : "], \"idx\": 0\x7d\x7d\n\x7b\"all\": []\x7d".toList =
      "], \"idx\": 0\x7d\x7d".toList ++ '\n' :: allLine := by decide
  rw [printInstance, declLine, htail]
  simp

theorem entry_no_newline (x : ℚ) : '\n' ∉ entry x := by
  intro h
  simp only [entry, List.mem_cons, List.mem_append, List.not_mem_nil, or_false] at h
  rcases h with h | h | h | h | h | h
  · exact absurd h (by decide)
  · exact absurd h (by decide)
  · exact absurd (DecimalText.text_mem h) (by decide)
  · exact absurd h (by decide)
  · exact absurd h (by decide)
  · exact absurd h (by decide)

theorem decl_line_no_newline (i : List ℚ) : '\n' ∉ declLine i := by
  intro h
  rcases List.mem_append.mp h with h | h
  · rcases List.mem_append.mp (List.mem_of_mem_take h) with h | h
    · exact absurd h (by decide)
    · obtain ⟨x, -, hx⟩ := List.mem_flatMap.mp h
      exact entry_no_newline x hx
  · exact absurd h (by decide)

theorem length_entry_le {x : ℚ} {k : ℕ} (h : |x| < 10 ^ k) : (entry x).length ≤ k + 14 := by
  have htext : (fixed 6 x).text.length ≤ 6 + k + 3 := length_fixed_le h
  simp only [entry, List.length_cons, List.length_append, List.length_nil]
  omega

theorem length_decl_line_le (i : List ℚ) :
    (declLine i).length ≤ 60 + (i.map fun x ↦ (entry x).length).sum := by
  have hheader : header.length = 47 := by decide
  have htail : "], \"idx\": 0\x7d\x7d".toList.length = 13 := by decide
  rw [declLine, List.length_append, htail, cut, List.length_take, List.length_append, hheader,
    List.length_flatMap]
  omega

theorem generated_short {exp : ℚ → ℚ} {x1 x2 x3 x4 : ℚ}
    (h : ∀ x ∈ genInstance exp x1 x2 x3 x4, |x| < 2 ^ 1024) :
    (declLine (genInstance exp x1 x2 x3 x4)).length ≤ 1998 := by
  have hlong : ∀ x ∈ genInstance exp x1 x2 x3 x4, (entry x).length ≤ 323 := by
    intro x hx
    have hdigits : 2 ^ 1024 < 10 ^ 309 := by decide +kernel
    exact length_entry_le ((h x hx).trans (by exact_mod_cast hdigits))
  have hsmall : ∀ x ∈ ([21, 1, -9210, 890, 0.2, 0.232, 0] : List ℚ), (entry x).length ≤ 18 := by
    intro x hx
    refine length_entry_le (k := 4) ?_
    revert x
    decide +kernel
  have hle := length_decl_line_le (genInstance exp x1 x2 x3 x4)
  simp only [genInstance, List.forall_mem_cons, List.map_cons, List.sum_cons, List.map_nil,
    List.sum_nil] at hlong hsmall hle ⊢
  omega

end Lines

section Loading

variable {parse : List Char → Option QObject} {i : List ℚ} {line : List Char} {c : Config}

def file (i : List ℚ) (hshort : (declLine i).length ≤ 1998) : ConfigFile where
  decl := declLine i
  lines := []
  last := allLine
  newline := true
  short := by
    intro l hl
    rcases List.mem_cons.mp hl with rfl | hl
    · exact ⟨decl_line_no_newline i, hshort⟩
    · rw [List.mem_singleton.mp hl]
      decide
  last_ne := .inl rfl

theorem file_contents (hshort : (declLine i).length ≤ 1998) :
    (file i hshort).contents = printInstance i := by
  rw [print_instance_eq, ConfigFile.contents]
  simp [file, ConfigFile.body, ConfigFile.lastLine, ended]

theorem last_text {l : List String} (h : l.length ≤ pmArraySize) (p : Fin pmArraySize) :
    lastWrite paramValue l.zipIdx p = l[p.val]?.map fun t ↦ strtod t.toList := by
  induction l using List.reverseRecOn with
  | nil => rfl
  | append_singleton l t ih =>
    have hlen : l.length < pmArraySize := by simpa [Nat.succ_le_iff] using h
    have hbyte : (UInt8.ofNat l.length).toNat = l.length := by
      rw [UInt8.toNat_ofNat']
      exact Nat.mod_eq_of_lt (hlen.trans (by decide))
    rw [List.zipIdx_append, List.zipIdx_singleton, Nat.zero_add, last_write_snoc,
      ih hlen.le, paramValue, hbyte]
    by_cases hp : p.val = l.length
    · simp [hp]
    · have hback : (l ++ [t])[p.val]? = l[p.val]? := by
        rcases Nat.lt_or_gt_of_ne hp with hlt | hgt
        · exact List.getElem?_append_left hlt
        · rw [List.getElem?_eq_none hgt.le, List.getElem?_eq_none]
          rw [List.length_append, List.length_singleton]
          exact hgt
      rw [if_neg hp, hback, Option.none_or]

theorem with_texts (s : Emu) (h : i.length ≤ pmArraySize) (p : Fin pmArraySize) :
    (withParams s (texts i).zipIdx).pmArray p =
      i[p.val]?.elim (s.pmArray p) fun x ↦ .nearest (rounded 6 x) := by
  have hlen : (texts i).length ≤ pmArraySize := by simpa [texts] using h
  have hput := put_all_apply (fun p (_ : Double) ↦ p) (fun v _ ↦ v) paramValue
    (fun _ _ _ ↦ rfl) (fun _ _ _ ↦ rfl) s.pmArray (texts i).zipIdx p
  rw [last_text hlen, texts, List.getElem?_map] at hput
  refine hput.trans ?_
  cases i[p.val]? with
  | none => rfl
  | some x => simp [strtod_text, fixed_value]

theorem printed_integer {z : ℤ} (h : |z| < 2 ^ 53) :
    Double.nearest (rounded 6 (z : ℚ)) = .rat z := by
  rw [rounded_intCast, nearest_intCast h]

theorem params_declared (i : List ℚ) : params (declared i) = (texts i).zipIdx := by
  have hstrings : strings (.qlist ((texts i).map .qstring)) = texts i := by
    rw [strings, List.filterMap_map]
    exact List.filterMap_some
  change (strings (.qlist ((texts i).map .qstring))).zipIdx ++ [] = _
  rw [hstrings, List.append_nil]

theorem instance_loaded (hdecl : parse (declLine i ++ ['\n']) = some (.qdict (declared i)))
    (hall : parse (allLine ++ ['\n']) = some (.qdict [("all", .qlist [])]))
    (hshort : (declLine i).length ≤ 1998) (hlen : i.length ≤ pmArraySize) (line : List Char)
    (c : Config) :
    ∃ c', vemuParseInputFile parse line (printInstance i) c = .ok c' ∧
      ∀ p, c'.emu.pmArray p = i[p.val]?.elim (c.emu.pmArray p) fun x ↦ .nearest (rounded 6 x) := by
  have hclasses : Declaration (declared i) := by
    refine ⟨List.cons_ne_nil _ _, fun entry hentry ↦ ?_⟩
    rw [List.mem_singleton.mp hentry]
    refine ⟨_, 0, "all", rfl, rfl, rfl, fun list hlist ↦ ⟨texts i, ?_, ?_⟩⟩
    · exact (Option.some.inj hlist).symm
    · simpa [texts] using hlen
  have hbody : ∀ l ∈ (file i hshort).body, WellFormedLine parse l := by
    intro l hl
    have hlast : l = allLine ++ ['\n'] := List.mem_singleton.mp hl
    refine .inr ⟨[("all", .qlist [])], ?_, fun _ ↦ ?_, fun hy ↦ absurd hy (by decide)⟩
    · rw [hlast, hall]
    · refine ⟨List.cons_ne_nil _ _, fun entry hentry ↦ ⟨[], ?_⟩⟩
      rw [List.mem_singleton.mp hentry]
      rfl
  have hload : vemuParseInputFile parse line (file i hshort).contents c = _ :=
    parse_input_file_total (file i hshort) hdecl hclasses hbody
  rw [file_contents] at hload
  refine ⟨_, hload, ?_⟩
  intro p
  have hassigns : lineAssigns parse (allLine ++ ['\n']) = true := by
    rw [lineAssigns, hall]
    rfl
  change (lineEffect parse (declared i) c (allLine ++ ['\n'])).emu.pmArray p = _
  rw [lineEffect]
  dsimp only
  rw [if_pos hassigns, params_declared, with_texts c.emu hlen]

theorem instance_rejected (hdecl : parse (declLine i ++ ['\n']) = none)
    (hshort : (declLine i).length ≤ 1998) :
    vemuParseInputFile parse line (printInstance i) c = .error .outOfBounds := by
  have hfgets : fgets line ⟨printInstance i, false⟩ =
      (declLine i ++ ['\n'], ⟨allLine ++ ['\n'], false⟩) := by
    rw [print_instance_eq]
    exact fgets_newline (decl_line_no_newline i) hshort
  rw [vemuParseInputFile, hfgets]
  dsimp only
  rw [hdecl]

end Loading

/-- No generated instance loads back: where the first line is taken at all, the list is stored
from the frequency on, and the last parameter keeps the value it had. -/
theorem generated_instance_misplaced (exp : ℚ → ℚ) (x1 x2 x3 x4 : ℚ)
    (hfinite : ∀ x ∈ genInstance exp x1 x2 x3 x4, |x| < 2 ^ 1024)
    (parse : List Char → Option QObject) (hparse : Reads parse (genInstance exp x1 x2 x3 x4))
    (line : List Char) (c : Config) :
    ¬LoadsBack parse line (genInstance exp x1 x2 x3 x4) c ∧
    ∀ c', vemuParseInputFile parse line (printInstance (genInstance exp x1 x2 x3 x4)) c = .ok c' →
      ∀ p, c'.emu.pmArray p = (genInstance exp x1 x2 x3 x4)[p.val]?.elim (c.emu.pmArray p)
        fun x ↦ .nearest (rounded 6 x) := by
  have hshort := generated_short hfinite
  have hlen : (genInstance exp x1 x2 x3 x4).length ≤ pmArraySize := show 13 ≤ 14 by decide
  have hstored : ∀ c',
      vemuParseInputFile parse line (printInstance (genInstance exp x1 x2 x3 x4)) c = .ok c' →
      ∀ p, c'.emu.pmArray p = (genInstance exp x1 x2 x3 x4)[p.val]?.elim (c.emu.pmArray p)
        fun x ↦ .nearest (rounded 6 x) := by
    intro c' hc'
    rcases hparse.decl with hnone | hsome
    · rw [instance_rejected hnone hshort] at hc'
      cases hc'
    · obtain ⟨c'', hload, hpm⟩ := instance_loaded hsome hparse.all hshort hlen line c
      obtain rfl : c'' = c' := Except.ok.inj (hload.symm.trans hc')
      exact hpm
  refine ⟨?_, hstored⟩
  rintro ⟨c', hc', hmembers, -⟩
  -- The exponent `Bl` arrives where `Al` belongs.
  have hAl : c'.emu.pmArray 7 = .nearest (rounded 6 (-9210 : ℤ)) := hmembers .Al _ rfl
  have hBl : c'.emu.pmArray 7 = .nearest (rounded 6 (890 : ℤ)) := hstored c' hc' 7
  rw [hAl, printed_integer (by decide), printed_integer (by decide)] at hBl
  exact absurd hBl (by decide)

/-- The instance without variation, and a parser that passes over the backspaces. -/
def nominal : List ℚ := genInstance (fun _ ↦ 1) 0 0 0 0

def tolerant (line : List Char) : Option QObject :=
  if line = declLine nominal ++ ['\n'] then some (.qdict (declared nominal))
  else if line = allLine ++ ['\n'] then some (.qdict [("all", .qlist [])])
  else none

theorem tolerant_decl : tolerant (declLine nominal ++ ['\n']) = some (.qdict (declared nominal)) :=
  if_pos rfl

theorem tolerant_all : tolerant (allLine ++ ['\n']) = some (.qdict [("all", .qlist [])]) := by
  have hne : allLine ++ ['\n'] ≠ declLine nominal ++ ['\n'] := by decide +kernel
  rw [tolerant, if_neg hne, if_pos rfl]

theorem nominal_misplaced : ¬LoadsBack tolerant [] nominal beforeLoading :=
  (generated_instance_misplaced (fun _ ↦ 1) 0 0 0 0 (by decide +kernel) tolerant
    ⟨.inr tolerant_decl, tolerant_all⟩ [] beforeLoading).1

theorem nominal_stored : ∃ c',
    vemuParseInputFile tolerant [] (printInstance nominal) beforeLoading = .ok c' ∧
    c'.emu.pmArray 0 = .rat 21 ∧ c'.emu.pmArray Member.Al.field = .rat 890 := by
  have hshort : (declLine nominal).length ≤ 1998 := generated_short (by decide +kernel)
  obtain ⟨c', hload, hpm⟩ := instance_loaded tolerant_decl tolerant_all hshort (by decide) []
    beforeLoading
  have hT : c'.emu.pmArray 0 = .nearest (rounded 6 (21 : ℤ)) := hpm 0
  have hBl : c'.emu.pmArray 7 = .nearest (rounded 6 (890 : ℤ)) := hpm 7
  rw [printed_integer (by decide)] at hT hBl
  exact ⟨c', hload, hT, hBl⟩

end VarEmu.Emulator.Instances
