import VarEmu.Library.Words
import VarEmu.Emulator.Numerals
import VarEmu.Emulator.Machine

namespace VarEmu.Emulator.Prompt

open State Cycles Energy Monitor Numerals
open Library.Decimal Library.Execution Library.Rounding Library.Words
open Machine (energy_change_parameter_books linearHost gigahertz)

structure Typed where
  pnumber : CString
  cvalue : CString
  pvalue : CString

def vemuModelParam : List Char := "vemu-model-param".toList

def quoted (name : Char) (text : List Char) : List Char := name :: '=' :: '"' :: (text ++ ['"'])

def Typed.options (t : Typed) : List Char :=
  quoted 'p' t.pnumber.chars ++ ' ' ::
    (quoted 'v' t.pvalue.chars ++ ' ' :: quoted 'c' t.cvalue.chars)

def Typed.cmdline (t : Typed) : List Char := vemuModelParam ++ ' ' :: t.options

/-- The client's `int`, which takes the whole text or raises. -/
def pyInt (text : List Char) : Option ℤ :=
  let (neg, digits) := takeSign text
  if digits ≠ [] ∧ digits.all Char.isDigit then
    let v : ℤ := (takeDigits 10 0 0 digits).1
    some (if neg then -v else v)
  else none

inductive Value
  | int (n : ℤ)
  | str (text : List Char)
  deriving DecidableEq

abbrev Args := List (List Char × Value)

def Args.get (args : Args) (name : List Char) : Option Value :=
  (args.reverse.find? (·.1 = name)).map (·.2)

def pyValue (text : List Char) : Value := (pyInt text).elim (.str text) .int

-- Without an equals sign there is no second element, and the exception ends the command.
def buildArg (arg : List Char) : Option (List Char × Value) :=
  match arg.splitOn '=' with
  | name :: text :: _ => some (name, pyValue text)
  | _ => none

def buildCmd (cmdline : List Char) : Option (List Char × Args) :=
  match words isSpace cmdline with
  | [] => none
  | execute :: cmdargs => (cmdargs.mapM buildArg).map fun args ↦ (execute, args)

/-- The names in `"c:s,p:s,v:s"`. -/
def cmdArgs : List (List Char) := [['c'], ['p'], ['v']]

def checkMandatoryArgs (args : Args) : Bool := cmdArgs.all fun name ↦ (args.get name).isSome

def isStr : Value → Bool
  | .int _ => false
  | .str _ => true

def checkClientArgsType (args : Args) : Bool :=
  args.all fun arg ↦ arg.1 ∈ cmdArgs && (args.get arg.1).any isStr

def qmpCheckClientArgs (args : Args) : Bool := checkMandatoryArgs args && checkClientArgsType args

-- The bytes that were typed arrive as a C string.
def Args.getStr (args : Args) (name : List Char) : Except Fault CString :=
  match args.get name with
  | some (.str text) => if h : IsBytes text then .ok ⟨text, h⟩ else .error .assertion
  | _ => .error .assertion

variable (host : Host)

/-- A change of a parameter, from the prompt to the power model. -/
def readExecCommand (s : Emu) (t : Typed) : Except Fault Emu :=
  match buildCmd t.cmdline with
  | none => .ok s
  | some (_, args) =>
    if qmpCheckClientArgs args then do
      let c ← args.getStr ['c']
      let p ← args.getStr ['p']
      let v ← args.getStr ['v']
      vemuDoChangeModelParam host s c p v
    else .ok s

section Pieces

def pieces (t : Typed) : List (List Char) := words isSpace t.options

def nameOf (piece : List Char) : List Char := piece.takeWhile (· ≠ '=')

def textOf (piece : List Char) : List Char :=
  ((piece.dropWhile (· ≠ '=')).drop 1).takeWhile (· ≠ '=')

def lastNamed (t : Typed) (name : List Char) : Option (List Char) :=
  (pieces t).reverse.find? (nameOf · = name)

theorem words_cmdline (t : Typed) : words isSpace t.cmdline = vemuModelParam :: pieces t := by
  have hsolid : words isSpace vemuModelParam = [vemuModelParam] :=
    words_solid (by decide) (List.all_iff_forall_prop.mp (by decide))
  rw [Typed.cmdline, words_append_sep (by decide), hsolid]
  rfl

theorem pieces_eq (t : Typed) :
    pieces t = words isSpace (quoted 'p' t.pnumber.chars) ++
      (words isSpace (quoted 'v' t.pvalue.chars) ++
        words isSpace (quoted 'c' t.cvalue.chars)) := by
  rw [pieces, Typed.options, words_append_sep (by decide), words_append_sep (by decide)]

theorem build_arg_none {piece : List Char} (h : '=' ∉ piece) : buildArg piece = none := by
  rw [buildArg, List.splitOn_eq_singleton h]

theorem build_arg_some {piece : List Char} (h : '=' ∈ piece) :
    buildArg piece = some (nameOf piece, pyValue (textOf piece)) := by
  obtain ⟨rest, hrest⟩ := split_on_head '=' ((piece.dropWhile (· ≠ '=')).drop 1)
  rw [buildArg, split_on_of_mem h, hrest]
  rfl

theorem build_args_none {ws : List (List Char)} (h : ∃ w ∈ ws, '=' ∉ w) :
    ws.mapM buildArg = none := by
  induction ws with
  | nil => simp at h
  | cons w ws ih =>
    rw [List.mapM_cons]
    by_cases hw : '=' ∈ w
    · have hws : ∃ w ∈ ws, '=' ∉ w := by simpa [hw] using h
      simp [build_arg_some hw, ih hws]
    · simp [build_arg_none hw]

theorem build_args_some {ws : List (List Char)} (h : ∀ w ∈ ws, '=' ∈ w) :
    ws.mapM buildArg = some (ws.map fun w ↦ (nameOf w, pyValue (textOf w))) := by
  induction ws with
  | nil => rfl
  | cons w ws ih =>
    obtain ⟨hw, hws⟩ := List.forall_mem_cons.mp h
    simp [List.mapM_cons, build_arg_some hw, ih hws]

def built (t : Typed) : Args := (pieces t).map fun w ↦ (nameOf w, pyValue (textOf w))

theorem get_built (t : Typed) (name : List Char) :
    (built t).get name = (lastNamed t name).map fun w ↦ pyValue (textOf w) := by
  rw [Args.get, built, ← List.map_reverse, List.find?_map, Option.map_map]
  rfl

theorem piece_named (t : Typed) {name : List Char} (hname : name ∈ cmdArgs) :
    ∃ w ∈ pieces t, nameOf w = name := by
  have hquoted : ∀ (n : Char) (text : List Char), isSpace n = false → n ≠ '=' →
      ∃ w ∈ words isSpace (quoted n text), nameOf w = [n] := by
    intro n text hn heq
    have hsolid : ∀ c ∈ [n, '=', '"'], isSpace c = false := by
      intro c hc
      simp only [List.mem_cons, List.not_mem_nil, or_false] at hc
      rcases hc with rfl | rfl | rfl
      · exact hn
      · decide
      · decide
    obtain ⟨u, us, h⟩ := words_solid_append (by simp) hsolid (text ++ ['"'])
    refine ⟨[n, '=', '"'] ++ u, ?_, ?_⟩
    · rw [show quoted n text = [n, '=', '"'] ++ (text ++ ['"']) from rfl, h]
      exact List.mem_cons_self
    · simp [nameOf, heq]
  rw [pieces_eq]
  simp only [cmdArgs, List.mem_cons, List.not_mem_nil, or_false] at hname
  rcases hname with rfl | rfl | rfl
  · obtain ⟨w, hw, h⟩ := hquoted 'c' t.cvalue.chars (by decide) (by decide)
    exact ⟨w, by simp [hw], h⟩
  · obtain ⟨w, hw, h⟩ := hquoted 'p' t.pnumber.chars (by decide) (by decide)
    exact ⟨w, by simp [hw], h⟩
  · obtain ⟨w, hw, h⟩ := hquoted 'v' t.pvalue.chars (by decide) (by decide)
    exact ⟨w, by simp [hw], h⟩

theorem quoted_bytes {name : Char} {text : List Char} (hname : 0 < name.toNat ∧ name.toNat < 256)
    (h : IsBytes text) : IsBytes (quoted name text) := by
  refine List.forall_mem_cons.mpr ⟨hname, List.forall_mem_cons.mpr ⟨by decide,
    List.forall_mem_cons.mpr ⟨by decide, List.forall_mem_append.mpr ⟨h, ?_⟩⟩⟩⟩
  exact List.forall_mem_singleton.mpr (by decide)

theorem options_bytes (t : Typed) : IsBytes t.options :=
  List.forall_mem_append.mpr ⟨quoted_bytes (by decide) t.pnumber.byte,
    List.forall_mem_cons.mpr ⟨by decide, List.forall_mem_append.mpr
      ⟨quoted_bytes (by decide) t.pvalue.byte,
        List.forall_mem_cons.mpr ⟨by decide, quoted_bytes (by decide) t.cvalue.byte⟩⟩⟩⟩

theorem text_of_bytes {t : Typed} {w : List Char} (hw : w ∈ pieces t) : IsBytes (textOf w) := by
  intro c hc
  have hdrop : c ∈ (w.dropWhile (· ≠ '=')).drop 1 := List.takeWhile_subset _ hc
  have hmem : c ∈ w := (List.dropWhile_suffix _).subset (List.mem_of_mem_drop hdrop)
  exact options_bytes t c (mem_of_mem_words hw c hmem)

theorem last_named_some (t : Typed) {name : List Char} (hname : name ∈ cmdArgs) :
    ∃ w ∈ pieces t, lastNamed t name = some w := by
  obtain ⟨w, hw, h⟩ := piece_named t hname
  have hsome : (lastNamed t name).isSome := by
    rw [lastNamed, List.find?_isSome]
    exact ⟨w, List.mem_reverse.mpr hw, by simp [h]⟩
  obtain ⟨w', hw'⟩ := Option.isSome_iff_exists.mp hsome
  exact ⟨w', List.mem_reverse.mp (List.mem_of_find?_eq_some hw'), hw'⟩

end Pieces

section Integers

theorem digit_char_surjective {c : Char} (h : c.isDigit = true) : ∃ d, digitChar d = c := by
  have hrange : 48 ≤ c.toNat ∧ c.toNat ≤ 57 := by
    simpa [Char.isDigit, UInt32.le_iff_toNat_le] using h
  refine ⟨⟨c.toNat - 48, by omega⟩, ?_⟩
  rw [digitChar, show 48 + (c.toNat - 48) = c.toNat by omega, Char.ofNat_toNat]

theorem digit_char_isDigit (d : Fin 10) : (digitChar d).isDigit = true := by
  decide +revert

theorem digits_of_all {cs : List Char} (h : cs.all Char.isDigit = true) :
    ∃ ds : List (Fin 10), ds.map digitChar = cs := by
  induction cs with
  | nil => exact ⟨[], rfl⟩
  | cons c cs ih =>
    rw [List.all_cons, Bool.and_eq_true] at h
    obtain ⟨hc, hcs⟩ := h
    obtain ⟨d, rfl⟩ := digit_char_surjective hc
    obtain ⟨ds, rfl⟩ := ih hcs
    exact ⟨d :: ds, rfl⟩

theorem take_sign_eq (text : List Char) : ∃ sign : Sign, text = sign.text ++ (takeSign text).2 := by
  cases text with
  | nil => exact ⟨.absent, rfl⟩
  | cons c cs =>
    rw [takeSign]
    split_ifs with hminus hplus
    · exact ⟨.minus, by rw [hminus]; rfl⟩
    · exact ⟨.plus, by rw [hplus]; rfl⟩
    · exact ⟨.absent, rfl⟩

/-- The client turns a text into a number exactly when it is an integer with an optional sign. -/
theorem py_int_isSome (text : List Char) :
    (pyInt text).isSome = true ↔ ∃ n : IntegerText, text = n.text := by
  constructor
  · intro h
    unfold pyInt at h
    by_cases hdigits : (takeSign text).2 ≠ [] ∧ (takeSign text).2.all Char.isDigit = true
    · obtain ⟨ds, hds⟩ := digits_of_all hdigits.2
      obtain ⟨sign, hsign⟩ := take_sign_eq text
      have hne : ds ≠ [] := by
        rintro rfl
        exact hdigits.1 hds.symm
      refine ⟨⟨sign, ds, hne⟩, ?_⟩
      rw [hsign, ← hds]
      rfl
    · dsimp only at h
      rw [if_neg hdigits] at h
      cases h
  · rintro ⟨n, rfl⟩
    have hall : (n.digits.map digitChar).all Char.isDigit = true := by
      simp [digit_char_isDigit]
    have hne : n.digits.map digitChar ≠ [] := by simpa using n.digits_ne
    rw [pyInt, integer_sign]
    simp only [hall, hne, ne_eq, not_false_eq_true, and_self, if_true, Option.isSome_some]

theorem py_value_str_iff (text : List Char) :
    isStr (pyValue text) = true ↔ ¬∃ n : IntegerText, text = n.text := by
  rw [← py_int_isSome, pyValue]
  cases pyInt text <;> simp [isStr]

theorem py_value_str {text : List Char} (h : ¬∃ n : IntegerText, text = n.text) :
    pyValue text = .str text := by
  rw [← py_int_isSome] at h
  rw [pyValue, Option.not_isSome_iff_eq_none.mp h]
  rfl

end Integers

/-- Typed texts that never reach the emulator: a piece without an equals sign, a piece with an
unknown name, or a name whose last piece is a bare integer. -/
def Dropped (t : Typed) : Prop :=
  (∃ w ∈ pieces t, '=' ∉ w) ∨ (∃ w ∈ pieces t, nameOf w ∉ cmdArgs) ∨
  ∃ name ∈ cmdArgs, ∃ w, lastNamed t name = some w ∧ ∃ n : IntegerText, textOf w = n.text

section Transport

variable {t : Typed}

theorem build_cmd_none (h : ∃ w ∈ pieces t, '=' ∉ w) : buildCmd t.cmdline = none := by
  rw [buildCmd, words_cmdline]
  dsimp only
  rw [build_args_none h]
  rfl

theorem build_cmd_some (h : ∀ w ∈ pieces t, '=' ∈ w) :
    buildCmd t.cmdline = some (vemuModelParam, built t) := by
  rw [buildCmd, words_cmdline]
  dsimp only
  rw [build_args_some h]
  rfl

theorem check_mandatory_built (t : Typed) :
    checkMandatoryArgs (built t) = true := by
  rw [checkMandatoryArgs, List.all_eq_true]
  intro name hname
  obtain ⟨w, -, hw⟩ := last_named_some t hname
  rw [get_built, hw]
  rfl

theorem check_type_built_iff (t : Typed) :
    checkClientArgsType (built t) = true ↔
      (∀ w ∈ pieces t, nameOf w ∈ cmdArgs) ∧
      ∀ name ∈ cmdArgs, ∀ w, lastNamed t name = some w → ¬∃ n : IntegerText, textOf w = n.text := by
  have hall : checkClientArgsType (built t) = true ↔ ∀ w ∈ pieces t, nameOf w ∈ cmdArgs ∧
      ((lastNamed t (nameOf w)).map fun w ↦ pyValue (textOf w)).any isStr = true := by
    simp only [checkClientArgsType, get_built, List.all_eq_true, Bool.and_eq_true,
      decide_eq_true_eq]
    exact List.forall_mem_map
  rw [hall]
  constructor
  · intro h
    refine ⟨fun w hw ↦ (h w hw).1, ?_⟩
    intro name hname w hw
    obtain ⟨w', hw', hname'⟩ := piece_named t hname
    have hstr := (h w' hw').2
    rw [hname', hw] at hstr
    exact (py_value_str_iff (textOf w)).mp hstr
  · rintro ⟨hnames, hstrs⟩ w hw
    obtain ⟨w', -, hw'⟩ := last_named_some t (hnames w hw)
    refine ⟨hnames w hw, ?_⟩
    rw [hw']
    exact (py_value_str_iff (textOf w')).mpr (hstrs _ (hnames w hw) w' hw')

theorem dropped_unchanged (h : Dropped t) (s : Emu) : readExecCommand host s t = .ok s := by
  unfold readExecCommand
  by_cases heq : ∃ w ∈ pieces t, '=' ∉ w
  · rw [build_cmd_none heq]
  · have hall : ∀ w ∈ pieces t, '=' ∈ w := by simpa using heq
    have hcheck : qmpCheckClientArgs (built t) = false := by
      rw [qmpCheckClientArgs, Bool.and_eq_false_iff, ← Bool.not_eq_true, ← Bool.not_eq_true,
        check_type_built_iff]
      right
      rintro ⟨hnames, hstrs⟩
      rcases h with h | ⟨w, hw, hname⟩ | ⟨name, hname, w, hw, hint⟩
      · exact heq h
      · exact hname (hnames w hw)
      · exact hstrs name hname w hw hint
    rw [build_cmd_some hall]
    exact if_neg (by simp [hcheck])

/-- The monitor gets the text of the last piece with its name. -/
def Carries (t : Typed) (name : Char) (arg : CString) : Prop :=
  ∃ w, lastNamed t [name] = some w ∧ arg.chars = textOf w

theorem delivered (h : ¬Dropped t) :
    ∃ c p v, Carries t 'c' c ∧ Carries t 'p' p ∧ Carries t 'v' v ∧
      ∀ s, readExecCommand host s t = vemuDoChangeModelParam host s c p v := by
  have hall : ∀ w ∈ pieces t, '=' ∈ w := by
    intro w hw
    by_contra heq
    exact h (.inl ⟨w, hw, heq⟩)
  have hnames : ∀ w ∈ pieces t, nameOf w ∈ cmdArgs := by
    intro w hw
    by_contra hname
    exact h (.inr (.inl ⟨w, hw, hname⟩))
  have hstrs : ∀ name ∈ cmdArgs, ∀ w, lastNamed t name = some w →
      ¬∃ n : IntegerText, textOf w = n.text := by
    intro name hname w hw hint
    exact h (.inr (.inr ⟨name, hname, w, hw, hint⟩))
  have hcheck : qmpCheckClientArgs (built t) = true := by
    rw [qmpCheckClientArgs, check_mandatory_built, Bool.true_and, check_type_built_iff]
    exact ⟨hnames, hstrs⟩
  have hstr : ∀ name, [name] ∈ cmdArgs → ∃ arg, Carries t name arg ∧
      (built t).getStr [name] = .ok arg := by
    intro name hname
    obtain ⟨w, hmem, hw⟩ := last_named_some t hname
    refine ⟨⟨textOf w, text_of_bytes hmem⟩, ⟨w, hw, rfl⟩, ?_⟩
    rw [Args.getStr, get_built, hw, Option.map_some, py_value_str (hstrs [name] hname w hw)]
    exact dif_pos (text_of_bytes hmem)
  obtain ⟨c, hc, hgetc⟩ := hstr 'c' (by decide)
  obtain ⟨p, hp, hgetp⟩ := hstr 'p' (by decide)
  obtain ⟨v, hv, hgetv⟩ := hstr 'v' (by decide)
  refine ⟨c, p, v, hc, hp, hv, ?_⟩
  intro s
  unfold readExecCommand
  rw [build_cmd_some hall]
  dsimp only
  rw [if_pos hcheck, hgetc, hgetp, hgetv]
  rfl

end Transport

/-- A parameter number and a value in decimal notation, and a class in one piece. -/
def Typed.Requests (t : Typed) (p : Fin pmArraySize) (v : ℚ) : Prop :=
  (∃ n : IntegerText, t.pnumber.chars = n.text ∧ n.value = p.val) ∧
  (∃ d : DecimalText, t.pvalue.chars = d.text ∧ d.value = v) ∧
  ∀ c ∈ t.cvalue.chars, isSpace c = false ∧ c ≠ '='

def Typed.Fits (t : Typed) : Prop :=
  t.cvalue.strlen < 4096 ∧ t.pnumber.strlen < 4096 ∧ t.pvalue.strlen < 4096

/-- The energies so far can be computed, as a change of a parameter does first. -/
def Ready (s : Emu) : Prop := ∀ c, ∃ x, vemuGetActTime s c = .ok x

def Exact (v : ℚ) (x : Double) : Prop := x = .rat v

/-- As close as a double with all its 53 bits can be. -/
def Close (v : ℚ) (x : Double) : Prop := ∃ q, x = .rat q ∧ |q - v| ≤ |v| / 2 ^ 53

/-- What is typed is carried out, with the value stored as it should be, or nothing is. -/
def StoredOrRejected (stored : ℚ → Double → Prop) (t : Typed) : Prop :=
  ∀ s, Ready s → ∃ s', readExecCommand host s t = .ok s' ∧
    (∀ p v, t.Requests p v → ∃ x, stored v x ∧ s'.pmArray = Function.update s.pmArray p x) ∧
    ((¬∃ p v, t.Requests p v) → s'.pmArray = s.pmArray)

section Quoting

theorem numeral_plain {c : Char} (h : c ∈ numeralChars) : isSpace c = false ∧ c ≠ '=' := by
  have hall : ∀ c ∈ numeralChars, isSpace c = false ∧ c ≠ '=' :=
    List.all_iff_forall_prop.mp (by decide)
  exact hall c h

variable {text : List Char} (hplain : ∀ c ∈ text, isSpace c = false ∧ c ≠ '=')
include hplain

theorem words_quoted {n : Char} (hn : isSpace n = false) :
    words isSpace (quoted n text) = [quoted n text] := by
  apply words_solid (by simp [quoted])
  intro c hc
  simp only [quoted, List.mem_cons, List.mem_append, List.not_mem_nil, or_false] at hc
  rcases hc with rfl | rfl | rfl | hc | rfl
  · exact hn
  · decide
  · decide
  · exact (hplain c hc).1
  · decide

theorem text_of_quoted {n : Char} (hn : n ≠ '=') :
    textOf (quoted n text) = '"' :: (text ++ ['"']) := by
  have hdrop : (quoted n text).dropWhile (· ≠ '=') = '=' :: '"' :: (text ++ ['"']) := by
    simp [quoted, hn]
  have hall : ∀ c ∈ '"' :: (text ++ ['"']), decide (c ≠ '=') = true := by
    intro c hc
    simp only [List.mem_cons, List.mem_append, List.not_mem_nil, or_false] at hc
    rcases hc with rfl | hc | rfl
    · decide
    · simpa using (hplain c hc).2
    · decide
  rw [textOf, hdrop]
  exact List.takeWhile_eq_self_iff.mpr hall

omit hplain

theorem name_of_quoted {n : Char} (hn : n ≠ '=') : nameOf (quoted n text) = [n] := by
  simp [nameOf, quoted, hn]

def quotedArg (arg : CString) : CString where
  chars := '"' :: (arg.chars ++ ['"'])
  byte := List.forall_mem_cons.mpr ⟨by decide, List.forall_mem_append.mpr
    ⟨arg.byte, List.forall_mem_singleton.mpr (by decide)⟩⟩

theorem unquote_quoted (arg : CString) :
    unquote (quotedArg arg) =
      if arg.strlen < 4096 then .ok arg.chars else .error .outOfBounds := by
  have hlen : (quotedArg arg).strlen = arg.strlen + 2 := by simp [quotedArg, CString.strlen]
  have htake : ((quotedArg arg).chars.drop 1).take arg.strlen = arg.chars := by
    simp [quotedArg, CString.strlen]
  rw [unquote, hlen, Nat.add_sub_cancel, htake]
  by_cases h : arg.strlen < 4096 <;> simp [h]

end Quoting

section Requests

variable {t : Typed} {p : Fin pmArraySize} {v : ℚ}

theorem Typed.Requests.pnumber_plain (h : t.Requests p v) :
    ∀ c ∈ t.pnumber.chars, isSpace c = false ∧ c ≠ '=' := by
  obtain ⟨⟨n, hn, -⟩, -, -⟩ := h
  intro c hc
  rw [hn] at hc
  exact numeral_plain (n.text_mem hc)

theorem Typed.Requests.pvalue_plain (h : t.Requests p v) :
    ∀ c ∈ t.pvalue.chars, isSpace c = false ∧ c ≠ '=' := by
  obtain ⟨-, ⟨d, hd, -⟩, -⟩ := h
  intro c hc
  rw [hd] at hc
  exact numeral_plain (d.text_mem hc)

theorem Typed.Requests.pieces_eq (h : t.Requests p v) :
    pieces t = [quoted 'p' t.pnumber.chars, quoted 'v' t.pvalue.chars,
      quoted 'c' t.cvalue.chars] := by
  rw [Prompt.pieces_eq, words_quoted h.pnumber_plain (by decide),
    words_quoted h.pvalue_plain (by decide), words_quoted h.2.2 (by decide)]
  rfl

theorem Typed.Requests.lastNamed_eq (h : t.Requests p v) :
    lastNamed t ['c'] = some (quoted 'c' t.cvalue.chars) ∧
    lastNamed t ['p'] = some (quoted 'p' t.pnumber.chars) ∧
    lastNamed t ['v'] = some (quoted 'v' t.pvalue.chars) := by
  simp [lastNamed, h.pieces_eq, name_of_quoted]

theorem quote_not_integer (text : List Char) : ¬∃ n : IntegerText, '"' :: text = n.text := by
  rintro ⟨n, hn⟩
  have hmem : '"' ∈ numeralChars := n.text_mem (hn ▸ List.mem_cons_self)
  exact absurd hmem (by decide)

theorem Typed.Requests.textOf_eq (h : t.Requests p v) :
    textOf (quoted 'c' t.cvalue.chars) = '"' :: (t.cvalue.chars ++ ['"']) ∧
    textOf (quoted 'p' t.pnumber.chars) = '"' :: (t.pnumber.chars ++ ['"']) ∧
    textOf (quoted 'v' t.pvalue.chars) = '"' :: (t.pvalue.chars ++ ['"']) :=
  ⟨text_of_quoted h.2.2 (by decide), text_of_quoted h.pnumber_plain (by decide),
    text_of_quoted h.pvalue_plain (by decide)⟩

theorem Typed.Requests.not_dropped (h : t.Requests p v) : ¬Dropped t := by
  obtain ⟨hc, hp, hv⟩ := h.lastNamed_eq
  obtain ⟨htc, htp, htv⟩ := h.textOf_eq
  rintro (⟨w, hw, heq⟩ | ⟨w, hw, hname⟩ | ⟨name, hname, w, hw, hint⟩)
  · rw [h.pieces_eq] at hw
    simp only [List.mem_cons, List.not_mem_nil, or_false] at hw
    rcases hw with rfl | rfl | rfl <;> simp [quoted] at heq
  · rw [h.pieces_eq] at hw
    simp only [List.mem_cons, List.not_mem_nil, or_false] at hw
    rcases hw with rfl | rfl | rfl <;> simp [name_of_quoted, cmdArgs] at hname
  · simp only [cmdArgs, List.mem_cons, List.not_mem_nil, or_false] at hname
    rcases hname with rfl | rfl | rfl
    · obtain rfl : quoted 'c' t.cvalue.chars = w := Option.some_inj.mp (hc.symm.trans hw)
      rw [htc] at hint
      exact quote_not_integer _ hint
    · obtain rfl : quoted 'p' t.pnumber.chars = w := Option.some_inj.mp (hp.symm.trans hw)
      rw [htp] at hint
      exact quote_not_integer _ hint
    · obtain rfl : quoted 'v' t.pvalue.chars = w := Option.some_inj.mp (hv.symm.trans hw)
      rw [htv] at hint
      exact quote_not_integer _ hint

theorem Carries.eq {name : Char} {arg text : CString} (h : Carries t name arg)
    (hlast : lastNamed t [name] = some (quoted name text.chars))
    (htext : textOf (quoted name text.chars) = '"' :: (text.chars ++ ['"'])) :
    arg = quotedArg text := by
  obtain ⟨w, hw, harg⟩ := h
  obtain rfl : quoted name text.chars = w := Option.some_inj.mp (hlast.symm.trans hw)
  rw [htext] at harg
  cases arg
  cases harg
  rfl

theorem Typed.Requests.delivered (h : t.Requests p v) (s : Emu) :
    readExecCommand host s t = vemuDoChangeModelParam host s (quotedArg t.cvalue)
      (quotedArg t.pnumber) (quotedArg t.pvalue) := by
  obtain ⟨c, n, x, hc, hn, hx, hread⟩ := Prompt.delivered host h.not_dropped
  obtain ⟨hlastc, hlastn, hlastx⟩ := h.lastNamed_eq
  obtain ⟨htc, htn, htx⟩ := h.textOf_eq
  rw [hread, hc.eq hlastc htc, hn.eq hlastn htn, hx.eq hlastx htx]

theorem unquote_fits_iff (t : Typed) :
    (∃ c n x, unquote (quotedArg t.cvalue) = .ok c ∧ unquote (quotedArg t.pnumber) = .ok n ∧
      unquote (quotedArg t.pvalue) = .ok x) ↔ t.Fits := by
  simp only [unquote_quoted, Typed.Fits]
  by_cases hc : t.cvalue.strlen < 4096 <;> by_cases hp : t.pnumber.strlen < 4096 <;>
    by_cases hv : t.pvalue.strlen < 4096 <;> simp [hc, hp, hv]

theorem Typed.Requests.parameter_eq (h : t.Requests p v) :
    toUInt8 (strtol t.pnumber.chars) = UInt8.ofNat p.val := by
  obtain ⟨⟨n, hn, hp⟩, -, -⟩ := h
  have hlt : p.val < 14 := p.isLt
  have hclamp : strtol t.pnumber.chars = p.val := by
    rw [hn, strtol_text, hp]
    omega
  rw [hclamp, toUInt8]
  congr 1
  omega

theorem Typed.Requests.value_eq (h : t.Requests p v) : strtod t.pvalue.chars = .nearest v := by
  obtain ⟨-, ⟨d, hd, hv⟩, -⟩ := h
  rw [hd, strtod_text, hv]

theorem Typed.Requests.number_eq (h : t.Requests p v) : readNumber t.pvalue.chars = some v := by
  obtain ⟨-, ⟨d, hd, hv⟩, -⟩ := h
  rw [hd, read_number_text, hv]

theorem parameter_toNat (p : Fin pmArraySize) : (UInt8.ofNat p.val).toNat = p.val := by
  have hlt : p.val < 14 := p.isLt
  rw [UInt8.toNat_ofNat']
  omega

theorem Typed.Requests.unique {q : Fin pmArraySize} {x : ℚ} (h : t.Requests p v)
    (h' : t.Requests q x) : p = q ∧ v = x := by
  have hparameter : UInt8.ofNat p.val = UInt8.ofNat q.val :=
    h.parameter_eq.symm.trans h'.parameter_eq
  have hvalue : some v = some x := h.number_eq.symm.trans h'.number_eq
  refine ⟨Fin.ext ?_, Option.some.inj hvalue⟩
  rw [← parameter_toNat p, hparameter, parameter_toNat]

end Requests

section Changes

variable {host} {s : Emu}

theorem change_ready (hs : Ready s) (cc : UInt8) {pp : UInt8} (vv : Double)
    (hpp : pp.toNat < pmArraySize) :
    ∃ s', vemuEnergyChangeParameter host s cc pp vv = .ok s' ∧
      s'.pmArray = Function.update s.pmArray ⟨pp.toNat, hpp⟩ vv := by
  obtain ⟨q, hq⟩ := (get_act_energy_all_isOk host s).mpr hs
  have hok : ∃ s', vemuEnergyChangeParameter host s cc pp vv = .ok s' :=
    ⟨_, bind_ok_iff.mpr ⟨q, hq, dif_pos hpp⟩⟩
  obtain ⟨s', h⟩ := hok
  obtain ⟨t, p, ht, hp, hs'⟩ := energy_change_parameter_books h
  obtain rfl : p = ⟨pp.toNat, hpp⟩ := Fin.ext hp
  exact ⟨s', h, by rw [hs']⟩

theorem change_param_ok {c p v : CString} {s' : Emu}
    (h : vemuDoChangeModelParam host s c p v = .ok s') :
    ∃ cc pp vv, unquote c = .ok cc ∧ unquote p = .ok pp ∧ unquote v = .ok vv ∧
      ∃ q : Fin pmArraySize, q.val = (toUInt8 (strtol pp)).toNat ∧
        s'.pmArray = Function.update s.pmArray q (strtod vv) := by
  obtain ⟨cc, hc, h⟩ := bind_ok_iff.mp h
  obtain ⟨pp, hp, h⟩ := bind_ok_iff.mp h
  obtain ⟨vv, hv, h⟩ := bind_ok_iff.mp h
  obtain ⟨t, q, -, hq, hs'⟩ := energy_change_parameter_books h
  exact ⟨cc, pp, vv, hc, hp, hv, q, hq, by rw [hs']⟩

theorem started_ready (x : Double) : Ready (vemuInitCycles (fun _ ↦ x) 0) := by
  intro c
  exact ⟨0, rfl⟩

variable {t : Typed} {p : Fin pmArraySize} {v : ℚ}

theorem Typed.Requests.carried_out (h : t.Requests p v) (hfits : t.Fits) (hs : Ready s) :
    ∃ s', readExecCommand host s t = .ok s' ∧
      s'.pmArray = Function.update s.pmArray p (.nearest v) := by
  obtain ⟨hc, hp, hv⟩ := hfits
  have hlt : (UInt8.ofNat p.val).toNat < pmArraySize := (parameter_toNat p).trans_lt p.isLt
  obtain ⟨s', hs', hpm⟩ := change_ready hs (toUInt8 (strtol t.cvalue.chars)) (.nearest v) hlt
  refine ⟨s', ?_, ?_⟩
  · rw [h.delivered, vemuDoChangeModelParam, unquote_quoted, unquote_quoted, unquote_quoted,
      if_pos hc, if_pos hp, if_pos hv]
    change vemuEnergyChangeParameter host s _ (toUInt8 (strtol t.pnumber.chars))
      (strtod t.pvalue.chars) = _
    rw [h.parameter_eq, h.value_eq, hs']
  · rw [hpm]
    congr 1
    exact Fin.ext (parameter_toNat p)

variable {stored : ℚ → Double → Prop}

theorem StoredOrRejected.fits (h : StoredOrRejected host stored t) (hreq : t.Requests p v) :
    t.Fits := by
  obtain ⟨s', hs', -⟩ := h _ (started_ready (.rat 0))
  rw [hreq.delivered] at hs'
  obtain ⟨cc, pp, vv, hc, hp, hv, -⟩ := change_param_ok hs'
  exact (unquote_fits_iff t).mp ⟨cc, pp, vv, hc, hp, hv⟩

theorem StoredOrRejected.nearest (h : StoredOrRejected host stored t) (hreq : t.Requests p v) :
    stored v (.nearest v) := by
  have hready := started_ready (.rat 0)
  obtain ⟨s', hs', hset, -⟩ := h _ hready
  obtain ⟨t', ht', hpm⟩ := @Typed.Requests.carried_out host _ t p v hreq (h.fits hreq) hready
  obtain rfl : t' = s' := Except.ok.inj (ht'.symm.trans hs')
  obtain ⟨x, hx, hpm'⟩ := hset p v hreq
  have hvalue := congrFun (hpm.symm.trans hpm') p
  rw [Function.update_self, Function.update_self] at hvalue
  rwa [hvalue]

theorem exists_other_double (x : Double) : ∃ y : Double, y ≠ x := by
  by_cases h0 : Double.rat 0 = x
  · exact ⟨.rat 1, fun h1 ↦ by simpa using h1.trans h0.symm⟩
  · exact ⟨.rat 0, h0⟩

theorem StoredOrRejected.requested (h : StoredOrRejected host stored t)
    (hdelivered : ¬Dropped t) : ∃ p v, t.Requests p v := by
  by_contra hreq
  -- The handler sets some parameter to a value that does not depend on the state.
  obtain ⟨c, p, v, -, -, -, hread⟩ := delivered host hdelivered
  obtain ⟨s₀, hs₀, -⟩ := h _ (started_ready (.rat 0))
  rw [hread] at hs₀
  obtain ⟨cc, pp, vv, -, -, hv, -⟩ := change_param_ok hs₀
  obtain ⟨x, hx⟩ := exists_other_double (strtod vv)
  obtain ⟨s', hs', -, hsame⟩ := h _ (started_ready x)
  rw [hread] at hs'
  obtain ⟨cc', pp', vv', -, -, hv', q, -, hq⟩ := change_param_ok hs'
  obtain rfl : vv = vv' := Except.ok.inj (hv.symm.trans hv')
  have hnew := congrFun (hq.symm.trans (hsame hreq)) q
  rw [Function.update_self] at hnew
  exact hx hnew.symm

theorem stored_or_rejected_iff : StoredOrRejected host stored t ↔
    ((∃ p v, t.Requests p v ∧ stored v (.nearest v)) ∧ t.Fits) ∨ Dropped t := by
  constructor
  · intro h
    by_cases hdropped : Dropped t
    · exact .inr hdropped
    · obtain ⟨p, v, hreq⟩ := h.requested hdropped
      exact .inl ⟨⟨p, v, hreq, h.nearest hreq⟩, h.fits hreq⟩
  · rintro (⟨⟨p, v, hreq, hstored⟩, hfits⟩ | hdropped) s hs
    · obtain ⟨s', hs', hpm⟩ := hreq.carried_out hfits hs
      refine ⟨s', hs', ?_, fun hno ↦ absurd ⟨p, v, hreq⟩ hno⟩
      intro q x hreq'
      obtain ⟨rfl, rfl⟩ := hreq.unique hreq'
      exact ⟨_, hstored, hpm⟩
    · refine ⟨s, dropped_unchanged host hdropped s, ?_, fun _ ↦ rfl⟩
      intro p v hreq
      exact absurd hdropped hreq.not_dropped

theorem exact_nearest : Exact v (.nearest v) ↔ binary64.Representable v :=
  nearest_eq_rat.trans Format.round_eq_self_iff

theorem close_nearest : Close v (.nearest v) ↔ binary64.Resolves v := by
  unfold Close
  simp only [nearest_eq_rat]
  exact Format.round_close_iff

end Changes

/-- A change of a parameter is exact or rejected exactly when it is a request for a value that is
a double and fits the buffers, or when the texts typed are dropped on the way. It is rejected or
right to the precision of a double exactly when the value is in the range of doubles instead. -/
theorem change_exact_or_rejected_iff (host : Host) (t : Typed) :
    (StoredOrRejected host Exact t ↔
      ((∃ p v, t.Requests p v ∧ binary64.Representable v) ∧ t.Fits) ∨ Dropped t) ∧
    (StoredOrRejected host Close t ↔
      ((∃ p v, t.Requests p v ∧ binary64.Resolves v) ∧ t.Fits) ∨ Dropped t) := by
  simp only [stored_or_rejected_iff, exact_nearest, close_nearest, and_self]

/-- An empty number changes the first parameter, a number out of range aborts the emulator, and a
value that ends the quotation early makes it copy from before the argument. -/
theorem mishandled_changes :
    (∃ s', readExecCommand linearHost (vemuInitCycles gigahertz 0)
        ⟨bytes "", bytes "0", bytes "1.5"⟩ = .ok s' ∧ s'.pmArray 0 = .rat (3 / 2)) ∧
    readExecCommand linearHost (vemuInitCycles gigahertz 0)
      ⟨bytes "14", bytes "0", bytes "1.5"⟩ = .error .assertion ∧
    readExecCommand linearHost (vemuInitCycles gigahertz 0)
      ⟨bytes "3", bytes "0", bytes " v="⟩ = .error .outOfBounds := by
  have hempty : Ends (fun s' ↦ s'.pmArray 0 = .rat (3 / 2))
      (readExecCommand linearHost (vemuInitCycles gigahertz 0)
        ⟨bytes "", bytes "0", bytes "1.5"⟩) := by
    decide +kernel
  exact ⟨hempty.exists, rfl, rfl⟩

end VarEmu.Emulator.Prompt
