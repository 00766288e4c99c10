import VarEmu.Emulator.Energy

namespace VarEmu.Emulator.Monitor

open State Cycles Energy Library.Execution

def IsBytes (text : List Char) : Prop := ∀ c ∈ text, 0 < c.toNat ∧ c.toNat < 256

instance : DecidablePred IsBytes := fun text ↦ List.decidableBAll _ text

/-- A C string by its bytes before the terminating NUL, each as the character of its number. -/
structure CString where
  chars : List Char
  byte : IsBytes chars
  deriving DecidableEq

def bytes (text : String) (h : IsBytes text.toList := by decide) : CString := ⟨text.toList, h⟩

def isSpace (c : Char) : Bool := c.toNat == 32 || (9 ≤ c.toNat && c.toNat ≤ 13)

def isMark (lower : Char) (c : Char) : Bool := c.toLower == lower

def digitValue (c : Char) : ℕ :=
  if '0' ≤ c ∧ c ≤ '9' then c.toNat - 48
  else if 'a' ≤ c.toLower ∧ c.toLower ≤ 'z' then c.toLower.toNat - 87
  else 36

def takeDigits (base : ℕ) (acc n : ℕ) : List Char → ℕ × ℕ × List Char
  | [] => (acc, n, [])
  | c :: cs =>
    if digitValue c < base then takeDigits base (acc * base + digitValue c) (n + 1) cs
    else (acc, n, c :: cs)

def takeSign : List Char → Bool × List Char
  | [] => (false, [])
  | c :: cs => if c = '-' then (true, cs) else if c = '+' then (false, cs) else (false, c :: cs)

/-- `strtol(s, NULL, 10)` with a 64-bit `long`: no digits give zero, and values that do not fit
stop at the limits. -/
def strtol (s : List Char) : ℤ :=
  let (neg, s) := takeSign (s.dropWhile isSpace)
  let v : ℤ := (takeDigits 10 0 0 s).1
  max (-2 ^ 63) (min (2 ^ 63 - 1) (if neg then -v else v))

def takeExponent (mark : Char) : List Char → ℤ
  | [] => 0
  | c :: cs =>
    if isMark mark c then
      let (neg, cs) := takeSign cs
      let v : ℤ := (takeDigits 10 0 0 cs).1
      if neg then -v else v
    else 0

def takeNumber (base expBase : ℕ) (mark : Char) (s : List Char) : Option ℚ :=
  let (int, n, rest) := takeDigits base 0 0 s
  let (mant, m, rest) :=
    match rest with
    | '.' :: fraction =>
      let (mant, m, after) := takeDigits base int n fraction
      if m = 0 then (int, n, rest) else (mant, m, after)
    | _ => (int, n, rest)
  if m = 0 then none
  else some (mant / (base : ℚ) ^ (m - n) * (expBase : ℚ) ^ takeExponent mark rest)

/-- The number that a text begins with, and none for an infinity or a NaN. -/
def readNumber (s : List Char) : Option ℚ :=
  let (neg, s) := takeSign (s.dropWhile isSpace)
  let signed (q : ℚ) : ℚ := if neg then -q else q
  let lower := (s.take 3).map Char.toLower
  if lower = ['i', 'n', 'f'] ∨ lower = ['n', 'a', 'n'] then none
  else
    match s with
    | '0' :: x :: digits =>
      if isMark 'x' x then some (signed ((takeNumber 16 2 'p' digits).getD 0))
      else some (signed ((takeNumber 10 10 'e' s).getD 0))
    | _ => some (signed ((takeNumber 10 10 'e' s).getD 0))

/-- `strtod(s, NULL)`, which rounds to the nearest double. -/
def strtod (s : List Char) : Double := (readNumber s).elim .nonfinite .nearest

def toUInt8 (v : ℤ) : UInt8 := UInt8.ofNat (v % 256).toNat

def CString.strlen (s : CString) : ℕ := s.chars.length

/-- Copies all but the first and the last byte into a local buffer of 4096 bytes, and terminates
it there. -/
def unquote (s : CString) : Except Fault (List Char) :=
  if 2 ≤ s.strlen ∧ s.strlen - 2 < 4096 then .ok ((s.chars.drop 1).take (s.strlen - 2))
  else .error .outOfBounds

variable (host : Host)

def vemuDoChangeModelParam (s : Emu) (c p v : CString) : Except Fault Emu := do
  let cc ← unquote c
  let pp ← unquote p
  let vv ← unquote v
  vemuEnergyChangeParameter host s (toUInt8 (strtol cc)) (toUInt8 (strtol pp)) (strtod vv)

def vemuDoInfoTime (s : Emu) : Except Fault (UInt64 × UInt64) := do
  let actTime ← vemuGetActTimeAllClasses s
  .ok (actTime, vemuGetSlpTime s)

def vemuDoInfoEnergy (s : Emu) : Except Fault (Emu × UInt64 × UInt64) := do
  let (s, actEnergy) ← vemuGetActEnergyAllClasses host s
  let slp := vemuGetSlpEnergy host s
  .ok (slp.1, actEnergy, slp.2)

def vemuDoInfoAll (s : Emu) : Except Fault (Emu × (UInt64 × UInt64) × (UInt64 × UInt64)) := do
  let (s, energy) ← vemuDoInfoEnergy host s
  let time ← vemuDoInfoTime s
  .ok (s, energy, time)

end VarEmu.Emulator.Monitor
