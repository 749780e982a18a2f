/-
`JSON.parse`, as a machine that takes one code unit after the other.

JavaScript strings are sequences of UTF-16 code units and numbers are doubles, and
so they are here. The machine is a stack of open containers ([`Frame`]) and what it
expects next ([`Mode`]); it accepts the grammar of ECMA-404, and of two members with
one name the later one counts.

Nothing in this file names a program.
-/
import Mathlib.Data.Int.Log
import Mathlib.Data.Rat.Floor

set_option autoImplicit false

namespace SequentialNear

/-! ## Strings and numbers -/

/-- A JavaScript string: its UTF-16 code units. -/
abbrev JsString := List Nat

/-- The code units of a scalar value: two from U+10000 on. -/
def charUnits (c : Char) : JsString :=
  if c.toNat < 0x10000 then [c.toNat]
  else [0xd800 + (c.toNat - 0x10000) / 0x400, 0xdc00 + (c.toNat - 0x10000) % 0x400]

def utf16 (s : String) : JsString := s.toList.flatMap charUnits

/-- A JavaScript number. The sign of zero is not kept. -/
inductive Number
  | finite (value : ℚ)
  | infinite (negative : Bool)
deriving DecidableEq

/-- The nearest integer, ties to even. -/
def roundEven (q : ℚ) : ℤ :=
  let below := ⌊q⌋
  if q - below < 1 / 2 then below
  else if 1 / 2 < q - below then below + 1
  else if below % 2 = 0 then below else below + 1

/-- The double nearest to `q`: 53 binary digits, the last of them at least at
`2 ^ (-1074)`. -/
def toDouble (q : ℚ) : Number :=
  if q = 0 then .finite 0
  else
    let last := max (Int.log 2 |q| - 52) (-1074)
    let rounded : ℚ := roundEven (q / 2 ^ last) * 2 ^ last
    if 2 ^ 1024 ≤ |rounded| then .infinite (decide (q < 0)) else .finite rounded

inductive Json
  | null
  | bool (b : Bool)
  | number (n : Number)
  | string (s : JsString)
  | array (elements : List Json)
  /-- The members in the order of the text, repeated names included. -/
  | object (members : List (JsString × Json))

namespace Json

/-- The value of a member: the last one of its name. -/
def get (members : List (JsString × Json)) (name : JsString) : Option Json :=
  (members.reverse.find? fun m => m.1 = name).map Prod.snd

/-! ## The grammar's code units -/

abbrev quote : Nat := 0x22
abbrev backslash : Nat := 0x5c
abbrev comma : Nat := 0x2c
abbrev colon : Nat := 0x3a
abbrev lbrace : Nat := 0x7b
abbrev rbrace : Nat := 0x7d
abbrev lbracket : Nat := 0x5b
abbrev rbracket : Nat := 0x5d

/-- Tab, line feed, carriage return, space. -/
def isSpace (c : Nat) : Bool := c = 0x09 || c = 0x0a || c = 0x0d || c = 0x20

def isDigit (c : Nat) : Bool := 0x30 ≤ c && c ≤ 0x39

/-- What a backslash and this code unit stand for; `u` aside. -/
def escaped (c : Nat) : Option Nat :=
  if c = 0x22 ∨ c = 0x5c ∨ c = 0x2f then some c
  else if c = 0x62 then some 0x08
  else if c = 0x66 then some 0x0c
  else if c = 0x6e then some 0x0a
  else if c = 0x72 then some 0x0d
  else if c = 0x74 then some 0x09
  else none

def hexDigit (c : Nat) : Option Nat :=
  if 0x30 ≤ c ∧ c ≤ 0x39 then some (c - 0x30)
  else if 0x41 ≤ c ∧ c ≤ 0x46 then some (c - 0x37)
  else if 0x61 ≤ c ∧ c ≤ 0x66 then some (c - 0x57)
  else none

/-! ## Number literals -/

/-- How far a number literal has been read. -/
inductive Phase
  | sign
  /-- A leading zero, which no digit may follow. -/
  | zero
  | int
  | point
  | frac
  | exp
  | exp_sign
  | exp_digits
deriving DecidableEq

structure Literal where
  phase : Phase
  negative : Bool
  /-- The digits before and after the point. -/
  mantissa : Nat
  /-- How many of them stand after it. -/
  places : Nat
  exp_negative : Bool
  exponent : Nat
deriving DecidableEq

namespace Literal

/-- The literal may end here. -/
def complete (l : Literal) : Bool :=
  match l.phase with
  | .zero | .int | .frac | .exp_digits => true
  | _ => false

def value (l : Literal) : ℚ :=
  (if l.negative then -1 else 1) * l.mantissa *
    10 ^ ((if l.exp_negative then -(l.exponent : ℤ) else l.exponent) - l.places)

/-- A literal's first code unit. -/
def start (c : Nat) : Option Literal :=
  if c = 0x2d then some ⟨.sign, true, 0, 0, false, 0⟩
  else if c = 0x30 then some ⟨.zero, false, 0, 0, false, 0⟩
  else if isDigit c then some ⟨.int, false, c - 0x30, 0, false, 0⟩
  else none

def next_exp (l : Literal) (c : Nat) : Option Literal :=
  if c = 0x65 ∨ c = 0x45 then some { l with phase := .exp } else none

/-- The next code unit of a literal. -/
def next (l : Literal) (c : Nat) : Option Literal :=
  match l.phase with
  | .sign =>
    if c = 0x30 then some { l with phase := .zero }
    else if isDigit c then some { l with phase := .int, mantissa := c - 0x30 } else none
  | .zero => if c = 0x2e then some { l with phase := .point } else l.next_exp c
  | .int =>
    if isDigit c then some { l with mantissa := 10 * l.mantissa + (c - 0x30) }
    else if c = 0x2e then some { l with phase := .point } else l.next_exp c
  | .point =>
    if isDigit c then some { l with
      phase := .frac, mantissa := 10 * l.mantissa + (c - 0x30), places := l.places + 1 }
    else none
  | .frac =>
    if isDigit c then some { l with
      mantissa := 10 * l.mantissa + (c - 0x30), places := l.places + 1 }
    else l.next_exp c
  | .exp =>
    if c = 0x2b then some { l with phase := .exp_sign }
    else if c = 0x2d then some { l with phase := .exp_sign, exp_negative := true }
    else if isDigit c then some { l with phase := .exp_digits, exponent := c - 0x30 } else none
  | .exp_sign =>
    if isDigit c then some { l with phase := .exp_digits, exponent := c - 0x30 } else none
  | .exp_digits =>
    if isDigit c then some { l with exponent := 10 * l.exponent + (c - 0x30) } else none

end Literal

/-! ## The machine -/

/-- A container that is open around the value being read, with what it holds so far. -/
inductive Frame
  | array (before : List Json)
  | object (before : List (JsString × Json)) (name : JsString)

/-- What a string literal is for. -/
inductive Target
  | value
  /-- The name of the next member of an object with these. -/
  | name (members : List (JsString × Json))

/-- `true`, `false` and `null`. -/
inductive Word
  | true
  | false
  | null

def Word.text : Word → JsString
  | .true => [0x74, 0x72, 0x75, 0x65]
  | .false => [0x66, 0x61, 0x6c, 0x73, 0x65]
  | .null => [0x6e, 0x75, 0x6c, 0x6c]

def Word.value : Word → Json
  | .true => .bool Bool.true
  | .false => .bool Bool.false
  | .null => .null

/-- What is expected next. -/
inductive Mode
  | value
  /-- After `[`. -/
  | first_value
  /-- After `\x7b`. -/
  | first_name
  | name (members : List (JsString × Json))
  | colon (members : List (JsString × Json)) (name : JsString)
  /-- A value is complete. -/
  | ended (v : Json)
  | string (t : Target) (read : JsString)
  | escape (t : Target) (read : JsString)
  /-- After `\u`, with the value of the hexadecimal digits so far. -/
  | hex (t : Target) (read : JsString) (code left : Nat)
  | number (l : Literal)
  /-- Within a word, after so many of its code units. -/
  | word (w : Word) (read : Nat)

structure State where
  frames : List Frame
  mode : Mode

/-- The closing quote of a string literal. -/
def Target.close (t : Target) (read : JsString) : Mode :=
  match t with
  | .value => .ended (.string read)
  | .name members => .colon members read

/-- The first code unit of a value. -/
def start_value (frames : List Frame) (c : Nat) : Option State :=
  if c = quote then some ⟨frames, .string .value []⟩
  else if c = lbrace then some ⟨frames, .first_name⟩
  else if c = lbracket then some ⟨frames, .first_value⟩
  else if c = 0x74 then some ⟨frames, .word .true 1⟩
  else if c = 0x66 then some ⟨frames, .word .false 1⟩
  else if c = 0x6e then some ⟨frames, .word .null 1⟩
  else (Literal.start c).map fun l => ⟨frames, .number l⟩

/-- The code unit after a value. -/
def end_value (frames : List Frame) (v : Json) (c : Nat) : Option State :=
  if isSpace c then some ⟨frames, .ended v⟩
  else match frames with
    | [] => none
    | .array before :: frames =>
      if c = comma then some ⟨.array (before ++ [v]) :: frames, .value⟩
      else if c = rbracket then some ⟨frames, .ended (.array (before ++ [v]))⟩
      else none
    | .object before name :: frames =>
      if c = comma then some ⟨frames, .name (before ++ [(name, v)])⟩
      else if c = rbrace then some ⟨frames, .ended (.object (before ++ [(name, v)]))⟩
      else none

def step (s : State) (c : Nat) : Option State :=
  match s.mode with
  | .value => if isSpace c then some s else start_value s.frames c
  | .first_value =>
    if isSpace c then some s
    else if c = rbracket then some ⟨s.frames, .ended (.array [])⟩
    else start_value (.array [] :: s.frames) c
  | .first_name =>
    if isSpace c then some s
    else if c = rbrace then some ⟨s.frames, .ended (.object [])⟩
    else if c = quote then some ⟨s.frames, .string (.name []) []⟩
    else none
  | .name members =>
    if isSpace c then some s
    else if c = quote then some ⟨s.frames, .string (.name members) []⟩
    else none
  | .colon members name =>
    if isSpace c then some s
    else if c = colon then some ⟨.object members name :: s.frames, .value⟩
    else none
  | .ended v => end_value s.frames v c
  | .string t read =>
    if c = quote then some ⟨s.frames, t.close read⟩
    else if c = backslash then some ⟨s.frames, .escape t read⟩
    -- control characters must be escaped
    else if c < 0x20 then none
    else some ⟨s.frames, .string t (read ++ [c])⟩
  | .escape t read =>
    if c = 0x75 then some ⟨s.frames, .hex t read 0 4⟩
    else (escaped c).map fun x => ⟨s.frames, .string t (read ++ [x])⟩
  | .hex t read code left =>
    (hexDigit c).map fun x =>
      if left ≤ 1 then ⟨s.frames, .string t (read ++ [16 * code + x])⟩
      else ⟨s.frames, .hex t read (16 * code + x) (left - 1)⟩
  | .number l =>
    match l.next c with
    | some l => some ⟨s.frames, .number l⟩
    | none => if l.complete then end_value s.frames (.number (toDouble l.value)) c else none
  | .word w read =>
    if w.text[read]? ≠ some c then none
    else if read + 1 = w.text.length then some ⟨s.frames, .ended w.value⟩
    else some ⟨s.frames, .word w (read + 1)⟩

/-- The end of the text. -/
def finish (s : State) : Option Json :=
  match s.frames, s.mode with
  | [], .ended v => some v
  | [], .number l => if l.complete then some (.number (toDouble l.value)) else none
  | _, _ => none

def run (s : State) (text : JsString) : Option State := text.foldlM step s

/-- `JSON.parse`; `none` where it throws. -/
def parse (text : JsString) : Option Json := (run ⟨[], .value⟩ text).bind finish

end Json

end SequentialNear
