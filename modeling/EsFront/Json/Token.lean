/-
Tokens of JSON text.

The scanner is a finite automaton over characters: `Scan.step` moves on by one
character and `Token.scan` folds it over the text. A number token is checked
against the grammar of numbers when it ends (`Number.ofToken?`), where its
value is fixed too.
-/
import EsFront.Json.Basic

namespace EsFront.Json

/-- A token of JSON text. -/
inductive Token where
  | openBrace
  | closeBrace
  | openBracket
  | closeBracket
  | colon
  | comma
  /-- A value without parts: a literal word, a number or a text. -/
  | scalar (value : Json)
deriving Repr, Inhabited

/-! ### Numbers -/

/-- The parts of a number token. -/
structure NumberParts where
  negative : Bool
  whole : List Char
  /-- The digits after the point, if there is one. -/
  fraction : Option (List Char)
  /-- The sign and digits after the exponent mark, if there is one. -/
  exponent : Option (Bool × List Char)
deriving Repr

namespace NumberParts

/-- Splits off the exponent part of a number, which must end the token. -/
def exponent? : List Char → Option (Option (Bool × List Char))
  | [] => some none
  | mark :: rest =>
    if mark = 'e' ∨ mark = 'E' then
      match rest with
      | '+' :: digits => some (some (false, digits))
      | '-' :: digits => some (some (true, digits))
      | digits => some (some (false, digits))
    else none

/-- Splits a number token into its parts. -/
def split? (token : List Char) : Option NumberParts :=
  let (negative, rest) := match token with
    | '-' :: rest => (true, rest)
    | rest => (false, rest)
  let whole := rest.takeWhile Char.isDigit
  match rest.dropWhile Char.isDigit with
  | '.' :: more =>
    (exponent? (more.dropWhile Char.isDigit)).map fun exponent =>
      ⟨negative, whole, some (more.takeWhile Char.isDigit), exponent⟩
  | more => (exponent? more).map fun exponent => ⟨negative, whole, none, exponent⟩

/-- Whether the parts form a number: no leading zero in front of other digits,
and a digit after every point and exponent mark. -/
def isNumber (parts : NumberParts) : Bool :=
  let wholeOk := match parts.whole with
    | [] => false
    | '0' :: _ :: _ => false
    | _ => true
  let fractionOk := match parts.fraction with
    | some [] => false
    | _ => true
  let exponentOk := match parts.exponent with
    | some (_, digits) => !digits.isEmpty && digits.all Char.isDigit
    | none => true
  wholeOk && fractionOk && exponentOk

end NumberParts

/-- The value of decimal digits. -/
def digitsValue (digits : List Char) : Nat :=
  digits.foldl (fun n c => 10 * n + (c.toNat - '0'.toNat)) 0

/-- Takes digits into a significand as long as it stays below `2 ^ 64`; gives
the significand, the number of digits taken and the digits left. -/
def takeDigits (significand taken : Nat) : List Char → Nat × Nat × List Char
  | [] => (significand, taken, [])
  | c :: rest =>
    let next := 10 * significand + (c.toNat - '0'.toNat)
    if next < twoTo 64 then takeDigits next (taken + 1) rest else (significand, taken, c :: rest)

/-- The largest exponent that is taken at its value. -/
def greatestExponent : Nat := twoTo 31 - 1

/-- The double that a number token stands for: its leading digits that fit in
64 bits, rounded to a double and scaled by the power of ten that the other
digits, the point and the exponent leave. `none` when it is too large. -/
def NumberParts.toDouble? (parts : NumberParts) : Option Double :=
  let (start, _, dropped) := takeDigits 0 0 parts.whole
  let (significand, taken, _) := takeDigits start 0 (parts.fraction.getD [])
  let power : Int := dropped.length - taken
  let signed (d : Double) : Double := if parts.negative then d.neg else d
  match parts.exponent with
  | none => ((Double.ofNat significand).bind (·.scale power)).map signed
  | some (below, digits) =>
    let size := digitsValue digits
    if greatestExponent < size then
      if significand = 0 ∨ below then some (signed (.zero false)) else none
    else
      let shift : Int := if below then -size else size
      let limit : Int := twoTo 31
      let bounded := max (-limit) (min (limit - 1) (power + shift))
      ((Double.ofNat significand).bind (·.scale bounded)).map signed

/-- The number of a token without point and exponent: an integer when it fits
in 64 bits, else a double. Minus zero is a double, which keeps its sign. -/
def NumberParts.integer? (parts : NumberParts) : Option Number :=
  let n := digitsValue parts.whole
  if parts.negative then
    if n = 0 then some (.double (.zero true))
    else if n ≤ twoTo 63 then some (.negative n)
    else parts.toDouble?.map .double
  else if n < twoTo 64 then some (.natural n)
  else parts.toDouble?.map .double

/-- The number that a token spells; `none` when it spells none or one that is
too large for a double. -/
def Number.ofToken? (token : List Char) : Option Number := do
  let parts ← NumberParts.split? token
  guard parts.isNumber
  if parts.fraction.isNone && parts.exponent.isNone then parts.integer?
  else parts.toDouble?.map .double

/-! ### The scanner -/

/-- What the scanner is in the middle of. -/
inductive Mode where
  | between
  | word (letters : List Char)
  | number (token : List Char)
  | text (chars : String)
  /-- After a backslash. -/
  | escape (chars : String)
  /-- Among the four hexadecimal digits of an escape; `high` is the first half
  of a surrogate pair when this escape has to give the second. -/
  | hex (chars : String) (high : Option Nat) (left value : Nat)
  /-- After the first half of a surrogate pair: a backslash must come. -/
  | pairSlash (chars : String) (high : Nat)
  /-- After that backslash: a `u` must come. -/
  | pairMark (chars : String) (high : Nat)
deriving Repr

/-- The scanner: its mode and the tokens so far, the last one first. -/
structure Scan where
  mode : Mode
  tokens : List Token
deriving Repr

namespace Scan

def start : Scan := ⟨.between, []⟩

/-- The word that letters spell. -/
def wordToken? (letters : List Char) : Option Token :=
  match String.ofList letters with
  | "null" => some (.scalar .null)
  | "true" => some (.scalar (.bool true))
  | "false" => some (.scalar (.bool false))
  | _ => none

/-- Ends a word or a number. Fails inside a text. -/
def finish (scan : Scan) : Option (List Token) :=
  match scan.mode with
  | .between => some scan.tokens
  | .word letters => (wordToken? letters.reverse).map (· :: scan.tokens)
  | .number token =>
    (Number.ofToken? token.reverse).map fun n => .scalar (.number n) :: scan.tokens
  | _ => none

/-- One character between tokens. -/
def stepBetween (tokens : List Token) (c : Char) : Option Scan :=
  if c = ' ' ∨ c = '\n' ∨ c = '\r' ∨ c = '\t' then some ⟨.between, tokens⟩
  else if c = '\x7b' then some ⟨.between, .openBrace :: tokens⟩
  else if c = '\x7d' then some ⟨.between, .closeBrace :: tokens⟩
  else if c = '[' then some ⟨.between, .openBracket :: tokens⟩
  else if c = ']' then some ⟨.between, .closeBracket :: tokens⟩
  else if c = ':' then some ⟨.between, .colon :: tokens⟩
  else if c = ',' then some ⟨.between, .comma :: tokens⟩
  else if c = '"' then some ⟨.text "", tokens⟩
  else if c = '-' ∨ c.isDigit then some ⟨.number [c], tokens⟩
  else if c.isLower then some ⟨.word [c], tokens⟩
  else none

/-- The character that a one-letter escape stands for. -/
def shortEscape? (c : Char) : Option Char :=
  match c with
  | '"' => some '"'
  | '\\' => some '\\'
  | '/' => some '/'
  | 'b' => some '\x08'
  | 'f' => some '\x0c'
  | 'n' => some '\n'
  | 'r' => some '\r'
  | 't' => some '\t'
  | _ => none

/-- The value of a hexadecimal digit. -/
def hexValue? (c : Char) : Option Nat :=
  if c.isDigit then some (c.toNat - '0'.toNat)
  else if 'a' ≤ c ∧ c ≤ 'f' then some (c.toNat - 'a'.toNat + 10)
  else if 'A' ≤ c ∧ c ≤ 'F' then some (c.toNat - 'A'.toNat + 10)
  else none

/-- The end of a four-digit escape: a character, the first half of a surrogate
pair, or its second half. Halves that stand alone are refused. -/
def finishHex (chars : String) (high : Option Nat) (value : Nat) : Option Mode :=
  let isHigh : Bool := 0xD800 ≤ value ∧ value < 0xDC00
  let isLow : Bool := 0xDC00 ≤ value ∧ value < 0xE000
  match high with
  | some first =>
    if isLow then
      some (.text (chars.push (Char.ofNat (0x10000 + (first - 0xD800) * 0x400 + (value - 0xDC00)))))
    else none
  | none =>
    if isHigh then some (.pairSlash chars value)
    else if isLow then none
    else some (.text (chars.push (Char.ofNat value)))

/-- Moves on by one character. -/
def step (scan : Scan) (c : Char) : Option Scan :=
  match scan.mode with
  | .between => stepBetween scan.tokens c
  | .word letters =>
    if c.isLower then some { scan with mode := .word (c :: letters) }
    else scan.finish.bind (stepBetween · c)
  | .number token =>
    if c.isDigit ∨ c = '.' ∨ c = 'e' ∨ c = 'E' ∨ c = '+' ∨ c = '-' then
      some { scan with mode := .number (c :: token) }
    else scan.finish.bind (stepBetween · c)
  | .text chars =>
    if c = '"' then some ⟨.between, .scalar (.string chars) :: scan.tokens⟩
    else if c = '\\' then some { scan with mode := .escape chars }
    else if c.toNat < 0x20 then none
    else some { scan with mode := .text (chars.push c) }
  | .escape chars =>
    if c = 'u' then some { scan with mode := .hex chars none 4 0 }
    else (shortEscape? c).map fun e => { scan with mode := .text (chars.push e) }
  | .hex chars high left value =>
    (hexValue? c).bind fun digit =>
      if left = 1 then
        (finishHex chars high (16 * value + digit)).map fun mode => { scan with mode }
      else some { scan with mode := .hex chars high (left - 1) (16 * value + digit) }
  | .pairSlash chars high =>
    if c = '\\' then some { scan with mode := .pairMark chars high } else none
  | .pairMark chars high =>
    if c = 'u' then some { scan with mode := .hex chars (some high) 4 0 } else none

end Scan

/-- The tokens of a text; `none` when some part of it is no token. -/
def Token.scan (text : String) : Option (List Token) :=
  ((text.toList.foldlM Scan.step Scan.start).bind Scan.finish).map List.reverse

end EsFront.Json
