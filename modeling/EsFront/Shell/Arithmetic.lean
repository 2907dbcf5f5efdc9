/-
Arithmetic of the shell.

Expressions on integers of 64 bits, with the operators that the shell shares
with older languages.
-/
import EsFront.Shell.Tool.Print
import EsFront.Shell.Word

namespace EsFront.Shell.Arithmetic

open Tool (numberOf digitValue?)

/-- Reasons why an expression has no value. -/
inductive Error where
  | expectingPrimary
  | expectingEnd
  | expectingClosing
  | divisionByZero
deriving DecidableEq, Repr, Inhabited

/-- The reason in words. -/
def Error.message : Error → String
  | expectingPrimary => "expecting primary"
  | expectingEnd => "expecting EOF"
  | expectingClosing => "expecting ')'"
  | divisionByZero => "division by zero"

/-- The operators with how tightly they bind, longer ones first. -/
def operators : List (String × Nat) :=
  [("||", 1), ("&&", 2), ("==", 6), ("!=", 6), ("<=", 7), (">=", 7), ("<<", 8), (">>", 8), ("|", 3),
    ("^", 4), ("&", 5), ("<", 7), (">", 7), ("+", 9), ("-", 9), ("*", 10), ("/", 10), ("%", 10)]

def ofBool (b : Bool) : Int := if b then 1 else 0

/-- An integer cut to 64 bits. -/
def wrap (n : Int) : Int := Int.bmod n 18446744073709551616

/-- A bit operation on two integers. -/
def bits (f : UInt64 → UInt64 → UInt64) (a b : Int) : Int :=
  let word := fun (n : Int) => (n.emod 18446744073709551616).toNat.toUInt64
  wrap (f (word a) (word b)).toNat

/-- The value of an operator. -/
def apply (operator : String) (a b : Int) : Except Error Int :=
  match operator with
  | "||" => .ok (ofBool (a ≠ 0 || b ≠ 0))
  | "&&" => .ok (ofBool (a ≠ 0 && b ≠ 0))
  | "|" => .ok (bits (· ||| ·) a b)
  | "^" => .ok (bits (· ^^^ ·) a b)
  | "&" => .ok (bits (· &&& ·) a b)
  | "==" => .ok (ofBool (a = b))
  | "!=" => .ok (ofBool (a ≠ b))
  | "<" => .ok (ofBool (a < b))
  | ">" => .ok (ofBool (b < a))
  | "<=" => .ok (ofBool (a ≤ b))
  | ">=" => .ok (ofBool (b ≤ a))
  | "<<" => .ok (bits (· <<< ·) a b)
  | ">>" => .ok (bits (· >>> ·) a b)
  | "+" => .ok (wrap (a + b))
  | "-" => .ok (wrap (a - b))
  | "*" => .ok (wrap (a * b))
  | "/" => if b = 0 then .error .divisionByZero else .ok (wrap (a.tdiv b))
  | _ => if b = 0 then .error .divisionByZero else .ok (a.tmod b)

def skipBlanks (text : List Char) : List Char :=
  text.dropWhile fun c => c = ' ' || c = '\t' || c = '\n'

/-- The operator at the front of a text that binds at least so tightly. -/
def operator? (least : Nat) (text : List Char) : Option (String × Nat × List Char) :=
  match operators.find? fun (name, _) => name.toList.isPrefixOf text with
  | some (name, tightness) =>
    if least ≤ tightness then some (name, tightness, text.drop name.length) else none
  | none => none

/-- Reads a number without a sign. -/
def number (text : List Char) : Int × List Char :=
  let (base, digits) := match text with
    | '0' :: 'x' :: rest | '0' :: 'X' :: rest => (16, rest)
    | '0' :: rest => (8, '0' :: rest)
    | _ => (10, text)
  let taken := digits.takeWhile fun c => (digitValue? c).any (· < base)
  (numberOf base taken, digits.drop taken.length)

mutual

/-- Reads an expression whose operators bind at least so tightly. -/
def expression (lookup : String → Option String) :
    Nat → Nat → List Char → Except Error (Int × List Char)
  | 0, _, _ => .error .expectingPrimary
  | fuel + 1, least, text => do
    let (first, rest) ← primary lookup fuel (skipBlanks text)
    more lookup fuel least first rest

/-- Reads operators behind a value. -/
def more (lookup : String → Option String) :
    Nat → Nat → Int → List Char → Except Error (Int × List Char)
  | 0, _, first, text => .ok (first, text)
  | fuel + 1, least, first, text =>
    match operator? least (skipBlanks text) with
    | none => .ok (first, text)
    | some (operator, tightness, rest) => do
      let (second, rest) ← expression lookup fuel (tightness + 1) rest
      let value ← apply operator first second
      more lookup fuel least value rest

/-- Reads a value. -/
def primary (lookup : String → Option String) :
    Nat → List Char → Except Error (Int × List Char)
  | 0, _ => .error .expectingPrimary
  | fuel + 1, text =>
    match text with
    | '(' :: rest => do
      let (value, rest) ← expression lookup fuel 0 rest
      match skipBlanks rest with
      | ')' :: rest => .ok (value, rest)
      | _ => .error .expectingClosing
    | '-' :: rest => do
      let (value, rest) ← primary lookup fuel (skipBlanks rest)
      .ok (wrap (-value), rest)
    | '+' :: rest => primary lookup fuel (skipBlanks rest)
    | '!' :: rest => do
      let (value, rest) ← primary lookup fuel (skipBlanks rest)
      .ok (ofBool (value = 0), rest)
    | '~' :: rest => do
      let (value, rest) ← primary lookup fuel (skipBlanks rest)
      .ok (-value - 1, rest)
    | c :: rest =>
      if c.isDigit then .ok (number (c :: rest))
      else if isNameStart c then
        let name := String.ofList ((c :: rest).takeWhile isNameChar)
        let value := ((lookup name).bind String.toInt?).getD 0
        .ok (value, (c :: rest).dropWhile isNameChar)
      else .error .expectingPrimary
    | [] => .error .expectingPrimary

end

/-- The value of an expression. -/
def evaluate (lookup : String → Option String) (text : String) : Except Error Int := do
  let chars := text.toList
  let (value, rest) ← expression lookup (4 * chars.length + 4) 0 chars
  if (skipBlanks rest).isEmpty then .ok value else .error .expectingEnd

end EsFront.Shell.Arithmetic
