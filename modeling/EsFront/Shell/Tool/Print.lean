/-
Tools that print their arguments.

`echo` prints them on a line, `printf` after a format. As commands of the shell
and as programs they differ in small ways, which `Dialect` tells apart.
-/
import EsFront.Shell.Tool.Basic

namespace EsFront.Shell.Tool

/-- Whose rules a tool follows. -/
inductive Dialect where
  /-- A command of the plain shell. -/
  | shell
  /-- A command of the larger shell. -/
  | largeShell
  /-- A program of its own. -/
  | program
deriving DecidableEq, Repr, Inhabited

/-! ### Escapes -/

/-- Which escapes are known. -/
structure EscapeRule where
  /-- Octal numbers start with a zero that is not counted. -/
  leadingZero : Bool
  /-- There is an escape of the escape character. -/
  escape : Bool
  hexadecimal : Bool
  /-- An escape that stops all output. -/
  stops : Bool
deriving DecidableEq, Repr

def isOctal (c : Char) : Bool := '0' ≤ c && c ≤ '7'

/-- The value of a digit, hexadecimal ones included. -/
def digitValue? (c : Char) : Option Nat :=
  if c.isDigit then some (c.toNat - '0'.toNat)
  else if 'a' ≤ c && c ≤ 'f' then some (c.toNat - 'a'.toNat + 10)
  else if 'A' ≤ c && c ≤ 'F' then some (c.toNat - 'A'.toNat + 10)
  else none

/-- The number that digits give. -/
def numberOf (base : Nat) (digits : List Char) : Nat :=
  digits.foldl (fun n c => base * n + (digitValue? c).getD 0) 0

/-- The bytes of the escape behind a backslash, and how many characters it
takes; `none` if it stops. -/
def EscapeRule.read (rule : EscapeRule) (text : List Char) : Option (Bytes × Nat) :=
  let octal := fun (skip : Nat) =>
    let digits := ((text.drop skip).take 3).takeWhile isOctal
    some ([(numberOf 8 digits).toUInt8], skip + digits.length)
  match text with
  | 'a' :: _ => some ([7], 1)
  | 'b' :: _ => some ([8], 1)
  | 'f' :: _ => some ([12], 1)
  | 'n' :: _ => some ([10], 1)
  | 'r' :: _ => some ([13], 1)
  | 't' :: _ => some ([9], 1)
  | 'v' :: _ => some ([11], 1)
  | '\\' :: _ => some ([92], 1)
  | 'c' :: _ => if rule.stops then none else some ([92], 0)
  | 'e' :: _ => if rule.escape then some ([27], 1) else some ([92], 0)
  | 'x' :: rest =>
    let digits := (rest.take 2).takeWhile fun c => (digitValue? c).isSome
    if rule.hexadecimal && !digits.isEmpty then
      some ([(numberOf 16 digits).toUInt8], 1 + digits.length)
    else some ([92], 0)
  | '0' :: _ => octal (if rule.leadingZero then 1 else 0)
  | c :: _ => if isOctal c && !rule.leadingZero then octal 0 else some ([92], 0)
  | [] => some ([92], 0)

/-- A text with its escapes read, and whether one of them stops. The first
argument counts characters already used up. -/
def EscapeRule.decode (rule : EscapeRule) : Nat → List Char → Bytes × Bool
  | _, [] => ([], false)
  | used + 1, _ :: rest => rule.decode used rest
  | 0, c :: rest =>
    if c = '\\' then
      match rule.read rest with
      | none => ([], true)
      | some (bytes, used) =>
        let (more, stopped) := rule.decode used rest
        (bytes ++ more, stopped)
    else
      let (more, stopped) := rule.decode 0 rest
      (utf8 c.toString ++ more, stopped)

/-! ### Lines -/

/-- The options in front of the words of `echo`. -/
def echoOptions : List String → List Char × List String
  | [] => ([], [])
  | word :: rest =>
    match word.toList with
    | '-' :: c :: more =>
      if (c :: more).all fun o => o = 'n' || o = 'e' || o = 'E' then
        let (options, words) := echoOptions rest
        (c :: more ++ options, words)
      else ([], word :: rest)
    | _ => ([], word :: rest)

/-- Prints the arguments on a line. -/
def echo (dialect : Dialect) (call : Call) : Outcome :=
  let line := fun (escapes : Bool) (ended : Bool) (words : List String) =>
    let text := " ".intercalate words
    let (bytes, stopped) :=
      if escapes then
        EscapeRule.decode ⟨true, dialect ≠ .shell, dialect ≠ .shell, true⟩ 0 text.toList
      else (utf8 text, false)
    (Outcome.start call).print (if ended && !stopped then bytes ++ [10] else bytes)
  match dialect with
  | .shell =>
    match call.args with
    | "-n" :: rest => line true false rest
    | args => line true true args
  | .largeShell | .program =>
    let (options, words) := echoOptions call.args
    let escapes := (options.reverse.find? fun o => o = 'e' || o = 'E') = some 'e'
    line escapes (!options.contains 'n') words

/-! ### Formats -/

/-- A directive of a format. -/
structure Directive where
  flags : List Char
  /-- The least number of characters; `none` if an argument gives it. -/
  width : Option Nat
  /-- The number of digits or the greatest number of characters. -/
  precision : Option (Option Nat)
  conversion : Char
deriving DecidableEq, Repr

/-- Reads a number or a star. -/
def formatNumber (text : List Char) : Option Nat × List Char :=
  match text with
  | '*' :: rest => (none, rest)
  | _ =>
    let digits := text.takeWhile Char.isDigit
    (some (numberOf 10 digits), text.drop digits.length)

/-- Reads the directive behind a percent sign, or gives what it consists of. -/
def Directive.read (text : List Char) : Except (List Char) (Directive × List Char) :=
  let flags := text.takeWhile fun c => "-+ #0".toList.contains c
  let (width, rest) := formatNumber (text.drop flags.length)
  let (precision, rest) := match rest with
    | '.' :: rest =>
      let (digits, rest) := formatNumber rest
      (some digits, rest)
    | _ => (none, rest)
  match rest with
  | c :: rest =>
    if "sbcdiouxX".toList.contains c then .ok (⟨flags, width, precision, c⟩, rest)
    else .error (text.take (text.length - rest.length))
  | [] => .error []

/-- Pads a text to a width. -/
def pad (left : Bool) (width : Nat) (bytes : Bytes) : Bytes :=
  let blanks := List.replicate (width - bytes.length) 32
  if left then bytes ++ blanks else blanks ++ bytes

/-- Reads an argument as a number; the second part tells what is wrong. -/
def integerOf (text : String) : Int × Option Bool :=
  match text.toList with
  | [] => (0, none)
  | '\x27' :: c :: _ | '\x22' :: c :: _ => (c.toNat, none)
  | chars =>
    let (negative, body) := match chars with
      | '-' :: rest => (true, rest)
      | '+' :: rest => (false, rest)
      | _ => (false, chars)
    let (base, digits) := match body with
      | '0' :: 'x' :: rest | '0' :: 'X' :: rest => (16, rest)
      | '0' :: rest => (8, '0' :: rest)
      | _ => (10, body)
    let taken := digits.takeWhile fun c => (digitValue? c).any (· < base)
    let n : Int := numberOf base taken
    let wrong :=
      if taken.isEmpty then some false
      else if taken.length < digits.length then some true
      else none
    (if negative then -n else n, wrong)

/-- A number in the given base. -/
def showNumber (conversion : Char) (n : Nat) : String :=
  let digits := match conversion with
    | 'o' => Nat.toDigits 8 n
    | 'x' => Nat.toDigits 16 n
    | 'X' => (Nat.toDigits 16 n).map Char.toUpper
    | _ => Nat.toDigits 10 n
  String.ofList digits

/-- Writes a number as a directive asks. -/
def Directive.number (d : Directive) (width : Nat) (precision : Option Nat) (n : Int) : Bytes :=
  let signed := d.conversion = 'd' || d.conversion = 'i'
  let magnitude := if signed || 0 ≤ n then n.natAbs else 18446744073709551616 - n.natAbs
  let sign :=
    if signed && n < 0 then "-"
    else if signed && d.flags.contains '+' then "+"
    else if signed && d.flags.contains ' ' then " "
    else if d.flags.contains '#' && n ≠ 0 then
      match d.conversion with
      | 'x' => "0x"
      | 'X' => "0X"
      | 'o' => "0"
      | _ => ""
    else ""
  let digits := showNumber d.conversion magnitude
  let least := match precision with
    | some p => p
    | none =>
      if d.flags.contains '0' && !d.flags.contains '-' then width - sign.length else 0
  let zeros := String.ofList (List.replicate (least - digits.length) '0')
  pad (d.flags.contains '-') width (utf8 (sign ++ zeros ++ digits))

/-- A format that is being followed. -/
structure Formatting where
  outcome : Outcome
  args : List String
  stopped : Bool := false
deriving Repr

namespace Formatting

/-- Takes the next argument. -/
def next (f : Formatting) : String × Formatting :=
  (f.args.head?.getD "", { f with args := f.args.drop 1 })

/-- Takes the next argument as a number. -/
def nextInteger (dialect : Dialect) (name : String) (f : Formatting) : Int × Formatting :=
  let (text, f) := f.next
  let (n, wrong) := integerOf text
  let shown := if dialect = .program then quotedName text else text
  let article := if dialect = .program then "a " else ""
  let subject := if dialect = .program then "value " else ""
  match wrong with
  | none => (n, f)
  | some false =>
    (n, { f with
      outcome := f.outcome.complain 1
        (name ++ ": " ++ shown ++ ": expected " ++ article ++ "numeric value") })
  | some true =>
    (n, { f with
      outcome := f.outcome.complain 1
        (name ++ ": " ++ shown ++ ": " ++ subject ++ "not completely converted") })

def print (f : Formatting) (bytes : Bytes) : Formatting :=
  { f with outcome := f.outcome.print bytes }

/-- A number that the format or an argument gives. -/
def numberOr (dialect : Dialect) (name : String) (given : Option Nat) (f : Formatting) :
    Nat × Formatting :=
  match given with
  | some n => (n, f)
  | none =>
    let (n, f) := f.nextInteger dialect name
    (n.toNat, f)

/-- Follows one directive. -/
def directive (dialect : Dialect) (name : String) (f : Formatting) (d : Directive) :
    Formatting :=
  let (width, f) := f.numberOr dialect name d.width
  let (precision, f) : Option Nat × Formatting := match d.precision with
    | none => (none, f)
    | some given =>
      let (n, f) := f.numberOr dialect name given
      (some n, f)
  let left := d.flags.contains '-'
  let cut := fun (bytes : Bytes) => match precision with
    | none => bytes
    | some p => bytes.take p
  match d.conversion with
  | 's' =>
    let (text, f) := f.next
    f.print (pad left width (cut (utf8 text)))
  | 'c' =>
    let (text, f) := f.next
    f.print (pad left width ((utf8 text).take 1))
  | 'b' =>
    let (text, f) := f.next
    let (bytes, stopped) := EscapeRule.decode ⟨true, true, dialect ≠ .shell, true⟩ 0 text.toList
    { f.print (pad left width (cut bytes)) with stopped }
  | _ =>
    let (n, f) := f.nextInteger dialect name
    f.print (d.number width precision n)

/-- Follows a format once. -/
def once (dialect : Dialect) (name : String) : Nat → List Char → Formatting → Formatting
  | 0, _, f => f
  | fuel + 1, text, f =>
    if f.stopped then f
    else
      match text with
      | [] => f
      | '%' :: '%' :: rest => once dialect name fuel rest (f.print [37])
      | '%' :: rest =>
        match Directive.read rest with
        | .ok (d, rest) => once dialect name fuel rest (f.directive dialect name d)
        | .error text =>
          let shown := "%" ++ String.ofList text ++ ": "
          let reason :=
            if dialect = .program then shown ++ "invalid conversion specification"
            else if text.isEmpty then "missing format character"
            else shown ++ "invalid directive"
          { f with
            stopped := true
            outcome := f.outcome.complain (if dialect = .program then 1 else 2)
              (name ++ ": " ++ reason) }
      | '\\' :: rest =>
        match EscapeRule.read ⟨false, true, dialect ≠ .shell, dialect ≠ .shell⟩ rest with
        | none => { f with stopped := true }
        | some (bytes, used) => once dialect name fuel (rest.drop used) (f.print bytes)
      | c :: rest => once dialect name fuel rest (f.print (utf8 c.toString))

/-- Follows a format until no arguments are left. -/
def repeatedly (dialect : Dialect) (name : String) (format : List Char) :
    Nat → Formatting → Formatting
  | 0, f => f
  | fuel + 1, f =>
    let done := f.once dialect name (format.length + 1) format
    if done.stopped || done.args.isEmpty || done.args.length = f.args.length then done
    else done.repeatedly dialect name format fuel

end Formatting

/-- Prints the arguments after a format. -/
def printf (dialect : Dialect) (call : Call) : Outcome :=
  let name := call.name
  let args := match call.args with
    | "--" :: rest => rest
    | args => args
  match args with
  | [] =>
    if dialect = .program then call.refuse 1 "missing operand"
    else call.failing 2 (name ++ ": usage: printf format [arg ...]")
  | format :: args =>
    let start : Formatting := { outcome := Outcome.start call, args }
    (start.repeatedly dialect name format.toList (args.length + 1)).outcome

end EsFront.Shell.Tool
