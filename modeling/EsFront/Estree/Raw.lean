/-
Reading the plain members of ESTree nodes: tag, location, range, and the value
of a literal.

A location or range counts only when all its numbers are integer tokens
without sign, point or exponent that fit in 64 bits; they are cut to 32 bits.
-/
import EsFront.Json.Basic
import EsFront.Estree.Error
import EsFront.Syntax.Form

namespace EsFront.Json

/-- The tag of a node, if the value is an object that has one. -/
def nodeTag? (raw : Json) : Option String := raw.text? "type"

/-- A number cut to 32 bits. -/
def word? (raw : Json) : Option UInt32 := raw.asNatural?.map Nat.toUInt32

/-- A line and a column. -/
def position? (raw : Json) : Option Position := do
  let line ← (raw.get? "line").bind word?
  let column ← (raw.get? "column").bind word?
  return ⟨line, column⟩

/-- The location of a node or comment. A file name given from outside wins
over the one in the location. -/
def location? (raw : Json) (file : Option String) : Option SourceLocation := do
  let loc ← raw.get? "loc"
  let start ← (loc.get? "start").bind position?
  let stop ← (loc.get? "end").bind position?
  let source := match file with
    | some name => some name
    | none => loc.text? "source"
  return ⟨source, start, stop⟩

/-- The range of a node or comment: a list of exactly two numbers. -/
def range? (raw : Json) : Option TextRange :=
  match (raw.get? "range").bind asArray? with
  | some [start, stop] => do return ⟨← start.word?, ← stop.word?⟩
  | _ => none

/-- Splits the text of a regular expression at its first and last slash. -/
def splitRegExp? (text : String) : Option (String × String) :=
  match text.toList with
  | '/' :: body =>
    let flags := body.reverse.takeWhile (· ≠ '/')
    match body.reverse.dropWhile (· ≠ '/') with
    | _ :: pattern => some (String.ofList pattern.reverse, String.ofList flags.reverse)
    | [] => none
  | _ => none

/-- The value of a literal node. A regular expression is recognized by its
`regex` member, or by its text when the value is an object, null or
missing. -/
def literalValue (raw : Json) : Except ImportError LiteralValue :=
  match raw.get? "regex" with
  | some (object members) =>
    let part (key : String) : String := ((object members).text? key).getD ""
    .ok (.regExp (part "pattern") (part "flags"))
  | _ =>
    let byText := (raw.text? "raw").bind splitRegExp?
    match raw.get? "value" with
    | some (bool b) => .ok (.boolean b)
    | some (number n) => .ok (.number n.toDouble)
    | some (string s) => .ok (.string s)
    | some (array _) => .error (.unsupportedConstruct .literal "literal value is an array")
    | some (object _) =>
      match byText with
      | some (pattern, flags) => .ok (.regExp pattern flags)
      | none => .error (.unsupportedConstruct .literal "literal value is an object")
    | some null | none =>
      match byText with
      | some (pattern, flags) => .ok (.regExp pattern flags)
      | none => .ok .null

end EsFront.Json
