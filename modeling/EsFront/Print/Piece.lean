/-
Pieces of printed text.

A printer writes a list of pieces. They keep apart what a plain text would
mix up: words, brackets, operators, comments and line ends. `render` turns
them into text; only there do the spelling of line ends and indentation
matter.
-/
import EsFront.Syntax.Comment

namespace EsFront

/-- The kinds of brackets. -/
inductive Bracket where
  | round
  | square
  | curly
deriving DecidableEq, Repr, Inhabited

namespace Bracket

def openingText : Bracket → String
  | round => "("
  | square => "["
  | curly => "\x7b"

def closingText : Bracket → String
  | round => ")"
  | square => "]"
  | curly => "\x7d"

end Bracket

/-- A piece of printed text. -/
inductive Piece where
  | text (s : String)
  | opening (bracket : Bracket)
  | closing (bracket : Bracket)
  /-- An operator between two operands. -/
  | operator (op : BinaryOperator)
  | comment (c : Comment)
  /-- The end of a line and the indentation of the next. -/
  | line (level : Nat)
deriving DecidableEq, Repr, Inhabited

/-- How pieces are spelled, and which of them are wanted. -/
structure PrintOptions where
  indent : String := "    "
  newLine : String := "\n"
  trailingNewline : Bool := true
  preserveComments : Bool := true
deriving DecidableEq, Repr, Inhabited

/-- The text of a comment with its delimiters. -/
def Comment.text (c : Comment) : String :=
  match c.kind with
  | .block => "/*" ++ c.value ++ "*/"
  | .line => "//" ++ c.value

/-- A text repeated. -/
def repeated (text : String) : Nat → String
  | 0 => ""
  | n + 1 => text ++ repeated text n

/-- The text of a piece. -/
def Piece.render (options : PrintOptions) : Piece → String
  | text s => s
  | opening bracket => bracket.openingText
  | closing bracket => bracket.closingText
  | operator op => op.text
  | comment c => c.text
  | line level => options.newLine ++ repeated options.indent level

/-- The text of a list of pieces. -/
def render (options : PrintOptions) (pieces : List Piece) : String :=
  String.join (pieces.map (Piece.render options))

/-- Pieces between a pair of brackets. -/
def enclosed (bracket : Bracket) (pieces : List Piece) : List Piece :=
  .opening bracket :: (pieces ++ [.closing bracket])

/-- Pieces between round brackets. -/
def parenthesized (pieces : List Piece) : List Piece := enclosed .round pieces

/-- Parts with a comma and a blank between any two. -/
def commaSeparated (parts : List (List Piece)) : List Piece :=
  List.intercalate [.text ", "] parts

end EsFront
