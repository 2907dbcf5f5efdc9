/-
Words of the shell.

A word is a row of pieces: plain text, parameters and the output of scripts,
each quoted or not. What the pieces stand for is known only when the word is
used.
-/
import EsFront.Shell.Pattern

namespace EsFront.Shell

/-- What a script can ask for by name. -/
inductive Parameter where
  | named (name : String)
  /-- An argument of the script; the first has number one, and zero is the name
  of the script. -/
  | argument (n : Nat)
  /-- All arguments, each by itself. -/
  | arguments
  /-- All arguments, in one text. -/
  | joined
  | count
  | status
  | process
  /-- The options in force. -/
  | options
deriving DecidableEq, Repr, Inhabited

/-- What is put in place of a parameter. -/
inductive Substitute where
  /-- Its value. -/
  | value
  | length
  /-- A word if it has no value. -/
  | default
  /-- The same, and the word becomes its value. -/
  | assign
  /-- A word if it has a value. -/
  | alternative
  /-- A complaint if it has no value. -/
  | demand
  /-- Its value without a part that fits a pattern. -/
  | trim (trim : Pattern.Trim)
deriving DecidableEq, Repr, Inhabited

/-- A piece of a word. -/
inductive Piece where
  | text (quoted : Bool) (text : String)
  /-- A parameter. With `orEmpty` an empty value counts as none; `word` is the
  word that the substitute speaks of. -/
  | parameter (quoted : Bool) (parameter : Parameter) (substitute : Substitute)
      (orEmpty : Bool) (word : List Piece)
  /-- What a script prints. -/
  | output (quoted : Bool) (script : String)
  /-- The value of an arithmetic expression. -/
  | sum (quoted : Bool) (expression : List Piece)
  /-- A parameter that cannot be read. -/
  | bad
deriving Repr, Inhabited

abbrev Word := List Piece

namespace Word

/-- The text of a word that is plain and not quoted. -/
def plainText? : Word → Option String
  | [.text false s] => some s
  | _ => none

/-- The text of a word that has plain text only. -/
def literalText (word : Word) : String :=
  String.join (word.map fun
    | .text _ s => s
    | _ => "")

/-- Whether a part of the word is quoted. -/
def isQuoted (word : Word) : Bool :=
  word.any fun
    | .text quoted _ | .parameter quoted .. | .output quoted _ | .sum quoted _ => quoted
    | .bad => false

end Word

/-- Whether a character can start a variable's name. -/
def isNameStart (c : Char) : Bool := c.isAlpha || c = '_'

/-- Whether a character can be part of a variable's name. -/
def isNameChar (c : Char) : Bool := c.isAlphanum || c = '_'

/-- Whether a text is the name of a variable. -/
def isName (text : String) : Bool :=
  match text.toList with
  | [] => false
  | c :: rest => isNameStart c && rest.all isNameChar

/-- The parameter that one special character names. -/
def Parameter.special? : Char → Option Parameter
  | '@' => some .arguments
  | '*' => some .joined
  | '#' => some .count
  | '?' => some .status
  | '$' => some .process
  | '-' => some .options
  | c => if c.isDigit then some (.argument (c.toNat - '0'.toNat)) else none

end EsFront.Shell
