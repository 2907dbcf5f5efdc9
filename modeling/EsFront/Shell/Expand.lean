/-
What words stand for.

A word gives any number of fields: values that are not quoted are split at
blanks, and fields with open patterns become the names of files. Running
scripts inside words is left to a function that is given.

* `Expansion` — fields that are being put together;
* `expandWords` — the fields of words;
* `expandText`, `expandPattern` — a word as one text or one pattern.
-/
import EsFront.Shell.Arithmetic
import EsFront.Shell.Machine

namespace EsFront.Shell

/-- A field; `kept` tells that it counts even if it is empty. -/
structure Field where
  chars : List Marked := []
  kept : Bool := false
deriving DecidableEq, Repr, Inhabited

/-- The text of a field. -/
def Field.text (field : Field) : String := String.ofList (field.chars.map (·.char))

/-- Fields that are being put together, the finished ones in reverse. -/
structure Expansion where
  machine : Machine
  finished : List Field := []
  current : Field := {}

namespace Expansion

/-- Adds a text to the field at hand. -/
def add (e : Expansion) (quoted : Bool) (text : String) : Expansion :=
  let chars := text.toList.map (⟨·, quoted⟩)
  { e with current := ⟨e.current.chars ++ chars, e.current.kept || quoted⟩ }

/-- Ends the field at hand, if there is one. -/
def cut (e : Expansion) : Expansion :=
  if e.current.chars.isEmpty && !e.current.kept then e
  else { e with finished := e.current :: e.finished, current := {} }

/-- Whether a value is split at a character. -/
def splits (c : Char) : Bool := c = ' ' || c = '\t' || c = '\n'

/-- The parts of a text between blanks, empty ones included. -/
def parts (text : List Char) : List (List Char) :=
  text.foldr (fun c parts =>
    if splits c then [] :: parts
    else
      match parts with
      | [] => [[c]]
      | part :: rest => (c :: part) :: rest) [[]]

/-- Adds a text that is split at blanks. -/
def addSplit (e : Expansion) (text : String) : Expansion :=
  match parts text.toList with
  | [] => e
  | first :: rest =>
    rest.foldl (fun e part => e.cut.add false (String.ofList part))
      (e.add false (String.ofList first))

/-- Adds a value. -/
def addValue (e : Expansion) (quoted split : Bool) (text : String) : Expansion :=
  if quoted then e.add true text
  else if split then e.addSplit text
  else e.add false text

/-- Adds values, each to a field of its own. -/
def addValues (e : Expansion) (quoted split : Bool) (values : List String) : Expansion :=
  match values with
  | [] => e
  | first :: rest =>
    rest.foldl (fun e value =>
      (if split then e.cut else e.add quoted " ").addValue quoted split value)
      (e.addValue quoted split first)

/-- All fields. -/
def fields (e : Expansion) : List Field := e.cut.finished.reverse

/-- All fields as one. -/
def joined (e : Expansion) : Field := e.fields.foldl (fun a b => ⟨a.chars ++ b.chars, true⟩) {}

end Expansion

/-- How a parameter is named in complaints. -/
def Parameter.shown : Parameter → String
  | named name => name
  | argument n => toString n
  | arguments => "@"
  | joined => "*"
  | count => "#"
  | status => "?"
  | process => "$"
  | options => "-"

/-- Runs a script and gives what it prints. -/
abbrev Capture := String → Machine → Bytes × Machine

/-- The text that a script prints, without the line ends behind it. -/
def capturedText (bytes : Bytes) : String :=
  Utf8.decodeLossy (bytes.reverse.dropWhile (· = 10)).reverse

mutual

/-- Adds what pieces stand for. `split` tells whether values are split, and
`inner` whether plain text is, too. -/
def expandPieces (capture : Capture) (fuel : Nat) (split inner : Bool) (pieces : List Piece)
    (e : Expansion) : Expansion :=
  match fuel with
  | 0 => e
  | fuel + 1 =>
    match pieces with
    | [] => e
    | piece :: rest =>
      if e.machine.isRunning then
        expandPieces capture fuel split inner rest (expandPiece capture fuel split inner piece e)
      else e

/-- Adds what one piece stands for. -/
def expandPiece (capture : Capture) (fuel : Nat) (split inner : Bool) (piece : Piece)
    (e : Expansion) : Expansion :=
  match fuel with
  | 0 => e
  | fuel + 1 =>
    match piece with
    | .text quoted text => if inner && split then e.addValue quoted true text else e.add quoted text
    | .output quoted script =>
      let (bytes, machine) := capture script e.machine
      { e with machine }.addValue quoted split (capturedText bytes)
    | .sum quoted expression =>
      let inside := expandPieces capture fuel false false expression { machine := e.machine }
      let text := inside.joined.text
      match Arithmetic.evaluate inside.machine.valueOf? text with
      | .ok n => { e with machine := inside.machine }.addValue quoted split (toString n)
      | .error reason =>
        let complaint := "arithmetic expression: " ++ reason.message ++ ": \"" ++ text ++ "\""
        { e with machine := inside.machine.abort 2 complaint }
    | .bad => { e with machine := e.machine.abort 2 "Bad substitution" }
    | .parameter quoted parameter substitute orEmpty word =>
      let found := e.machine.values parameter
      let values := if orEmpty && found = some [""] then none else found
      let put := fun (e : Expansion) (values : List String) =>
        if quoted && parameter ≠ .arguments then e.addValue true split (" ".intercalate values)
        else e.addValues quoted split values
      match substitute, values with
      | .value, some values => put e values
      | .value, none =>
        if e.machine.needValues && parameter ≠ .arguments && parameter ≠ .joined then
          { e with machine := e.machine.abort 2 (parameter.shown ++ ": parameter not set") }
        else if quoted && parameter ≠ .arguments then e.add true ""
        else e
      | .length, values =>
        let size := " ".intercalate (values.getD []) |>.length
        e.addValue quoted split (toString size)
      | .default, some values | .assign, some values | .demand, some values => put e values
      | .default, none | .alternative, some _ =>
        let e := if quoted then e.add true "" else e
        expandPieces capture fuel split true word e
      | .alternative, none => if quoted then e.add true "" else e
      | .assign, none =>
        let inside := expandPieces capture fuel false false word { machine := e.machine }
        let text := inside.joined.text
        let machine := match parameter with
          | .named name => inside.machine.setVariable name text
          | _ => inside.machine.abort 2 (parameter.shown ++ ": bad variable name")
        { e with machine }.addValue quoted split text
      | .demand, none =>
        let inside := expandPieces capture fuel false false word { machine := e.machine }
        let text := match inside.joined.text with
          | "" => "parameter not set" ++ if orEmpty then " or null" else ""
          | text => text
        { e with machine := inside.machine.abort 2 (parameter.shown ++ ": " ++ text) }
      | .trim trim, values =>
        let inside := expandPieces capture fuel false false word { machine := e.machine }
        let pattern := Pattern.ofMarked inside.joined.chars
        let text := " ".intercalate (values.getD [])
        { e with machine := inside.machine }.addValue quoted split
          (String.ofList (trim.cut pattern text.toList))

end

/-! ### Names of files -/

/-- The parts of a field between slashes. -/
def pathPatterns (chars : List Marked) : List (List Marked) :=
  chars.foldr (fun m parts =>
    if m.char = '/' then [] :: parts
    else
      match parts with
      | [] => [[m]]
      | part :: rest => (m :: part) :: rest) [[]]

/-- The names in a directory that a pattern stands for. Those that start with a
dot are found only if the pattern does. -/
def namesMatching (workspace : Workspace) (directory : Path) (pattern : Pattern) : List String :=
  (workspace.namesIn directory).filter fun name =>
    pattern.accepts name.toList &&
      (name.toList.head? ≠ some '.' || pattern.head? = some (.char '.'))

/-- The paths that patterns stand for, one pattern for each directory. -/
def pathsMatching (workspace : Workspace) (shown : String) (here : Path) :
    List (List Marked) → List String
  | [] => []
  | [last] =>
    let pattern := Pattern.ofMarked last
    if pattern.isOpen then
      (namesMatching workspace here pattern).map (shown ++ ·)
    else
      let name := Field.text ⟨last, true⟩
      if workspace.pathExists (shown ++ name) then [shown ++ name] else []
  | part :: rest =>
    let pattern := Pattern.ofMarked part
    let names :=
      if pattern.isOpen then namesMatching workspace here pattern else [Field.text ⟨part, true⟩]
    names.flatMap fun name =>
      let next := if name = "" || name = "." then here else here ++ [name]
      if workspace.isDirectory next then pathsMatching workspace (shown ++ name ++ "/") next rest
      else []

/-- The words that a field gives: the files it stands for, or itself. -/
def Field.words (field : Field) (workspace : Workspace) : List String :=
  if (Pattern.ofMarked field.chars).isOpen then
    match pathsMatching workspace "" (workspace.here.getD []) (pathPatterns field.chars) with
    | [] => [field.text]
    | found => found
  else [field.text]

/-! ### Words -/

/-- The fields of words. -/
def expandWords (capture : Capture) (fuel : Nat) (words : List Word) (machine : Machine) :
    List String × Machine :=
  words.foldl (fun (done, machine) word =>
    let e := expandPieces capture fuel true false word { machine }
    (done ++ e.fields.flatMap (·.words machine.workspace), e.machine)) ([], machine)

/-- A word as one text. -/
def expandText (capture : Capture) (fuel : Nat) (word : Word) (machine : Machine) :
    String × Machine :=
  let e := expandPieces capture fuel false false word { machine }
  (e.joined.text, e.machine)

/-- A word as a pattern. -/
def expandPattern (capture : Capture) (fuel : Nat) (word : Word) (machine : Machine) :
    Pattern × Machine :=
  let e := expandPieces capture fuel false false word { machine }
  (Pattern.ofMarked e.joined.chars, e.machine)

end EsFront.Shell
