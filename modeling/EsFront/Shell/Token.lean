/-
Tokens of the shell.

A script is cut into words, operators and redirections. A text that breaks off
inside a quotation ends in a token that says so: the script runs up to there.

* `Token` — the tokens;
* `tokens` — cuts a script.
-/
import EsFront.Shell.Word

namespace EsFront.Shell

/-- Operators and line ends. -/
inductive Symbol where
  | newline
  | semicolon
  | caseEnd
  | background
  | andThen
  | orElse
  | pipe
  | opening
  | closing
deriving DecidableEq, Repr, Inhabited

namespace Symbol

/-- How it is written in complaints. -/
def shown : Symbol → String
  | newline => "newline"
  | semicolon => "\";\""
  | caseEnd => "\";;\""
  | background => "\"&\""
  | andThen => "\"&&\""
  | orElse => "\"||\""
  | pipe => "\"|\""
  | opening => "\"(\""
  | closing => "\")\""

end Symbol

/-- What a redirection does with its target. -/
inductive Direction where
  | read
  | write
  | append
  /-- The target is another descriptor. -/
  | copy
  /-- The target is the text to be read. -/
  | here
deriving DecidableEq, Repr, Inhabited

/-- Reasons why a script cannot be read. -/
inductive SyntaxError where
  | unterminatedQuote
  | unterminatedBackquote
  | missingBrace
  | badLoopVariable
  | badDescriptor
  | badFunctionName
  /-- A token that does not belong there, and the one that would. -/
  | unexpected (found : String) (expected : Option String)
deriving DecidableEq, Repr, Inhabited

namespace SyntaxError

/-- The reason in words. -/
def message : SyntaxError → String
  | unterminatedQuote => "Unterminated quoted string"
  | unterminatedBackquote => "EOF in backquote substitution"
  | missingBrace => "Missing '\x7d'"
  | badLoopVariable => "Bad for loop variable"
  | badDescriptor => "Bad fd number"
  | badFunctionName => "Bad function name"
  | unexpected found none => found ++ " unexpected"
  | unexpected found (some expected) => found ++ " unexpected (expecting " ++ expected ++ ")"

end SyntaxError

inductive Token where
  | word (word : Word)
  | symbol (symbol : Symbol)
  /-- A redirection of a descriptor; its target is the next word. -/
  | redirection (descriptor : Nat) (direction : Direction)
  | bad (reason : SyntaxError)
  /-- The end of the script. -/
  | stop
deriving Repr, Inhabited

/-- A token and the line it stands on. -/
structure Lexeme where
  token : Token
  line : Nat
deriving Repr, Inhabited

/-- What is left of a script, or why it cannot be read. -/
abbrev Scan (α : Type) := Except SyntaxError (α × List Char)

namespace Lexer

def isBlank (c : Char) : Bool := c = ' ' || c = '\t'

/-- Whether a character ends a plain word. -/
def endsWord (c : Char) : Bool :=
  isBlank c || c = '\n' || c = ';' || c = '&' || c = '|' || c = '<' || c = '>' || c = '(' ||
    c = ')'

/-- Where a row of pieces stands, which tells where it ends. -/
inductive Place where
  | plain
  | quotes
  /-- Inside the braces of a parameter, which may themselves be quoted. -/
  | braces (quoted : Bool)
  /-- A text with no end of its own. -/
  | document
deriving DecidableEq, Repr

namespace Place

/-- Whether pieces at a place are quoted. -/
def quoted : Place → Bool
  | plain | braces false => false
  | quotes | braces true | document => true

/-- Whether a backslash is kept before a character. -/
def keepsBackslash (place : Place) (next : Char) : Bool :=
  match place with
  | plain | braces false => false
  | quotes | braces true =>
    !(next = '$' || next = '\x60' || next = '\x22' || next = '\\' || next = '\x7d')
      || (next = '\x7d' && place = quotes)
  | document => !(next = '$' || next = '\x60' || next = '\\')

end Place

/-- The text up to the parenthesis that closes the one before it. `quote` is
the quotation mark in force. -/
def enclosed (depth : Nat) (quote : Option Char) (taken : List Char) :
    List Char → Option (List Char × List Char)
  | [] => none
  | '\\' :: c :: rest =>
    if quote = some '\x27' then
      if c = '\x27' then enclosed depth none (c :: '\\' :: taken) rest
      else enclosed depth quote (c :: '\\' :: taken) rest
    else enclosed depth quote (c :: '\\' :: taken) rest
  | c :: rest =>
    match quote with
    | some q => enclosed depth (if c = q then none else quote) (c :: taken) rest
    | none =>
      if c = '\x27' || c = '\x22' then enclosed depth (some c) (c :: taken) rest
      else if c = '(' then enclosed (depth + 1) none (c :: taken) rest
      else if c = ')' then
        match depth with
        | 0 => some (taken.reverse, rest)
        | depth + 1 => enclosed depth none (c :: taken) rest
      else enclosed depth none (c :: taken) rest

/-- The text up to a backquote. -/
def backquoted (quoted : Bool) (taken : List Char) :
    List Char → Option (List Char × List Char)
  | [] => none
  | '\x60' :: rest => some (taken.reverse, rest)
  | '\\' :: c :: rest =>
    if c = '\x60' || c = '\\' || c = '$' || (c = '\x22' && quoted) then
      backquoted quoted (c :: taken) rest
    else backquoted quoted (c :: '\\' :: taken) rest
  | c :: rest => backquoted quoted (c :: taken) rest

/-- The text up to a character. -/
def upTo (mark : Char) (text : List Char) : Option (List Char × List Char) :=
  let front := text.takeWhile (· ≠ mark)
  match text.drop front.length with
  | [] => none
  | _ :: rest => some (front, rest)

/-- The parameter at the front of a text. -/
def parameter? (text : List Char) : Option (Parameter × List Char) :=
  match text with
  | [] => none
  | c :: rest =>
    if isNameStart c then
      some (.named (String.ofList (text.takeWhile isNameChar)), text.dropWhile isNameChar)
    else (Parameter.special? c).map (·, rest)

/-- The parameter at the front of a text in braces: its number may have more
than one digit. -/
def bracedParameter? (text : List Char) : Option (Parameter × List Char) :=
  match text.takeWhile Char.isDigit with
  | [] => parameter? text
  | digits =>
    let n := digits.foldl (fun n c => 10 * n + (c.toNat - '0'.toNat)) 0
    some (.argument n, text.dropWhile Char.isDigit)

/-- The substitute at the front of a text, after the parameter. -/
def substitute? : List Char → Option (Substitute × Bool × List Char)
  | ':' :: '-' :: rest => some (.default, true, rest)
  | ':' :: '=' :: rest => some (.assign, true, rest)
  | ':' :: '+' :: rest => some (.alternative, true, rest)
  | ':' :: '?' :: rest => some (.demand, true, rest)
  | '-' :: rest => some (.default, false, rest)
  | '=' :: rest => some (.assign, false, rest)
  | '+' :: rest => some (.alternative, false, rest)
  | '?' :: rest => some (.demand, false, rest)
  | '%' :: '%' :: rest => some (.trim ⟨true, true⟩, false, rest)
  | '%' :: rest => some (.trim ⟨true, false⟩, false, rest)
  | '#' :: '#' :: rest => some (.trim ⟨false, true⟩, false, rest)
  | '#' :: rest => some (.trim ⟨false, false⟩, false, rest)
  | _ => none

/-- Adds a character in front of pieces. -/
def addChar (quoted : Bool) (c : Char) (pieces : List Piece) : List Piece :=
  match pieces with
  | .text q s :: rest =>
    if q = quoted then .text q (String.ofList (c :: s.toList)) :: rest
    else .text quoted c.toString :: pieces
  | _ => .text quoted c.toString :: pieces

/-- Puts pieces in front of what a scan finds. -/
def before (front : List Piece) (scan : Scan Word) : Scan Word :=
  scan.map fun (pieces, rest) => (front ++ pieces, rest)

/-- Puts a character in front of what a scan finds. -/
def beforeChar (quoted : Bool) (c : Char) (scan : Scan Word) : Scan Word :=
  scan.map fun (pieces, rest) => (addChar quoted c pieces, rest)

mutual

/-- Reads what follows a dollar sign: a piece, or none if the sign stands for
itself. -/
def dollar (fuel : Nat) (quoted : Bool) (text : List Char) : Scan (Option Piece) :=
  match fuel with
  | 0 => .ok (none, text)
  | fuel + 1 =>
    match text with
    | '(' :: '(' :: rest =>
      match enclosed 1 none [] rest with
      | none => .error (.unexpected "end of file" (some "\"))\""))
      | some (inner, rest) =>
        -- the last character is the first of the two that close
        match pieces fuel .document inner.dropLast with
        | .error e => .error e
        | .ok (word, _) => .ok (some (.sum quoted word), rest)
    | '(' :: rest =>
      match enclosed 0 none [] rest with
      | none => .error (.unexpected "end of file" (some "\")\""))
      | some (script, rest) => .ok (some (.output quoted (String.ofList script)), rest)
    | '\x7b' :: '#' :: rest =>
      match bracedParameter? rest with
      | some (parameter, '\x7d' :: rest) =>
        .ok (some (.parameter quoted parameter .length false []), rest)
      | _ => braced fuel quoted ('#' :: rest)
    | '\x7b' :: rest => braced fuel quoted rest
    | _ =>
      match parameter? text with
      | some (parameter, rest) =>
        .ok (some (.parameter quoted parameter .value false []), rest)
      | none => .ok (none, text)

/-- Reads a parameter in braces, after the opening one. -/
def braced (fuel : Nat) (quoted : Bool) (text : List Char) : Scan (Option Piece) :=
  match fuel with
  | 0 => .ok (none, text)
  | fuel + 1 =>
    match bracedParameter? text with
    | some (parameter, '\x7d' :: rest) =>
      .ok (some (.parameter quoted parameter .value false []), rest)
    | some (parameter, rest) =>
      match substitute? rest with
      | some (substitute, orEmpty, rest) =>
        match pieces fuel (.braces quoted) rest with
        | .error e => .error e
        | .ok (word, rest) =>
          .ok (some (.parameter quoted parameter substitute orEmpty word), rest)
      | none => skipBraced fuel quoted rest
    | none => skipBraced fuel quoted text

/-- Passes over a parameter in braces that cannot be read. -/
def skipBraced (fuel : Nat) (quoted : Bool) (text : List Char) : Scan (Option Piece) :=
  match fuel with
  | 0 => .ok (none, text)
  | fuel + 1 =>
    match pieces fuel (.braces quoted) text with
    | .error e => .error e
    | .ok (_, rest) => .ok (some .bad, rest)

/-- Reads pieces up to their end. -/
def pieces (fuel : Nat) (place : Place) (text : List Char) : Scan Word :=
  match fuel with
  | 0 => .ok ([], text)
  | fuel + 1 =>
    match text with
    | [] =>
      match place with
      | .plain | .document => .ok ([], [])
      | .quotes => .error .unterminatedQuote
      | .braces _ => .error .missingBrace
    | '\\' :: '\n' :: rest => pieces fuel place rest
    | '\\' :: c :: rest =>
      if place.keepsBackslash c then
        beforeChar true '\\' (beforeChar true c (pieces fuel place rest))
      else beforeChar true c (pieces fuel place rest)
    | '$' :: rest =>
      match dollar fuel place.quoted rest with
      | .error e => .error e
      | .ok (none, rest) => beforeChar place.quoted '$' (pieces fuel place rest)
      | .ok (some piece, rest) => before [piece] (pieces fuel place rest)
    | '\x60' :: rest =>
      match backquoted place.quoted [] rest with
      | none => .error .unterminatedBackquote
      | some (script, rest) =>
        before [.output place.quoted (String.ofList script)] (pieces fuel place rest)
    | c :: rest =>
      if place = .plain && endsWord c then .ok ([], text)
      else if place = .quotes && c = '\x22' then .ok ([], rest)
      else if (place = .braces false || place = .braces true) && c = '\x7d' then .ok ([], rest)
      else if (place = .plain || place = .braces false) && c = '\x27' then
        match upTo '\x27' rest with
        | none => .error .unterminatedQuote
        | some (inner, rest) =>
          before [.text true (String.ofList inner)] (pieces fuel place rest)
      else if place ≠ .quotes && place ≠ .document && c = '\x22' then
        match pieces fuel .quotes rest with
        | .error e => .error e
        | .ok (inner, rest) =>
          before (if inner.isEmpty then [.text true ""] else inner) (pieces fuel place rest)
      else beforeChar place.quoted c (pieces fuel place rest)

end

/-- Reads a word. -/
def word (text : List Char) : Scan Word := pieces (2 * text.length + 2) .plain text

/-- The operator at the front of a text, and how many characters it has. -/
def symbol? : List Char → Option (Symbol × Nat)
  | ';' :: ';' :: _ => some (.caseEnd, 2)
  | ';' :: _ => some (.semicolon, 1)
  | '&' :: '&' :: _ => some (.andThen, 2)
  | '&' :: _ => some (.background, 1)
  | '|' :: '|' :: _ => some (.orElse, 2)
  | '|' :: _ => some (.pipe, 1)
  | '(' :: _ => some (.opening, 1)
  | ')' :: _ => some (.closing, 1)
  | _ => none

/-- The redirection at the front of a text, and how many characters it has. -/
def direction? : List Char → Option (Direction × Nat)
  | '<' :: '<' :: '-' :: _ => some (.here, 3)
  | '<' :: '<' :: _ => some (.here, 2)
  | '<' :: '&' :: _ => some (.copy, 2)
  | '<' :: '>' :: _ => some (.append, 2)
  | '<' :: _ => some (.read, 1)
  | '>' :: '>' :: _ => some (.append, 2)
  | '>' :: '&' :: _ => some (.copy, 2)
  | '>' :: '|' :: _ => some (.write, 2)
  | '>' :: _ => some (.write, 1)
  | _ => none

/-- The descriptor that a redirection speaks of when it names none. -/
def defaultDescriptor (text : List Char) : Nat := if text.head? = some '<' then 0 else 1

/-- The lines of a document up to the one that ends it, and how many characters
they take. -/
def document (mark : String) (tabs : Bool) : Nat → List Char → List Char × Nat
  | 0, _ => ([], 0)
  | fuel + 1, text =>
    if text.isEmpty then ([], 0)
    else
      let line := text.takeWhile (· ≠ '\n')
      let size := line.length + 1
      let shown := if tabs then line.dropWhile (· = '\t') else line
      if String.ofList shown = mark then ([], size)
      else
        let (rest, used) := document mark tabs fuel (text.drop size)
        (shown ++ '\n' :: rest, size + used)

/-- A script that is being cut, its tokens in reverse order. -/
structure State where
  text : List Char
  line : Nat := 1
  lexemes : List Lexeme := []
  /-- How many characters after the next line end belong to documents. -/
  documents : Nat := 0

namespace State

def lines (text : List Char) : Nat := text.countP (· = '\n')

def push (state : State) (token : Token) : State :=
  { state with lexemes := ⟨token, state.line⟩ :: state.lexemes }

/-- Moves on to a rest of the text. -/
def moveTo (state : State) (rest : List Char) : State :=
  let used := state.text.take (state.text.length - rest.length)
  { state with text := rest, line := state.line + lines used }

/-- Ends with a complaint: the whole text was searched in vain. -/
def stop (state : State) (reason : SyntaxError) : State :=
  let line := state.line + lines state.text
  { state with text := [], line, lexemes := ⟨.bad reason, line⟩ :: state.lexemes }

/-- Reads the document that a redirection asks for. -/
def readDocument (state : State) (descriptor : Nat) (tabs : Bool) : State :=
  let state := state.moveTo (state.text.dropWhile isBlank)
  match word state.text with
  | .error reason => state.stop reason
  | .ok (mark, rest) =>
    let after := (rest.dropWhile (· ≠ '\n')).drop (1 + state.documents)
    let (body, used) := document mark.literalText tabs after.length after
    let body := if mark.isQuoted then .ok ([.text true (String.ofList body)], [])
      else pieces (2 * body.length + 2) .document body
    match body with
    | .error reason => state.stop reason
    | .ok (body, _) =>
      let read := (state.push (.redirection descriptor .here)).push (.word body)
      { read.moveTo rest with documents := state.documents + used }

/-- Reads one token, or blanks. -/
def step (state : State) : State :=
  match state.text with
  | [] => state
  | '\\' :: '\n' :: rest => state.moveTo rest
  | '\n' :: rest =>
    let next := (state.push (.symbol .newline)).moveTo (rest.drop state.documents)
    { next with documents := 0 }
  | '#' :: rest => state.moveTo (rest.dropWhile (· ≠ '\n'))
  | c :: rest =>
    if isBlank c then state.moveTo rest
    else
      match symbol? state.text with
      | some (symbol, size) => (state.push (.symbol symbol)).moveTo (state.text.drop size)
      | none =>
        let digits := state.text.takeWhile Char.isDigit
        let text := state.text.drop digits.length
        let direction := if digits.length ≤ 1 then direction? text else none
        match direction with
        | some (direction, size) =>
          let descriptor := match digits with
            | d :: _ => d.toNat - '0'.toNat
            | [] => defaultDescriptor text
          let moved := state.moveTo (text.drop size)
          if direction = .here then moved.readDocument descriptor (size = 3)
          else moved.push (.redirection descriptor direction)
        | none =>
          match word state.text with
          | .error reason => state.stop reason
          | .ok (w, rest) =>
            if rest.length < state.text.length then (state.push (.word w)).moveTo rest
            else state.moveTo rest.tail

end State

/-- Reads tokens until the text ends. -/
def run : Nat → State → State
  | 0, state => state
  | fuel + 1, state => if state.text.isEmpty then state else run fuel state.step

end Lexer

/-- The tokens of a script that starts on the given line. -/
def tokensFrom (line : Nat) (script : String) : List Lexeme :=
  let text := script.toList
  ((Lexer.run (text.length + 1) { text, line }).push .stop).lexemes.reverse

/-- The tokens of a script. -/
def tokens (script : String) : List Lexeme := tokensFrom 1 script

end EsFront.Shell
