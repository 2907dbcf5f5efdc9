/-
Commands of the shell.

A script is a row of complete commands, each up to the end of a line. They are
read one by one, so that those before a mistake are run.

* `Command` — what a script asks for;
* `complete` — reads one complete command.
-/
import EsFront.Shell.Token

namespace EsFront.Shell

structure Redirection where
  descriptor : Nat
  direction : Direction
  target : Word
deriving Repr, Inhabited

inductive Command where
  | nothing
  | simple (line : Nat) (assignments : List (String × Word)) (words : List Word)
      (redirections : List Redirection)
  | redirected (command : Command) (redirections : List Redirection)
  | sequence (first second : Command)
  | background (command : Command)
  /-- The second only if the first succeeds. -/
  | both (first second : Command)
  /-- The second only if the first fails. -/
  | either (first second : Command)
  | negated (command : Command)
  /-- The second reads what the first prints. -/
  | pipe (first second : Command)
  | conditional (test yes no : Command)
  /-- Runs the body as long as the test succeeds, or until it does. -/
  | loop (untilTrue : Bool) (test body : Command)
  /-- Runs the body for each word, or for each argument. -/
  | forEach (name : String) (words : Option (List Word)) (body : Command)
  /-- Runs the first branch with a pattern that fits. -/
  | choice (subject : Word) (branches : List (List Word × Command))
  /-- Runs apart: only files and streams are changed. -/
  | subshell (command : Command)
  | define (name : String) (body : Command)
deriving Repr, Inhabited

/-- Why a script cannot be read, and on which line. -/
structure SyntaxFailure where
  reason : SyntaxError
  line : Nat
deriving DecidableEq, Repr, Inhabited

/-- The words with a meaning of their own. -/
def keywords : List String :=
  ["!", "case", "do", "done", "elif", "else", "esac", "fi", "for", "if", "in", "then", "until",
    "while", "\x7b", "\x7d"]

/-- The keywords that end a list of commands. -/
def endingKeywords : List String := ["do", "done", "elif", "else", "esac", "fi", "then", "\x7d"]

abbrev Lexemes := List Lexeme

namespace Lexemes

/-- The keyword at the front. -/
def keyword? (input : Lexemes) : Option String :=
  match input with
  | ⟨.word w, _⟩ :: _ => w.plainText?.filter keywords.contains
  | _ => none

def startsWith (input : Lexemes) (symbol : Symbol) : Bool :=
  match input with
  | ⟨.symbol s, _⟩ :: _ => s = symbol
  | _ => false

/-- The tokens after line ends. -/
def afterLines (input : Lexemes) : Lexemes :=
  input.dropWhile fun lexeme =>
    match lexeme.token with
    | .symbol .newline => true
    | _ => false

/-- Whether the token at the front ends a list of commands. -/
def endsList (input : Lexemes) : Bool :=
  match input with
  | ⟨.symbol .closing, _⟩ :: _ | ⟨.symbol .caseEnd, _⟩ :: _ | ⟨.stop, _⟩ :: _ | [] => true
  | _ => input.keyword?.any endingKeywords.contains

/-- The complaint that the token at the front does not belong there. -/
def unexpected (input : Lexemes) (expected : Option String) : SyntaxFailure :=
  let found : String × Nat := match input with
    | [] => ("end of file", 1)
    | ⟨.stop, line⟩ :: _ | ⟨.bad _, line⟩ :: _ => ("end of file", line)
    | ⟨.symbol .newline, line⟩ :: _ => ("newline", line + 1)
    | ⟨.symbol s, line⟩ :: _ => (s.shown, line)
    | ⟨.redirection .., line⟩ :: _ => ("redirection", line)
    | ⟨.word _, line⟩ :: _ =>
      match input.keyword? with
      | some keyword => ("\"" ++ keyword ++ "\"", line)
      | none => ("word", line)
  match input with
  | ⟨.bad reason, line⟩ :: _ => ⟨reason, line⟩
  | _ => ⟨.unexpected found.1 expected, found.2⟩

/-- Takes a keyword. -/
def expectKeyword (input : Lexemes) (keyword : String) : Except SyntaxFailure Lexemes :=
  if input.keyword? = some keyword then .ok input.tail
  else .error (input.unexpected (some ("\"" ++ keyword ++ "\"")))

/-- Takes an operator. -/
def expectSymbol (input : Lexemes) (symbol : Symbol) : Except SyntaxFailure Lexemes :=
  if input.startsWith symbol then .ok input.tail
  else .error (input.unexpected (some symbol.shown))

/-- Takes a word. -/
def expectWord (input : Lexemes) (expected : Option String) :
    Except SyntaxFailure (Word × Lexemes) :=
  match input with
  | ⟨.word w, _⟩ :: rest => .ok (w, rest)
  | _ => .error (input.unexpected expected)

end Lexemes

/-- What is read from tokens. -/
abbrev Reading := Except SyntaxFailure

namespace Parser

/-- The name and value of a word that assigns to a variable. -/
def assignment? (word : Word) : Option (String × Word) :=
  match word with
  | .text false s :: rest =>
    match s.splitOn "=" with
    | name :: value :: more =>
      let value := "=".intercalate (value :: more)
      if isName name then
        some (name, if value.isEmpty then rest else .text false value :: rest)
      else none
    | _ => none
  | _ => none

/-- Whether the target of a copied descriptor can be one. -/
def isDescriptor (target : Word) : Bool :=
  match target with
  | [.text _ s] => s = "-" || (s.length = 1 && s.toList.all Char.isDigit)
  | _ => true

/-- Reads the target of a redirection. -/
def target (descriptor : Nat) (direction : Direction) (line : Nat) (input : Lexemes) :
    Reading (Redirection × Lexemes) := do
  let (word, rest) ← input.expectWord none
  if direction = .copy && !isDescriptor word then .error ⟨.badDescriptor, line⟩
  else .ok (⟨descriptor, direction, word⟩, rest)

/-- Reads redirections. -/
def redirections : Nat → Lexemes → Reading (List Redirection × Lexemes)
  | 0, input => .ok ([], input)
  | fuel + 1, input =>
    match input with
    | ⟨.redirection descriptor direction, line⟩ :: rest => do
      let (first, rest) ← target descriptor direction line rest
      let (more, rest) ← redirections fuel rest
      .ok (first :: more, rest)
    | _ => .ok ([], input)

/-- Reads the rest of a simple command. -/
def simpleRest : Nat → Lexemes → List (String × Word) → List Word → List Redirection →
    Reading ((List (String × Word) × List Word × List Redirection) × Lexemes)
  | 0, input, assignments, words, redirections =>
    .ok ((assignments.reverse, words.reverse, redirections.reverse), input)
  | fuel + 1, input, assignments, words, redirections =>
    match input with
    | ⟨.word w, _⟩ :: rest =>
      match if words.isEmpty then assignment? w else none with
      | some assignment => simpleRest fuel rest (assignment :: assignments) words redirections
      | none => simpleRest fuel rest assignments (w :: words) redirections
    | ⟨.redirection descriptor direction, line⟩ :: rest => do
      let (redirection, rest) ← target descriptor direction line rest
      simpleRest fuel rest assignments words (redirection :: redirections)
    | _ => .ok ((assignments.reverse, words.reverse, redirections.reverse), input)

/-- The words of a loop, up to the end of the line. -/
def loopWords : Lexemes → Reading (List Word × Lexemes)
  | ⟨.word w, _⟩ :: rest => do
    let (more, rest) ← loopWords rest
    .ok (w :: more, rest)
  | input =>
    if input.startsWith .newline || input.startsWith .semicolon then .ok ([], input.tail)
    else .error (input.unexpected none)

/-- The patterns of a branch, up to the parenthesis. -/
def patterns : Nat → Lexemes → Reading (List Word × Lexemes)
  | 0, input => .ok ([], input)
  | fuel + 1, input => do
    let (pattern, rest) ← input.expectWord (some Symbol.closing.shown)
    if rest.startsWith .pipe then
      let (more, rest) ← patterns fuel rest.tail
      .ok (pattern :: more, rest)
    else
      let rest ← rest.expectSymbol .closing
      .ok ([pattern], rest)

/-- One command after another. -/
def join (first second : Command) : Command :=
  match first with
  | .nothing => second
  | _ => .sequence first second

mutual

/-- Reads a list of commands up to a token that ends it; at the top that is the
end of a line. `started` tells whether it has a command yet. -/
def list (fuel : Nat) (top started : Bool) (sofar : Command) (input : Lexemes) :
    Reading (Command × Lexemes) :=
  match fuel with
  | 0 => .ok (sofar, input)
  | fuel + 1 =>
    let input := if top then input else input.afterLines
    match input with
    | [] | ⟨.stop, _⟩ :: _ => .ok (sofar, input)
    | ⟨.symbol .newline, _⟩ :: rest => .ok (sofar, rest)
    | _ =>
      if started && !top && input.endsList then .ok (sofar, input)
      else do
        let (next, rest) ← andOr fuel input
        if rest.startsWith .background then
          list fuel top true (join sofar (.background next)) rest.tail
        else if rest.startsWith .semicolon then list fuel top true (join sofar next) rest.tail
        else if rest.startsWith .newline then list fuel top true (join sofar next) rest
        else
          match rest with
          | [] | ⟨.stop, _⟩ :: _ => .ok (join sofar next, rest)
          | _ => if top then .error (rest.unexpected none) else .ok (join sofar next, rest)

/-- Reads commands that depend on each other's success. -/
def andOr (fuel : Nat) (input : Lexemes) : Reading (Command × Lexemes) :=
  match fuel with
  | 0 => .ok (.nothing, input)
  | fuel + 1 => do
    let (first, rest) ← pipeline fuel input
    andOrRest fuel first rest

/-- Reads what depends on a command that was read. -/
def andOrRest (fuel : Nat) (first : Command) (input : Lexemes) : Reading (Command × Lexemes) :=
  match fuel with
  | 0 => .ok (first, input)
  | fuel + 1 =>
    if input.startsWith .andThen then do
      let (second, rest) ← pipeline fuel (Lexemes.afterLines input.tail)
      andOrRest fuel (.both first second) rest
    else if input.startsWith .orElse then do
      let (second, rest) ← pipeline fuel (Lexemes.afterLines input.tail)
      andOrRest fuel (.either first second) rest
    else .ok (first, input)

/-- Reads commands that are joined by pipes. -/
def pipeline (fuel : Nat) (input : Lexemes) : Reading (Command × Lexemes) :=
  match fuel with
  | 0 => .ok (.nothing, input)
  | fuel + 1 =>
    if input.keyword? = some "!" then do
      let (whole, rest) ← piped fuel input.tail
      .ok (.negated whole, rest)
    else piped fuel input

/-- Reads a command and those that it is piped to. -/
def piped (fuel : Nat) (input : Lexemes) : Reading (Command × Lexemes) :=
  match fuel with
  | 0 => .ok (.nothing, input)
  | fuel + 1 => do
    let (first, rest) ← command fuel input
    if rest.startsWith .pipe then
      let (second, rest) ← piped fuel (Lexemes.afterLines rest.tail)
      .ok (.pipe first second, rest)
    else .ok (first, rest)

/-- Reads one command. -/
def command (fuel : Nat) (input : Lexemes) : Reading (Command × Lexemes) :=
  match fuel with
  | 0 => .ok (.nothing, input)
  | fuel + 1 =>
    match input.keyword? with
    | some keyword => do
      let (whole, rest) ← compound fuel keyword input
      withRedirections fuel whole rest
    | none =>
      match input with
      | ⟨.word _, line⟩ :: _ | ⟨.redirection .., line⟩ :: _ => do
        let ((assignments, words, redirections), rest) ← simpleRest fuel input [] [] []
        match words with
        | [name] =>
          if rest.startsWith .opening && assignments.isEmpty && redirections.isEmpty then
            definition fuel name line rest.tail
          else .ok (.simple line assignments words redirections, rest)
        | _ => .ok (.simple line assignments words redirections, rest)
      | ⟨.symbol .opening, _⟩ :: rest => do
        let (inner, rest) ← list fuel false false .nothing rest
        let rest ← rest.expectSymbol .closing
        withRedirections fuel (.subshell inner) rest
      | _ => .error (input.unexpected none)

/-- Reads the redirections of a command that was read. -/
def withRedirections (fuel : Nat) (whole : Command) (input : Lexemes) :
    Reading (Command × Lexemes) :=
  match fuel with
  | 0 => .ok (whole, input)
  | fuel + 1 => do
    let (found, rest) ← redirections fuel input
    .ok (if found.isEmpty then whole else .redirected whole found, rest)

/-- Reads the definition of a function, after the opening parenthesis. -/
def definition (fuel : Nat) (name : Word) (line : Nat) (input : Lexemes) :
    Reading (Command × Lexemes) :=
  match fuel with
  | 0 => .ok (.nothing, input)
  | fuel + 1 => do
    let rest ← input.expectSymbol .closing
    match name.plainText?.filter isName with
    | none => .error ⟨.badFunctionName, line⟩
    | some name =>
      let (body, rest) ← command fuel rest.afterLines
      .ok (.define name body, rest)

/-- Reads a command that a keyword starts. -/
def compound (fuel : Nat) (keyword : String) (input : Lexemes) : Reading (Command × Lexemes) :=
  match fuel with
  | 0 => .ok (.nothing, input)
  | fuel + 1 =>
    let after := input.tail
    match keyword with
    | "if" => conditional fuel after
    | "while" | "until" => do
      let (test, rest) ← list fuel false false .nothing after
      let (body, rest) ← loopBody fuel rest
      .ok (.loop (keyword = "until") test body, rest)
    | "for" =>
      match after with
      | ⟨.word w, line⟩ :: rest =>
        match w.plainText?.filter isName with
        | none => .error ⟨.badLoopVariable, line⟩
        | some name => do
          let rest := Lexemes.afterLines rest
          let (words, rest) ←
            if rest.keyword? = some "in" then
              (loopWords rest.tail).map fun (words, rest) => (some words, rest)
            else .ok (none, if rest.startsWith .semicolon then rest.tail else rest)
          let (body, rest) ← loopBody fuel (Lexemes.afterLines rest)
          .ok (.forEach name words body, rest)
      | _ => .error ⟨.badLoopVariable, (Lexemes.unexpected after none).line⟩
    | "case" => do
      let (subject, rest) ← Lexemes.expectWord after (some "word")
      let rest ← rest.afterLines.expectKeyword "in"
      let (branches, rest) ← branches fuel rest
      .ok (.choice subject branches, rest)
    | "\x7b" => do
      let (inner, rest) ← list fuel false false .nothing after
      let rest ← rest.expectKeyword "\x7d"
      .ok (inner, rest)
    | _ => .error (input.unexpected none)

/-- Reads the body of a loop. -/
def loopBody (fuel : Nat) (input : Lexemes) : Reading (Command × Lexemes) :=
  match fuel with
  | 0 => .ok (.nothing, input)
  | fuel + 1 => do
    let rest ← input.expectKeyword "do"
    let (body, rest) ← list fuel false false .nothing rest
    let rest ← rest.expectKeyword "done"
    .ok (body, rest)

/-- Reads a conditional command, after its first keyword. -/
def conditional (fuel : Nat) (input : Lexemes) : Reading (Command × Lexemes) :=
  match fuel with
  | 0 => .ok (.nothing, input)
  | fuel + 1 => do
    let (test, rest) ← list fuel false false .nothing input
    let rest ← rest.expectKeyword "then"
    let (yes, rest) ← list fuel false false .nothing rest
    match rest.keyword? with
    | some "elif" =>
      let (no, rest) ← conditional fuel rest.tail
      .ok (.conditional test yes no, rest)
    | some "else" =>
      let (no, rest) ← list fuel false false .nothing rest.tail
      let rest ← rest.expectKeyword "fi"
      .ok (.conditional test yes no, rest)
    | _ =>
      let rest ← rest.expectKeyword "fi"
      .ok (.conditional test yes .nothing, rest)

/-- Reads the branches of a choice, up to its end. -/
def branches (fuel : Nat) (input : Lexemes) : Reading (List (List Word × Command) × Lexemes) :=
  match fuel with
  | 0 => .ok ([], input)
  | fuel + 1 =>
    let input := input.afterLines
    if input.keyword? = some "esac" then .ok ([], input.tail)
    else do
      let rest := if input.startsWith .opening then input.tail else input
      let (found, rest) ← patterns fuel rest
      let (body, rest) ← list fuel false true .nothing rest
      let rest := rest.afterLines
      if rest.keyword? = some "esac" then .ok ([(found, body)], rest.tail)
      else
        let rest ← rest.expectSymbol .caseEnd
        let (more, rest) ← branches fuel rest
        .ok ((found, body) :: more, rest)

end

end Parser

/-- Reads the next complete command, if there is one. -/
def complete (input : Lexemes) : Reading (Option Command × Lexemes) :=
  let input := input.afterLines
  match input with
  | [] | ⟨.stop, _⟩ :: _ => .ok (none, [])
  | _ =>
    (Parser.list (12 * input.length + 12) true false .nothing input).map fun (command, rest) =>
      (some command, rest)

end EsFront.Shell
