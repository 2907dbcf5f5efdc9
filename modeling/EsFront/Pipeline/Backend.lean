/-
Where the ESTree of a file comes from.

A file holds ESTree as JSON already, or a parser command is run with the path
of the file appended, and the ESTree is read from its output. What a command
does is up to the `Launcher` that runs it; it may change files.

* `Backend` — any source of ESTree;
* `Backend.json`, `Backend.external` — the two there are.
-/
import EsFront.Estree.Error
import EsFront.Json.Read
import EsFront.Text.Blank
import EsFront.Workspace.Process

namespace EsFront

/-- Reasons why a file cannot be processed. Other files go on. -/
inductive PipelineError where
  | read (path : String) (reason : SystemError)
  /-- The parser command could not be started. -/
  | spawn (command : String) (reason : SystemError)
  | commandFailed (command : String) (status : ExitStatus) (errors : String)
  | invalidJson (path : String)
  /-- The value is no program. -/
  | rejected (path : String) (reason : ImportError)
  | write (path : String) (reason : SystemError)
deriving DecidableEq, Repr, Inhabited

namespace PipelineError

/-- The reason in words. -/
def message : PipelineError → String
  | read path reason => "cannot read " ++ path ++ ": " ++ reason.message
  | spawn command reason => "cannot run `" ++ command ++ "`: " ++ reason.message
  | commandFailed command status errors =>
    "`" ++ command ++ "` failed with " ++ status.text ++ ": " ++ errors
  | invalidJson path => path ++ " is not ESTree JSON: malformed text"
  | rejected path reason => path ++ ": " ++ reason.message
  | write path reason => "cannot write " ++ path ++ ": " ++ reason.message

end PipelineError

/-- A program and its arguments. -/
structure ParserCommand where
  program : String
  args : List String
deriving DecidableEq, Repr, Inhabited

namespace ParserCommand

/-- The command that a list of words gives. -/
def ofWords? : List String → Option ParserCommand
  | [] => none
  | program :: args => some ⟨program, args⟩

/-- The parser that comes with the tool. -/
def esprima : ParserCommand := ⟨"node", ["tools/esprima-dump.js"]⟩

/-- The words with a blank between any two. -/
def text (command : ParserCommand) : String :=
  " ".intercalate (command.program :: command.args)

end ParserCommand

/-- Reads a JSON text of a file. -/
def readJson (path text : String) : Except PipelineError Json :=
  match Json.parse text with
  | some value => .ok value
  | none => .error (.invalidJson path)

/-- What a run of the command on a file gives. -/
def ParserCommand.outcome (c : ParserCommand) (path : String) :
    Except SystemError Finished → Except PipelineError Json
  | .error reason => .error (.spawn c.text reason)
  | .ok done =>
    if !done.status.isSuccess then
      .error (.commandFailed c.text done.status (trimBlanks done.errors.lossyText))
    else
      match done.output with
      | .text text => readJson path text
      | .binary _ => .error (.invalidJson path)

/-- A source of ESTree. -/
structure Backend where
  /-- What it is called in reports. -/
  name : String
  /-- The ESTree of the file with the given path and text, and the workspace
  after that. -/
  parse (workspace : Workspace) (path text : String) : Except PipelineError Json × Workspace

namespace Backend

/-- The file itself. -/
def json : Backend where
  name := "estree-json"
  parse workspace path text := (readJson path text, workspace)

/-- A parser command. The text that was read from the file is not used: the
command opens the file itself. -/
def external (launch : Launcher) (c : ParserCommand) : Backend where
  name := c.program
  parse workspace path _ :=
    let run := launch workspace c.program (c.args ++ [path])
    let left := match run with
      | .error _ => workspace
      | .ok done => done.workspace
    (c.outcome path run, left)

/-- The source for an optional command; no words are as good as no command. -/
def select (launch : Launcher) (words : Option (List String)) : Backend :=
  match words.bind ParserCommand.ofWords? with
  | some c => external launch c
  | none => json

end Backend

end EsFront
