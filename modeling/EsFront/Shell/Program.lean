/-
Programs.

The programs that are installed: the small tools, the shell itself, and
programs that run others. Files of a workspace cannot be run.

* `Program.find` — the program of a name, or why there is none.
-/
import EsFront.Shell.Tool.Copy
import EsFront.Shell.Tool.Describe
import EsFront.Shell.Tool.Print
import EsFront.Shell.Tool.Test

namespace EsFront.Shell

open Tool (Call Dialect)

/-- Programs that can be run. -/
inductive Program where
  | tool (run : Call → Tool.Outcome)
  | shell (dialect : Dialect)
  /-- Runs another program with changed variables. -/
  | env
  /-- Runs another program under some condition. -/
  | wrapper (name : String)

namespace Program

/-- The programs that are installed. -/
def installed : List (String × Program) :=
  [("[", .tool (Tool.test .program true)), ("basename", .tool Tool.basename),
    ("bash", .shell .largeShell),
    ("cat", .tool Tool.cat), ("dash", .shell .shell), ("dirname", .tool Tool.dirname),
    ("echo", .tool (Tool.echo .program)), ("env", .env),
    ("false", .tool fun call => { Tool.Outcome.start call with status := 1 }),
    ("head", .tool Tool.head), ("ls", .tool Tool.ls), ("nice", .wrapper "nice"),
    ("nohup", .wrapper "nohup"), ("printf", .tool (Tool.printf .program)),
    ("sh", .shell .shell), ("sleep", .tool Tool.sleep),
    ("sort", .tool Tool.sort), ("tac", .tool Tool.tac), ("tail", .tool Tool.tail),
    ("tee", .tool Tool.tee), ("test", .tool (Tool.test .program false)),
    ("timeout", .wrapper "timeout"), ("true", .tool Tool.Outcome.start), ("wc", .tool Tool.wc)]

/-- The program that is installed under a name. -/
def installed? (name : String) : Option Program :=
  (installed.find? (·.1 = name)).map (·.2)

/-- The name of a program in a directory of programs. -/
def nameIn? (path : String) : Option String :=
  if path.toList.head? = some '/' then
    let names := (path.splitOn "/").foldl (fun (names : Path) name =>
      if name = "" || name = "." then names
      else if name = ".." then names.dropLast
      else names ++ [name]) []
    match names with
    | ["bin", name] | ["usr", "bin", name] => some name
    | _ => none
  else none

/-- The program of a name: names without a slash are looked up among those that
are installed, and no file of the workspace can be run. -/
def find (workspace : Workspace) (name : String) : Except SystemError Program :=
  if name.toList.contains '/' then
    match (nameIn? name).bind installed? with
    | some program => if name.endsWith "/" then .error .notADirectory else .ok program
    | none =>
      match workspace.find name with
      | .ok (.file ..) | .ok (.directory _) | .ok (.device _) => .error .permissionDenied
      | .ok (.free _) | .ok .missingDirectory => .error .notFound
      | .error e => .error e
  else if name = "." || name = ".." then .error .permissionDenied
  else if name.utf8ByteSize > Workspace.nameLimit then .error .nameTooLong
  else
    match installed? name with
    | some program => .ok program
    | none => .error .notFound

end Program

end EsFront.Shell
