/-
Compiling a file.

A file is read, imported, resolved and written again. A failure is reported
like every other diagnostic.

* `compileEstree` — a file whose ESTree is at hand;
* `compileFile` — a file of a workspace by itself;
* `CompilationResult` — output, diagnostics and exit code of several files.
-/
import EsFront.Config.Basic
import EsFront.Estree.Export
import EsFront.Estree.Import
import EsFront.Json.Print
import EsFront.Pipeline.Backend
import EsFront.Print.Program
import EsFront.Scope.Resolution

namespace EsFront

/-- What is done with a program and how it is written. -/
structure CompileOptions where
  resolve : Bool := true
  resolver : ResolveOptions := {}
  printer : PrintOptions := {}
  /-- Write ESTree instead of a program text. -/
  emitEstree : Bool := false
  warningsAsErrors : Bool := false
deriving DecidableEq, Repr, Inhabited

/-- The options of a configuration. -/
def CompileOptions.ofConfig (config : Config) : CompileOptions where
  resolve := config.resolveNames
  resolver := ⟨true, config.globalNames⟩
  printer := config.printOptions
  emitEstree := config.writeEstree
  warningsAsErrors := config.failOnWarnings

/-- What a file is compiled to. -/
structure FileOutput where
  text : String
  estree : Option Json
  /-- The number of declarations that the program makes. -/
  declarations : Nat
  diagnostics : Diagnostics
deriving Repr, Inhabited

/-- A file and what became of it. -/
structure FileResult where
  file : String
  outcome : Except PipelineError FileOutput
deriving Inhabited

/-- The diagnostic of a failure. -/
def PipelineError.diagnostic (e : PipelineError) (file : String) : Diagnostic :=
  let d : Diagnostic := match e with
    | .read _ reason | .write _ reason => .new .cannotReadFile [file, reason.message]
    | .spawn .. | .commandFailed .. | .invalidJson _ => .new .parserFailed [e.message]
    | .rejected _ reason =>
      let loc := match reason with
        | .unhandledNodeKind _ loc => loc
        | _ => none
      .located loc .importFailed [reason.message]
  d.inFile file

namespace FileResult

def isOk (result : FileResult) : Bool :=
  match result.outcome with
  | .ok _ => true
  | .error _ => false

/-- What a file was compiled to, if it was. -/
def output? (result : FileResult) : Option FileOutput :=
  match result.outcome with
  | .ok output => some output
  | .error _ => none

/-- What is reported of a file, its failure included. -/
def diagnostics (result : FileResult) : Diagnostics :=
  match result.outcome with
  | .ok output => output.diagnostics
  | .error e => [e.diagnostic result.file]

end FileResult

/-- Writes a program. -/
def emit (options : CompileOptions) (program : Program) (declarations : Nat)
    (diagnostics : Diagnostics) : FileOutput :=
  if options.emitEstree then
    let estree := program.toEstree
    ⟨estree.pretty, some estree, declarations, diagnostics⟩
  else ⟨program.print options.printer, none, declarations, diagnostics⟩

/-- The events of the walk of a program, if its names are resolved. -/
def CompileOptions.events (options : CompileOptions) (program : Program) : List ScopeEvent :=
  if options.resolve then program.scopeEvents options.resolver.names else []

/-- Writes the program of a file, given what its walk found out. -/
def emitFile (options : CompileOptions) (path : String) (program : Program) (found : Resolution) :
    FileOutput :=
  if options.resolve then
    emit options (program.mark found.unify) found.programDeclarations.length
      (found.diagnostics.map (·.inFile path))
  else emit options program 0 []

/-- The program of the ESTree of a file. -/
def importEstree (path : String) (estree : Json) : Except PipelineError Program :=
  match importProgram estree (some path) with
  | .error reason => .error (.rejected path reason)
  | .ok program => .ok program

/-- Reads a file of a workspace. -/
def readSource (workspace : Workspace) (path : String) : Except PipelineError String :=
  match workspace.readText path with
  | .error reason => .error (.read path reason)
  | .ok text => .ok text

/-- The program of a file that was read, and the workspace after it was parsed. -/
def importSource (workspace : Workspace) (backend : Backend) (path text : String) :
    Except PipelineError Program × Workspace :=
  let (estree, left) := backend.parse workspace path text
  (estree.bind (importEstree path), left)

/-- The program of a file of a workspace. -/
def importFile (workspace : Workspace) (backend : Backend) (path : String) :
    Except PipelineError Program :=
  (readSource workspace path).bind fun text => (importSource workspace backend path text).1

/-- Compiles a program by itself. -/
def compileProgram (options : CompileOptions) (path : String) (program : Program) : FileOutput :=
  emitFile options path program (Live.start.run (options.events program)).resolution

/-- Compiles the ESTree of a file. -/
def compileEstree (options : CompileOptions) (path : String) (estree : Json) :
    Except PipelineError FileOutput :=
  (importEstree path estree).map (compileProgram options path)

/-- Compiles a file of a workspace. -/
def compileFile (workspace : Workspace) (backend : Backend) (options : CompileOptions)
    (path : String) : Except PipelineError FileOutput :=
  (importFile workspace backend path).map (compileProgram options path)

/-- All files of a run, in order. -/
structure CompilationResult where
  files : List FileResult
  emitEstree : Bool
deriving Inhabited

namespace CompilationResult

/-- All diagnostics, by file and position. -/
def diagnostics (result : CompilationResult) : Diagnostics :=
  Diagnostics.sorted (result.files.flatMap (·.diagnostics))

def failedFiles (result : CompilationResult) : List FileResult :=
  result.files.filter (!·.isOk)

/-- The outputs of the files that succeeded: their texts one after the other,
or one array of their programs. -/
def output (result : CompilationResult) : String :=
  let outputs := result.files.filterMap (·.output?)
  if result.emitEstree then (Json.array (outputs.filterMap (·.estree))).pretty ++ "\n"
  else String.join (outputs.map (·.text))

/-- Writes the output to a file. -/
def writeOutput (result : CompilationResult) (workspace : Workspace) (path : String) :
    Except PipelineError Workspace :=
  match workspace.writeText path result.output with
  | .ok written => .ok written
  | .error reason => .error (.write path reason)

/-- One if a file failed or an error is reported, or a warning if those count
as errors; else zero. -/
def exitCode (result : CompilationResult) (warningsAsErrors : Bool) : Nat :=
  if !result.failedFiles.isEmpty then 1
  else if result.diagnostics.hasErrors then 1
  else if warningsAsErrors && result.diagnostics.warningCount > 0 then 1
  else 0

end CompilationResult

end EsFront
