/-
Runs of the command line tool.

A run loads the configuration, compiles the files, reports to the terminal and
to a log file, and writes the output. It changes the workspace and leaves a
`Session`: what was reported and printed, and the exit code. The last line of
the report tells the time, which only the caller knows (`Session.finish`).

Parser commands are run by any `Launcher`; where no other is given, by
`Shell.execute`, which knows a shell and small tools.
-/
import EsFront.CommandLine.Arguments
import EsFront.Config.Read
import EsFront.Pipeline.Batch
import EsFront.Shell.Execute

namespace EsFront

/-- The configuration file that is used when none is named. -/
def defaultConfigFile : String := "marv.json"

/-- An open log. -/
inductive Log where
  /-- A file, and how many bytes were written to it. -/
  | file (path : Path) (offset : Nat)
  | device (device : Device)
deriving DecidableEq, Repr, Inhabited

/-- Writes bytes over those from `offset` on. A gap before them is filled with
null bytes. -/
def overwrite (old : Bytes) (offset : Nat) (new : Bytes) : Bytes :=
  old.take offset ++ List.replicate (offset - old.length) 0 ++ new ++
    old.drop (offset + new.length)

/-- A run so far. -/
structure Session where
  workspace : Workspace
  log : Option Log := none
  /-- The text reported. -/
  report : String := ""
  /-- The text printed. -/
  printed : String := ""
  exitCode : Nat := 0
  /-- The numbers of errors and warnings, for a run that came to its end. -/
  summary : Option (Nat × Nat) := none
deriving DecidableEq, Repr, Inhabited

namespace Session

/-- Writes a text to a device. -/
def writeDevice (session : Session) (device : Device) (text : String) : Session :=
  match device with
  | .null => session
  | .output => { session with printed := session.printed ++ text }
  | .errors => { session with report := session.report ++ text }

/-- Writes a line to the log, if there is one. -/
def mirror (session : Session) (line : String) : Session :=
  match session.log with
  | none => session
  | some (.device device) => session.writeDevice device (line ++ "\n")
  | some (.file path offset) =>
    let new := utf8 (line ++ "\n")
    let old := ((session.workspace.fileAt? path).map Content.bytes).getD []
    { session with
      workspace := session.workspace.put path (.ofBytes (overwrite old offset new))
      log := some (.file path (offset + new.length)) }

/-- Reports a line. -/
def say (session : Session) (line : String) : Session :=
  { session with report := session.report ++ line ++ "\n" }.mirror line

/-- Reports what was done. -/
def progress (session : Session) (text : String) : Session := session.say ("MARV: " ++ text)

/-- The mark in front of a diagnostic. -/
def mark : Category → String
  | .error => "MARV ERROR:"
  | .warning => "MARV WARNING:"
  | .message => "MARV:"

/-- Reports a diagnostic and what explains it. -/
def diagnostic (session : Session) (d : Diagnostic) : Session :=
  let said := session.say (mark d.category ++ " " ++ d.locationText ++ " " ++ d.message)
  d.related.foldl
    (fun s r => s.progress ("  " ++ r.locationText ++ " " ++ r.message)) said

/-- Reports what became of a file. -/
def fileResult (session : Session) (result : FileResult) : Session :=
  match result.outcome with
  | .ok output =>
    session.progress (result.file ++ ": " ++ toString output.declarations ++
      " declaration(s), " ++ toString output.diagnostics.length ++ " diagnostic(s)")
  | .error _ => session.progress (result.file ++ ": failed")

/-- Ends a run that cannot go on. -/
def fail (session : Session) : Session := { session with exitCode := 1 }

/-- Starts the log; a file is emptied. -/
def openLog (session : Session) (path : Option String) : Except SystemError Session :=
  match path with
  | none => .ok session
  | some path =>
    match session.workspace.find path with
    | .error reason => .error reason
    | .ok (.file p _) | .ok (.free p) =>
      .ok { session with workspace := session.workspace.put p (.text ""), log := some (.file p 0) }
    | .ok (.device device) => .ok { session with log := some (.device device) }
    | .ok (.directory _) | .ok .missingDirectory => .error .isADirectory

/-- Writes the output to a file, or prints it. -/
def deliver (session : Session) (result : CompilationResult) (path : Option String) :
    Except PipelineError Session :=
  match path with
  | none => .ok { session with printed := session.printed ++ result.output }
  | some path =>
    match result.writeOutput session.workspace path with
    | .error e => .error e
    | .ok workspace =>
      let written := { session with workspace }
      let written := match workspace.find path with
        | .ok (.device device) => written.writeDevice device result.output
        | _ => written
      .ok (written.progress ("wrote " ++ path))

/-- Compiles the files of a configuration and reports on them. -/
def compileAll (launch : Launcher) (session : Session) (args : Arguments) (config : Config) :
    Session :=
  let files := config.inputs
  if files.isEmpty then session.fail
  else
    let backend :=
      if args.estreeInput then Backend.json else Backend.select launch config.parserCommand?
    let started :=
      session.progress (toString files.length ++ " file(s) via " ++ backend.name)
    let options := CompileOptions.ofConfig config
    let result := compile started.workspace backend options files
    let left := workspaceAfter started.workspace backend options files
    let started := { started with workspace := left }
    let diagnostics := result.diagnostics
    let reported := diagnostics.foldl diagnostic (result.files.foldl fileResult started)
    match reported.deliver result config.output with
    | .error _ => reported.fail
    | .ok delivered =>
      { delivered with
        exitCode := result.exitCode config.failOnWarnings
        summary := some (diagnostics.errorCount, diagnostics.warningCount) }

/-- The configuration that the arguments ask for. -/
def loadConfig (workspace : Workspace) (args : Arguments) : Except ConfigError Config :=
  match args.config with
  | some path => Config.load workspace path
  | none =>
    if workspace.pathExists defaultConfigFile then Config.load workspace defaultConfigFile
    else .ok {}

/-- A run with arguments that were read. -/
def start (launch : Launcher) (workspace : Workspace) (args : Arguments) : Session :=
  let session : Session := { workspace }
  match loadConfig workspace args with
  | .error _ => session.fail
  | .ok base =>
    let config := base.merge args.overrides
    match session.openLog config.logFile with
    | .error _ => session.fail
    | .ok session => compileAll launch session args config

/-- Two digits. -/
def twoDigits (n : Nat) : String := if n < 10 then "0" ++ toString n else toString n

/-- The last line of the report, given the time of the run in hundredths of a
second. -/
def finish (session : Session) (hundredths : Nat) : Session :=
  match session.summary with
  | none => session
  | some (errors, warnings) =>
    session.progress (toString errors ++ " error(s), " ++ toString warnings ++ " warning(s) in " ++
      toString (hundredths / 100) ++ "." ++ twoDigits (hundredths % 100) ++ "s")

end Session

namespace Backend

/-- A parser command that `Shell.execute` runs. -/
def command (c : ParserCommand) : Backend := external Shell.execute c

/-- The source for an optional command that `Shell.execute` runs. -/
def ofCommand? (words : Option (List String)) : Backend := select Shell.execute words

end Backend

/-- The name and version of the tool. -/
def versionText : String := "marv 0.1.0\n"

/-- The options of the tool, with what they do. -/
def optionHelp : List (String × String) :=
  [("-o, --output <OUTPUT>", "Write the regenerated sources here instead of stdout"),
    ("-c, --config <CONFIG>", "Path to marv.json"),
    ("    --parser-cmd <COMMAND>", "Parser command; the input path is appended"),
    ("    --estree-input",
      "Treat inputs as ESTree JSON even when a parser command is configured"),
    ("    --emit-estree", "Emit ESTree JSON instead of JavaScript"),
    ("    --no-resolve", "Skip scope resolution"),
    ("    --no-comments", "Drop doc comments from the output"),
    ("    --log-file <LOG_FILE>", "Mirror diagnostic lines to this file"),
    ("    --warnings-as-errors", "Exit non-zero when any warning is reported"),
    ("-v, --verbose...", "Increase log verbosity (-v debug, -vv trace)"),
    ("    --log-json", "Log as JSON"),
    ("    --pretty <PRETTY>", "Colour diagnostic lines when stderr is a terminal " ++
      "[default: true] [possible values: true, false]"),
    ("-h, --help", "Print help"),
    ("-V, --version", "Print version")]

/-- What the tool says when asked for help. -/
def helpText : String :=
  let width := optionHelp.foldl (fun w (name, _) => max w name.length) 0
  let line := fun ((name, purpose) : String × String) =>
    "  " ++ name ++ repeated " " (width - name.length + 2) ++ purpose ++ "\n"
  "marv - JavaScript front end: doc directives and scope resolution\n\n" ++
    "Usage: marv [OPTIONS] [FILE]...\n\n" ++
    "Arguments:\n  [FILE]...  Input files\n\n" ++
    "Options:\n" ++ String.join (optionHelp.map line)

/-- A run of the tool with the words of a command line. -/
def runCommandLine (workspace : Workspace) (words : List String)
    (launch : Launcher := Shell.execute) : Session :=
  match Arguments.read words with
  | .ok args => Session.start launch workspace args
  | .error .usage => { workspace, exitCode := 2 }
  | .error .help => { workspace, printed := helpText }
  | .error .version => { workspace, printed := versionText }

end EsFront
