/-
Command line arguments.

Arguments are read from left to right. Options have a long name and some a
short one; short ones may be joined. The value of an option follows it, or is
attached: `--name=value`, `-xvalue`, `-x=value`. A word that starts with a
dash is no value, unless it is the dash alone. After `--` all words are files.

The first thing that is wrong ends the reading, and so does a request for help
or for the version (`Stop`).
-/
import EsFront.Config.Basic
import EsFront.Text.Blank

namespace EsFront

/-- What the command line says. -/
structure Arguments where
  files : List String := []
  output : Option String := none
  config : Option String := none
  parserCommand : Option String := none
  estreeInput : Bool := false
  emitEstree : Bool := false
  noResolve : Bool := false
  noComments : Bool := false
  logFile : Option String := none
  warningsAsErrors : Bool := false
  verbosity : Nat := 0
  logJson : Bool := false
  /-- Whether reports may have colours. -/
  pretty : Option Bool := none
deriving DecidableEq, Repr, Inhabited

/-- Options that take a value. -/
inductive ValueOption where
  | output
  | config
  | parserCommand
  | logFile
  | pretty
deriving DecidableEq, Repr, Inhabited

/-- Options without a value. -/
inductive FlagOption where
  | estreeInput
  | emitEstree
  | noResolve
  | noComments
  | warningsAsErrors
  | verbose
  | logJson
  | help
  | version
deriving DecidableEq, Repr, Inhabited

/-- Options of both sorts. -/
inductive CommandOption where
  | value (option : ValueOption)
  | flag (option : FlagOption)
deriving DecidableEq, Repr, Inhabited

namespace CommandOption

/-- The option with the given long name. -/
def ofLong? : String → Option CommandOption
  | "output" => some (value .output)
  | "config" => some (value .config)
  | "parser-cmd" => some (value .parserCommand)
  | "log-file" => some (value .logFile)
  | "pretty" => some (value .pretty)
  | "estree-input" => some (flag .estreeInput)
  | "emit-estree" => some (flag .emitEstree)
  | "no-resolve" => some (flag .noResolve)
  | "no-comments" => some (flag .noComments)
  | "warnings-as-errors" => some (flag .warningsAsErrors)
  | "verbose" => some (flag .verbose)
  | "log-json" => some (flag .logJson)
  | "help" => some (flag .help)
  | "version" => some (flag .version)
  | _ => none

/-- The option with the given short name. -/
def ofShort? : Char → Option CommandOption
  | 'o' => some (value .output)
  | 'c' => some (value .config)
  | 'v' => some (flag .verbose)
  | 'h' => some (flag .help)
  | 'V' => some (flag .version)
  | _ => none

end CommandOption

/-- Why the reading of arguments ends early. -/
inductive Stop where
  /-- The arguments are wrong. -/
  | usage
  | help
  | version
deriving DecidableEq, Repr, Inhabited

namespace Arguments

/-- Sets what may be set only once. -/
def once {α : Type} (old : Option α) (new : α) (store : Option α → Arguments) :
    Except Stop Arguments :=
  match old with
  | some _ => .error .usage
  | none => .ok (store (some new))

/-- Sets a flag that may be given only once. -/
def raise (old : Bool) (raised : Arguments) : Except Stop Arguments :=
  if old then .error .usage else .ok raised

/-- Stores the value of an option. The path of a configuration is not empty. -/
def setValue (args : Arguments) (option : ValueOption) (value : String) :
    Except Stop Arguments :=
  match option with
  | .output => once args.output value fun v => { args with output := v }
  | .config =>
    if value.isEmpty then .error .usage
    else once args.config value fun v => { args with config := v }
  | .parserCommand => once args.parserCommand value fun v => { args with parserCommand := v }
  | .logFile => once args.logFile value fun v => { args with logFile := v }
  | .pretty =>
    match value with
    | "true" => once args.pretty true fun v => { args with pretty := v }
    | "false" => once args.pretty false fun v => { args with pretty := v }
    | _ => .error .usage

/-- Stores an option without a value. -/
def setFlag (args : Arguments) : FlagOption → Except Stop Arguments
  | .estreeInput => raise args.estreeInput { args with estreeInput := true }
  | .emitEstree => raise args.emitEstree { args with emitEstree := true }
  | .noResolve => raise args.noResolve { args with noResolve := true }
  | .noComments => raise args.noComments { args with noComments := true }
  | .warningsAsErrors => raise args.warningsAsErrors { args with warningsAsErrors := true }
  | .verbose => .ok { args with verbosity := args.verbosity + 1 }
  | .logJson => raise args.logJson { args with logJson := true }
  | .help => .error .help
  | .version => .error .version

/-- The reader between two words. -/
structure Reader where
  args : Arguments
  /-- The option that waits for its value. -/
  pending : Option ValueOption := none
  /-- Whether all further words are files. -/
  filesOnly : Bool := false
deriving DecidableEq, Repr, Inhabited

namespace Reader

def addFile (reader : Reader) (file : String) : Reader :=
  { reader with args := { reader.args with files := reader.args.files ++ [file] } }

def storeValue (reader : Reader) (option : ValueOption) (value : String) :
    Except Stop Reader := do
  return { reader with args := ← reader.args.setValue option value, pending := none }

/-- A word with a long name, and a value if one is attached. -/
def long (reader : Reader) (name : String) (attached : Option String) : Except Stop Reader :=
  match CommandOption.ofLong? name, attached with
  | none, _ => .error .usage
  | some (.value option), some value => reader.storeValue option value
  | some (.value option), none => .ok { reader with pending := some option }
  | some (.flag _), some _ => .error .usage
  | some (.flag option), none => do return { reader with args := ← reader.args.setFlag option }

/-- The characters of a word with short names. -/
def short (reader : Reader) : List Char → Except Stop Reader
  | [] => .ok reader
  | c :: rest =>
    match CommandOption.ofShort? c with
    | none => .error .usage
    | some (.flag option) => do
      let args ← reader.args.setFlag option
      short { reader with args } rest
    | some (.value option) =>
      match rest with
      | [] => .ok { reader with pending := some option }
      | '=' :: value => reader.storeValue option (String.ofList value)
      | value => reader.storeValue option (String.ofList value)

/-- A word after `--`: the name, and what follows the first equals sign. -/
def splitAttached (word : List Char) : String × Option String :=
  let name := String.ofList (word.takeWhile (· ≠ '='))
  match word.dropWhile (· ≠ '=') with
  | [] => (name, none)
  | _ :: value => (name, some (String.ofList value))

/-- Moves on by one word. An option that waits for its value must get it. -/
def step (reader : Reader) (word : String) : Except Stop Reader :=
  if reader.filesOnly then .ok (reader.addFile word)
  else
    match word.toList, reader.pending with
    | '-' :: _ :: _, some _ => .error .usage
    | '-' :: '-' :: [], none => .ok { reader with filesOnly := true }
    | '-' :: '-' :: rest, none =>
      let (name, attached) := splitAttached rest
      reader.long name attached
    | '-' :: c :: rest, none => reader.short (c :: rest)
    | _, some option => reader.storeValue option word
    | _, none => .ok (reader.addFile word)

end Reader

/-- Reads the words of a command line. -/
def read (words : List String) : Except Stop Arguments := do
  let reader ← words.foldlM Reader.step ⟨{}, none, false⟩
  match reader.pending with
  | some _ => .error .usage
  | none => return reader.args

/-- The settings of the command line, to be laid over a configuration. -/
def overrides (args : Arguments) : Config :=
  let parser : Option ParserConfig := args.parserCommand.map fun text => ⟨some (words text)⟩
  { files := if args.files.isEmpty then none else some args.files
    output := args.output
    logFile := args.logFile
    parser
    printer := if args.noComments then some { preserveComments := some false } else none
    resolve := if args.noResolve then some false else none
    globals := none
    warningsAsErrors := if args.warningsAsErrors then some true else none
    emitEstree := if args.emitEstree then some true else none }

end Arguments

end EsFront
