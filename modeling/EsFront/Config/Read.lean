/-
Configuration files.

A configuration is a JSON object with the names of the settings as keys, each
at most once; a setting that is `null` is open. An object may also be given as
the array of all its values. `Config.parse` reads one from its text.
-/
import EsFront.Config.Basic
import EsFront.Json.Read
import EsFront.Workspace.Basic

namespace EsFront

/-- Why a configuration cannot be used. -/
inductive ConfigError where
  | unreadable (path : String) (reason : SystemError)
  /-- The text is not JSON, or not a configuration. -/
  | malformed
  | emptyParserCommand
deriving DecidableEq, Repr, Inhabited

namespace ConfigError

/-- The reason in words. -/
def message : ConfigError → String
  | unreadable path reason => "cannot read config file " ++ path ++ ": " ++ reason.message
  | malformed => "invalid config"
  | emptyParserCommand => "parser.command must name a program"

end ConfigError

namespace Config

/-- The values of the named members, `null` for those that are missing. Other
members and repeated ones are refused. -/
def recordValues (names : List String) : Json → Option (List Json)
  | .array values => if values.length = names.length then some values else none
  | .object members =>
    let keys := members.map (·.1)
    if keys.all names.contains && decide keys.Nodup then
      some (names.map fun name => (Json.lookup name members).getD .null)
    else none
  | _ => none

/-- A value that may be left open. -/
def setting {α : Type} (read : Json → Option α) : Json → Option (Option α)
  | .null => some none
  | value => (read value).map some

def readText : Json → Option String
  | .string s => some s
  | _ => none

def readFlag : Json → Option Bool
  | .bool b => some b
  | _ => none

def readTexts : Json → Option (List String)
  | .array values => values.mapM readText
  | _ => none

def readParser (value : Json) : Option ParserConfig := do
  match ← recordValues ["command"] value with
  | [command] => return { command := ← setting readTexts command }
  | _ => none

def readPrinter (value : Json) : Option PrinterConfig := do
  match ← recordValues ["indent", "preserveComments", "trailingNewline"] value with
  | [indent, preserveComments, trailingNewline] =>
    return {
      indent := ← setting readText indent
      preserveComments := ← setting readFlag preserveComments
      trailingNewline := ← setting readFlag trailingNewline }
  | _ => none

/-- The configuration that a JSON value stands for. -/
def ofJson? (value : Json) : Option Config := do
  let names := ["files", "output", "logFile", "parser", "printer", "resolve", "globals",
    "warningsAsErrors", "emitEstree"]
  match ← recordValues names value with
  | [files, output, logFile, parser, printer, resolve, globals, warningsAsErrors, emitEstree] =>
    return {
      files := ← setting readTexts files
      output := ← setting readText output
      logFile := ← setting readText logFile
      parser := ← setting readParser parser
      printer := ← setting readPrinter printer
      resolve := ← setting readFlag resolve
      globals := ← setting readTexts globals
      warningsAsErrors := ← setting readFlag warningsAsErrors
      emitEstree := ← setting readFlag emitEstree }
  | _ => none

/-- The configuration that a text stands for. -/
def parse (text : String) : Except ConfigError Config :=
  match (Json.parse text).bind ofJson? with
  | none => .error .malformed
  | some config => if config.isValid then .ok config else .error .emptyParserCommand

/-- The configuration in a file. -/
def load (workspace : Workspace) (path : String) : Except ConfigError Config :=
  match workspace.readText path with
  | .error reason => .error (.unreadable path reason)
  | .ok text => parse text

end Config

end EsFront
