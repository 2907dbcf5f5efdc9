/-
Configurations.

Every setting may be left open. A configuration is laid over another by
`Config.merge`: what the upper one sets wins, the settings of a section are
merged one by one, and the global names of both are kept. The settings that
stay open have defaults (`Config.resolveNames` and the like).
-/
import EsFront.Print.Piece

namespace EsFront

/-- How source files are turned into ESTree. -/
structure ParserConfig where
  /-- A program and its arguments; the path of the input is appended. Without
  it, inputs are ESTree already. -/
  command : Option (List String) := none
deriving DecidableEq, Repr, Inhabited

/-- How the output is written. -/
structure PrinterConfig where
  indent : Option String := none
  preserveComments : Option Bool := none
  trailingNewline : Option Bool := none
deriving DecidableEq, Repr, Inhabited

/-- All settings of a run. -/
structure Config where
  files : Option (List String) := none
  output : Option String := none
  logFile : Option String := none
  parser : Option ParserConfig := none
  printer : Option PrinterConfig := none
  resolve : Option Bool := none
  globals : Option (List String) := none
  warningsAsErrors : Option Bool := none
  emitEstree : Option Bool := none
deriving DecidableEq, Repr, Inhabited

/-- Combines two settings if both are made. -/
def mergeSettings {α : Type} (combine : α → α → α) : Option α → Option α → Option α
  | some base, some top => some (combine base top)
  | none, top => top
  | base, none => base

def ParserConfig.merge (base top : ParserConfig) : ParserConfig :=
  { command := top.command.or base.command }

def PrinterConfig.merge (base top : PrinterConfig) : PrinterConfig :=
  { indent := top.indent.or base.indent
    preserveComments := top.preserveComments.or base.preserveComments
    trailingNewline := top.trailingNewline.or base.trailingNewline }

namespace Config

/-- Lays `top` over `base`. -/
def merge (base top : Config) : Config :=
  { files := top.files.or base.files
    output := top.output.or base.output
    logFile := top.logFile.or base.logFile
    parser := mergeSettings ParserConfig.merge base.parser top.parser
    printer := mergeSettings PrinterConfig.merge base.printer top.printer
    resolve := top.resolve.or base.resolve
    globals := mergeSettings (· ++ ·) base.globals top.globals
    warningsAsErrors := top.warningsAsErrors.or base.warningsAsErrors
    emitEstree := top.emitEstree.or base.emitEstree }

def inputs (config : Config) : List String := config.files.getD []

/-- The program that parses source files, with its arguments. -/
def parserCommand? (config : Config) : Option (List String) := config.parser.bind (·.command)

def resolveNames (config : Config) : Bool := config.resolve.getD true

def globalNames (config : Config) : List String := config.globals.getD []

def failOnWarnings (config : Config) : Bool := config.warningsAsErrors.getD false

def writeEstree (config : Config) : Bool := config.emitEstree.getD false

/-- How programs are printed. -/
def printOptions (config : Config) : PrintOptions :=
  let printer := config.printer.getD {}
  { indent := printer.indent.getD "    "
    newLine := "\n"
    trailingNewline := printer.trailingNewline.getD true
    preserveComments := printer.preserveComments.getD true }

/-- Whether a parser command, if there is one, names a program. -/
def isValid (config : Config) : Bool :=
  match config.parserCommand? with
  | none => true
  | some [] => false
  | some (program :: _) => !program.isEmpty

end Config

end EsFront
