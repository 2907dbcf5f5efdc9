/-
Diagnostics: realized messages with a location.

* `Diagnostic.located`, `Diagnostic.inFile`, `Diagnostic.relate` build them;
* `Diagnostic.text` is the line that reports one;
* `Diagnostics` are kept in order of report, counted by category, and sorted
  by file and start position.
-/
import EsFront.Source.Location
import EsFront.Diagnostic.Message

namespace EsFront

/-- A realized message, its place, and the diagnostics that explain it. -/
structure Diagnostic where
  file : Option String
  loc : Option SourceLocation
  message : String
  code : Nat
  category : Category
  related : List Diagnostic
deriving Repr, Inhabited

namespace Diagnostic

/-- A diagnostic without a place. -/
def new (message : Message) (args : List String) : Diagnostic where
  file := none
  loc := none
  message := formatMessage message.template args
  code := message.code
  category := message.category
  related := []

/-- A diagnostic at a location, in the file that the location names. -/
def located (loc : Option SourceLocation) (message : Message) (args : List String) : Diagnostic :=
  { new message args with loc, file := loc.bind (·.source) }

/-- Names the file, unless the diagnostic has one. -/
def inFile (d : Diagnostic) (file : String) : Diagnostic :=
  match d.file with
  | some _ => d
  | none => { d with file := some file }

/-- Adds an explanation. -/
def relate (d : Diagnostic) (other : Diagnostic) : Diagnostic :=
  { d with related := d.related ++ [other] }

def isError (d : Diagnostic) : Bool := d.category = .error

def isWarning (d : Diagnostic) : Bool := d.category = .warning

/-- The place as text, `unknown` when there is none. -/
def locationText (d : Diagnostic) : String :=
  match d.loc, d.file with
  | some loc, some file => if loc.source.isSome then loc.text else file ++ " " ++ loc.text
  | some loc, none => loc.text
  | none, some file => file
  | none, none => "unknown"

/-- `place: category MARVcode: message`. -/
def text (d : Diagnostic) : String :=
  d.locationText ++ ": " ++ d.category.text ++ " MARV" ++ toString d.code ++ ": " ++ d.message

/-- Whether `a` may stand before `b` when sorted by file and start position; a
missing file or position comes first. -/
def precedes (a b : Diagnostic) : Bool :=
  let byFile := compareOptions compare a.file b.file
  let byStart := compareOptions Position.cmp (a.loc.map (·.start)) (b.loc.map (·.start))
  (byFile.then byStart) != .gt

end Diagnostic

/-- Diagnostics in order of report. -/
abbrev Diagnostics := List Diagnostic

namespace Diagnostics

def errorCount (ds : Diagnostics) : Nat := ds.countP Diagnostic.isError

def warningCount (ds : Diagnostics) : Nat := ds.countP Diagnostic.isWarning

def hasErrors (ds : Diagnostics) : Bool := ds.any Diagnostic.isError

/-- Sorted by file, then by start position; equal ones keep their order. -/
def sorted (ds : Diagnostics) : Diagnostics := ds.mergeSort Diagnostic.precedes

end Diagnostics

end EsFront
