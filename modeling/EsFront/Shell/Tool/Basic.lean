/-
Small tools.

A tool gets its arguments, the files and an input, and leaves an exit status,
what it wrote, and the files. Tools share how options are read and how names
are shown in complaints.

* `Tool.Call`, `Tool.Outcome` — what a tool gets and leaves;
* `Options.read` — takes options out of arguments;
* `shownName` — a name as it stands in complaints.
-/
import EsFront.Workspace.Basic

namespace EsFront.Shell

/-- Where a program writes. -/
inductive Stream where
  | output
  | errors
deriving DecidableEq, Repr, Inhabited

namespace Tool

/-- What a tool gets. -/
structure Call where
  /-- The name by which the tool was called. -/
  name : String
  workspace : Workspace
  input : Bytes := []
  args : List String
deriving Repr, Inhabited

/-- What a tool leaves. -/
structure Outcome where
  workspace : Workspace
  status : Nat := 0
  /-- What it wrote, in order. -/
  writes : List (Stream × Bytes) := []
  /-- The input that it did not read. -/
  rest : Bytes := []
deriving Repr, Inhabited

namespace Outcome

/-- Nothing was done yet. -/
def start (call : Call) : Outcome := { workspace := call.workspace, rest := call.input }

/-- Prints bytes. -/
def print (outcome : Outcome) (bytes : Bytes) : Outcome :=
  { outcome with writes := outcome.writes ++ [(.output, bytes)] }

/-- Complains, and fails with the given status. -/
def complain (outcome : Outcome) (status : Nat) (text : String) : Outcome :=
  { outcome with status, writes := outcome.writes ++ [(.errors, utf8 (text ++ "\n"))] }

/-- Takes the whole input. -/
def drain (outcome : Outcome) : Bytes × Outcome := (outcome.rest, { outcome with rest := [] })

end Outcome

/-- Only prints a text. -/
def Call.printing (call : Call) (text : String) : Outcome := (Outcome.start call).print (utf8 text)

/-- Only complains. -/
def Call.failing (call : Call) (status : Nat) (text : String) : Outcome :=
  (Outcome.start call).complain status text

/-! ### Options -/

/-- An option: its letter, its long name, and whether a value follows. -/
structure OptionRule where
  letter : Char
  name : String := ""
  takesValue : Bool := false
deriving DecidableEq, Repr, Inhabited

/-- An option that was given. -/
structure Given where
  letter : Char
  value : Option String := none
deriving DecidableEq, Repr, Inhabited

/-- Reasons why options are refused. -/
inductive OptionError where
  | invalid (letter : Char)
  | unrecognized (text : String)
  | needsValue (letter : Char)
  | nameNeedsValue (name : String)
  | takesNoValue (name : String)
  | ambiguous (text : String) (names : List String)
deriving DecidableEq, Repr, Inhabited

namespace OptionError

/-- The reason in words. -/
def message : OptionError → String
  | invalid letter => "invalid option -- '" ++ letter.toString ++ "'"
  | unrecognized text => "unrecognized option '" ++ text ++ "'"
  | needsValue letter => "option requires an argument -- '" ++ letter.toString ++ "'"
  | nameNeedsValue name => "option '--" ++ name ++ "' requires an argument"
  | takesNoValue name => "option '--" ++ name ++ "' doesn't allow an argument"
  | ambiguous text names =>
    "option '" ++ text ++ "' is ambiguous; possibilities:" ++
      String.join (names.map fun name => " '--" ++ name ++ "'")

end OptionError

/-- The letters of help and version, which have long names only. -/
def helpLetter : Char := Char.ofNat 1

def versionLetter : Char := Char.ofNat 2

/-- The options that every tool has. -/
def commonRules : List OptionRule :=
  [⟨helpLetter, "help", false⟩, ⟨versionLetter, "version", false⟩]

namespace Options

/-- Reads letters behind a dash; `next` is the argument after them. The result
tells whether that was used. -/
def letters (rules : List OptionRule) (next : Option String) :
    List Char → Except OptionError (List Given × Bool)
  | [] => .ok ([], false)
  | c :: rest =>
    match rules.find? fun rule => rule.letter = c with
    | none => .error (.invalid c)
    | some rule =>
      if rule.takesValue then
        match rest, next with
        | [], some value => .ok ([⟨c, some value⟩], true)
        | [], none => .error (.needsValue c)
        | rest, _ => .ok ([⟨c, some (String.ofList rest)⟩], false)
      else
        match letters rules next rest with
        | .error e => .error e
        | .ok (given, used) => .ok (⟨c, none⟩ :: given, used)

/-- Reads a long option, without its dashes. A name may be cut short. -/
def long (rules : List OptionRule) (next : Option String) (text : String) :
    Except OptionError (List Given × Bool) :=
  let (name, value) := match text.splitOn "=" with
    | name :: v :: more => (name, some ("=".intercalate (v :: more)))
    | _ => (text, none)
  let named := rules.filter fun rule => rule.name ≠ ""
  let whole := named.filter fun rule => rule.name = name
  let found :=
    if whole.isEmpty then named.filter fun rule => rule.name.startsWith name else whole
  match found with
  | [] => .error (.unrecognized ("--" ++ text))
  | [rule] =>
    if rule.takesValue then
      match value, next with
      | some v, _ => .ok ([⟨rule.letter, some v⟩], false)
      | none, some v => .ok ([⟨rule.letter, some v⟩], true)
      | none, none => .error (.nameNeedsValue rule.name)
    else if value.isSome then .error (.takesNoValue rule.name)
    else .ok ([⟨rule.letter, none⟩], false)
  | many => .error (.ambiguous ("--" ++ name) (many.map OptionRule.name))

/-- Takes the options out of arguments. Unless `mixed`, they end at the first
argument that is none. -/
def readFrom (rules : List OptionRule) (mixed : Bool) :
    Nat → List String → Except OptionError (List Given × List String)
  | 0, args => .ok ([], args)
  | _, [] => .ok ([], [])
  | fuel + 1, arg :: rest =>
    let take := fun (found : Except OptionError (List Given × Bool)) => do
      let (given, used) ← found
      let (more, operands) ← readFrom rules mixed fuel (if used then rest.drop 1 else rest)
      Except.ok (given ++ more, operands)
    match arg.toList with
    | ['-', '-'] => .ok ([], rest)
    | '-' :: '-' :: name => take (long rules rest.head? (String.ofList name))
    | '-' :: c :: more => take (letters rules rest.head? (c :: more))
    | _ =>
      if mixed then do
        let (given, operands) ← readFrom rules mixed fuel rest
        .ok (given, arg :: operands)
      else .ok ([], arg :: rest)

/-- Takes the options out of arguments. -/
def read (rules : List OptionRule) (mixed : Bool) (args : List String) :
    Except OptionError (List Given × List String) :=
  readFrom (rules ++ commonRules) mixed (args.length + 1) args

end Options

/-- The complaint about wrong arguments. -/
def Call.refuse (call : Call) (status : Nat) (reason : String) : Outcome :=
  call.failing status
    (call.name ++ ": " ++ reason ++ "\nTry '" ++ call.name ++ " --help' for more information.")

/-- Runs a tool on its options and operands; `status` is that of wrong ones. -/
def Call.withOptions (call : Call) (status : Nat) (rules : List OptionRule) (mixed : Bool)
    (run : List Given → List String → Outcome) : Outcome :=
  match Options.read rules mixed call.args with
  | .error e => call.refuse status e.message
  | .ok (given, operands) =>
    if given.any (·.letter = helpLetter) then
      call.printing ("Usage: " ++ call.name ++ " [OPTION]... [FILE]...\n")
    else if given.any (·.letter = versionLetter) then
      call.printing (call.name ++ " version 9\n")
    else run given operands

/-! ### Names in complaints -/

/-- Whether a byte makes a name need quotes. -/
def isSpecial (b : UInt8) : Bool :=
  " !\"$&()*:;<=>?[\\^\x60|\x27".toUTF8.toList.contains b

/-- The escape of a byte that cannot be shown. -/
def escapeOf (b : UInt8) : String :=
  match b.toNat with
  | 7 => "\\a"
  | 8 => "\\b"
  | 9 => "\\t"
  | 10 => "\\n"
  | 11 => "\\v"
  | 12 => "\\f"
  | 13 => "\\r"
  | n => "\\" ++ toString (n / 64) ++ toString (n / 8 % 8) ++ toString (n % 8)

def isShown (b : UInt8) : Bool := 32 ≤ b.toNat && b.toNat < 127

/-- The bytes of a name in quotes; `escaping` tells whether the byte before was
escaped. -/
def quotedBytes : Bool → Bytes → String
  | _, [] => ""
  | escaping, b :: rest =>
    if isShown b then
      let text := if b = 39 then "'\\''" else (Char.ofNat b.toNat).toString
      (if escaping then "''" else "") ++ text ++ quotedBytes false rest
    else (if escaping then "" else "'$'") ++ escapeOf b ++ quotedBytes true rest

/-- A name in quotes. -/
def quotedName (name : String) : String :=
  let bytes := utf8 name
  let fits := fun b => isShown b && (!isSpecial b || b = 32 || b = 39 || b = 58)
  if bytes.contains 39 && bytes.all fits then
    "\"" ++ name ++ "\""
  else "'" ++ quotedBytes false bytes ++ "'"

/-- A name as it stands in complaints: in quotes if it needs them. -/
def shownName (name : String) : String :=
  let bytes := utf8 name
  let special := bytes.isEmpty || bytes.any (fun b => isSpecial b || !isShown b) ||
    name = "\x7b" || name = "\x7d" || name.toList.head? = some '#' || name.toList.head? = some '~'
  if special then quotedName name else name

/-- Reads a file; `-` stands for the input. -/
def Outcome.readFile (outcome : Outcome) (path : String) : Except SystemError Bytes × Outcome :=
  if path = "-" then
    let (bytes, outcome) := outcome.drain
    (.ok bytes, outcome)
  else ((outcome.workspace.read path).map Content.bytes, outcome)

end Tool

end EsFront.Shell
