/-
The state of a running shell.

A shell has files, streams and variables. Streams are buffers; a descriptor
leads to a buffer, to a file or nowhere. What stops a shell before the end of
its script is its `Flow`.

* `Machine` — the state;
* `Machine.write`, `Machine.input` — writing and reading through descriptors;
* `Machine.redirect` — changes where descriptors lead.
-/
import EsFront.Shell.Command
import EsFront.Shell.Tool.Print

namespace EsFront.Shell

open Tool (Dialect)

/-- Where a descriptor leads. -/
inductive Endpoint where
  | buffer (index : Nat)
  | file (path : Path)
  | nowhere
deriving DecidableEq, Repr, Inhabited

/-- What stops the commands that follow. -/
inductive Flow where
  | running
  /-- Leaves so many loops, and goes on with the next round of the last one if
  `again`. -/
  | leaving (loops : Nat) (again : Bool)
  /-- Leaves a function or a script that was read in. -/
  | returning
  | exited
  | killed (signal : Nat)
deriving DecidableEq, Repr, Inhabited

structure Machine where
  workspace : Workspace
  /-- The contents of streams: the input, the output, the errors, and those that
  are open for a while. -/
  buffers : Array Bytes := #[[], [], []]
  descriptors : List (Nat × Endpoint) := [(0, .buffer 0), (1, .buffer 1), (2, .buffer 2)]
  dialect : Dialect := .shell
  /-- The name that complaints start with. -/
  name : String := "sh"
  args : List String := []
  bindings : List (String × String) := []
  /-- The variables that programs get. -/
  exported : List String := []
  functions : List (String × Command) := []
  status : Nat := 0
  line : Nat := 0
  flow : Flow := .running
  /-- Whether a command that fails ends the script. -/
  stopOnError : Bool := false
  /-- Whether a parameter without a value is a mistake. -/
  needValues : Bool := false
  /-- Whether commands are shown before they run. -/
  trace : Bool := false
  /-- Whether commands are only read. -/
  dry : Bool := false
  /-- The commands to run at the end. -/
  atExit : Option String := none
  /-- Which of the shells that are running it is. -/
  process : Nat := 1
  /-- The name of the built-in command in whose place commands run. -/
  inside : Option String := none
deriving Inhabited

namespace Machine

def isRunning (m : Machine) : Bool := m.flow = .running

def withStatus (m : Machine) (status : Nat) : Machine := { m with status }

/-- Ends the script. -/
def exit (m : Machine) (status : Nat) : Machine := { m with status, flow := .exited }

/-! ### Streams -/

def endpoint? (m : Machine) (descriptor : Nat) : Option Endpoint :=
  (m.descriptors.find? (·.1 = descriptor)).map (·.2)

/-- Lets a descriptor lead somewhere. -/
def setDescriptor (m : Machine) (descriptor : Nat) (endpoint : Option Endpoint) : Machine :=
  let others := m.descriptors.filter (·.1 ≠ descriptor)
  { m with
    descriptors := match endpoint with
      | none => others
      | some e => (descriptor, e) :: others }

/-- Opens a buffer with a content. -/
def openBuffer (m : Machine) (content : Bytes) : Nat × Machine :=
  (m.buffers.size, { m with buffers := m.buffers.push content })

def buffer (m : Machine) (index : Nat) : Bytes := m.buffers[index]?.getD []

/-- Writes bytes to where a descriptor leads. -/
def write (m : Machine) (descriptor : Nat) (bytes : Bytes) : Machine :=
  match m.endpoint? descriptor with
  | some (.buffer i) => { m with buffers := m.buffers.setIfInBounds i (m.buffer i ++ bytes) }
  | some (.file path) =>
    let old := ((m.workspace.fileAt? path).map Content.bytes).getD []
    { m with workspace := m.workspace.put path (.ofBytes (old ++ bytes)) }
  | some .nowhere | none => m

/-- What can be read from the input. -/
def input (m : Machine) : Bytes :=
  match m.endpoint? 0 with
  | some (.buffer i) => m.buffer i
  | some (.file path) => ((m.workspace.fileAt? path).map Content.bytes).getD []
  | some .nowhere | none => []

/-- Leaves only so much of the input. -/
def setInput (m : Machine) (rest : Bytes) : Machine :=
  match m.endpoint? 0 with
  | some (.buffer i) => { m with buffers := m.buffers.setIfInBounds i rest }
  | _ => m

/-- What complaints start with. -/
def place (m : Machine) : String :=
  let line := match m.dialect with
    | .largeShell => "line " ++ toString m.line
    | _ => toString m.line
  let inside := match m.inside with
    | some name => name ++ ": "
    | none => ""
  m.name ++ ": " ++ line ++ ": " ++ inside

/-- Complains. -/
def complain (m : Machine) (status : Nat) (text : String) : Machine :=
  (m.write 2 (utf8 (m.place ++ text ++ "\n"))).withStatus status

/-- Complains and ends the script. -/
def abort (m : Machine) (status : Nat) (text : String) : Machine :=
  (m.complain status text).exit status

/-! ### Variables -/

def valueOf? (m : Machine) (name : String) : Option String :=
  (m.bindings.find? (·.1 = name)).map (·.2)

def setVariable (m : Machine) (name value : String) : Machine :=
  { m with bindings := (name, value) :: m.bindings.filter (·.1 ≠ name) }

/-- Passes variables on to programs. -/
def exportAll (m : Machine) (names : List String) : Machine :=
  { m with exported := names ++ m.exported }

/-- The variables that programs get, with their values. -/
def environment (m : Machine) : List (String × String) :=
  m.bindings.filter fun (name, _) => m.exported.contains name

def unsetVariable (m : Machine) (name : String) : Machine :=
  { m with bindings := m.bindings.filter (·.1 ≠ name) }

/-- The number that stands for a shell. -/
def processNumber (process : Nat) : Nat := 4000 + process

/-- The values of a parameter: none if it is not set. -/
def values (m : Machine) : Parameter → Option (List String)
  | .named name => (m.valueOf? name).map ([·])
  | .argument 0 => some [m.name]
  | .argument (n + 1) => m.args[n]?.map ([·])
  | .arguments => if m.args.isEmpty then none else some m.args
  | .joined => if m.args.isEmpty then none else some [" ".intercalate m.args]
  | .count => some [toString m.args.length]
  | .status => some [toString m.status]
  | .process => some [toString (processNumber m.process)]
  | .options => some [if m.stopOnError then "e" else ""]

/-! ### Redirections -/

/-- The complaint about a file that cannot be read. -/
def cannotOpen (dialect : Dialect) (path : String) (reason : SystemError) : String :=
  match dialect, reason with
  | .largeShell, _ => path ++ ": " ++ reason.reason
  | _, .notFound => "cannot open " ++ path ++ ": No such file"
  | _, _ => "cannot open " ++ path ++ ": " ++ reason.reason

/-- The complaint about a file that cannot be written. -/
def cannotCreate (dialect : Dialect) (path : String) (reason : SystemError) : String :=
  match dialect, reason with
  | .largeShell, _ => path ++ ": " ++ reason.reason
  | _, .notFound => "cannot create " ++ path ++ ": Directory nonexistent"
  | _, _ => "cannot create " ++ path ++ ": " ++ reason.reason

/-- Where a path to be written leads. -/
def target (m : Machine) (path : String) (append : Bool) :
    Except SystemError (Option Endpoint × Machine) :=
  match m.workspace.find path with
  | .error e => .error e
  | .ok (.file p old) =>
    let content := if append then old else .text ""
    .ok (some (.file p), { m with workspace := m.workspace.put p content })
  | .ok (.free p) => .ok (some (.file p), { m with workspace := m.workspace.put p (.text "") })
  | .ok (.device .null) => .ok (some .nowhere, m)
  | .ok (.device .output) => .ok (m.endpoint? 1, m)
  | .ok (.device .errors) => .ok (m.endpoint? 2, m)
  | .ok (.directory _) | .ok .missingDirectory => .error .isADirectory

/-- Follows one redirection, whose target is known, or tells why it cannot. -/
def redirect (m : Machine) (descriptor : Nat) (direction : Direction) (target : String) :
    Except String Machine :=
  match direction with
  | .here =>
    let (i, m) := m.openBuffer (utf8 target)
    .ok (m.setDescriptor descriptor (some (.buffer i)))
  | .copy =>
    if target = "-" then .ok (m.setDescriptor descriptor none)
    else
      match target.toNat?.bind m.endpoint? with
      | some endpoint => .ok (m.setDescriptor descriptor (some endpoint))
      | none => .error (target ++ ": Bad file descriptor")
  | .read =>
    match m.workspace.find target with
    | .ok (.directory _) => .ok (m.setDescriptor descriptor (some .nowhere))
    | _ =>
      match m.workspace.read target with
      | .error e => .error (cannotOpen m.dialect target e)
      | .ok content =>
        let (i, m) := m.openBuffer content.bytes
        .ok (m.setDescriptor descriptor (some (.buffer i)))
  | .write | .append =>
    match m.target target (direction = .append) with
    | .error e => .error (cannotCreate m.dialect target e)
    | .ok (endpoint, m) => .ok (m.setDescriptor descriptor endpoint)

/-- Restores the streams of an earlier state. -/
def restoreStreams (m earlier : Machine) : Machine :=
  { m with
    descriptors := earlier.descriptors
    buffers := m.buffers.take earlier.buffers.size }

/-- Goes on after a shell that ran apart: only files and streams are changed,
and a signal stops both. -/
def resumeAfter (m child : Machine) : Machine :=
  let flow := match child.flow with
    | .killed signal => .killed signal
    | _ => m.flow
  { m with
    workspace := { child.workspace with here := m.workspace.here }
    buffers := child.buffers
    status := child.status
    flow }

end Machine

end EsFront.Shell
