/-
Commands that the shell runs itself.

They change the shell: its variables, arguments, options and flow. Those that
run scripts are not among them.

* `builtin?` — the command of a name.
-/
import EsFront.Shell.Expand
import EsFront.Shell.Program
import EsFront.Shell.Signal

namespace EsFront.Shell

open Tool (Call Dialect)

/-- The number that a text gives as an exit status. -/
def statusNumber? (text : String) : Option Nat :=
  let isSpace := fun (c : Char) => c = ' ' || ('\t' ≤ c && c ≤ '\r')
  let body := ((text.toList.dropWhile isSpace).reverse.dropWhile isSpace).reverse
  let digits := if body.head? = some '+' then body.drop 1 else body
  let n := Tool.numberOf 10 digits
  if !digits.isEmpty && digits.all Char.isDigit && n < 2147483648 then some n else none

namespace Machine

/-- Runs a tool on the streams of a shell. -/
def runTool (m : Machine) (run : Call → Tool.Outcome) (name : String) (args : List String) :
    Machine :=
  let outcome := run { name, workspace := m.workspace, input := m.input, args }
  let m := { m with workspace := outcome.workspace }.setInput outcome.rest
  let m := outcome.writes.foldl (fun m (stream, bytes) =>
    m.write (if stream = .output then 1 else 2) bytes) m
  m.withStatus outcome.status

/-- The complaint about a program that cannot be run. -/
def refuseProgram (m : Machine) (name : String) (reason : SystemError) : Machine :=
  match reason with
  | .permissionDenied =>
    let text := match m.dialect, m.workspace.find name with
      | .largeShell, .ok (.directory _) => "Is a directory"
      | _, _ => "Permission denied"
    m.complain (if name.toList.contains '/' then 126 else 127) (name ++ ": " ++ text)
  | .notFound =>
    match m.dialect with
    | .shell => m.complain 127 (name ++ if name = "" then ": Permission denied" else ": not found")
    | .largeShell =>
      if name.toList.contains '/' then m.complain 127 (name ++ ": No such file or directory")
      else m.complain 127 (name ++ ": command not found")
    | _ => m.complain 127 (name ++ ": not found")
  | .notADirectory =>
    match m.dialect with
    | .largeShell => m.complain 126 (name ++ ": Not a directory")
    | _ => m.complain 127 (name ++ ": not found")
  | reason =>
    match m.dialect with
    | .largeShell => m.complain 126 (name ++ ": " ++ reason.reason)
    | _ => m.complain 127 (name ++ ": not found")

/-- Sends a signal to a shell, given by a text. -/
def signal (m : Machine) (number : Nat) (target : String) : Machine :=
  match target.toInt? with
  | none => m.complain 2 ("kill: Illegal number: " ++ target)
  | some n =>
    if n = (processNumber m.process : Int) then
      if isHarmless number then m.withStatus 0
      else { m with flow := .killed number }
    else m.complain 1 "kill: No such process\n"

/-- Sends signals. -/
def kill (m : Machine) (args : List String) : Machine :=
  let usage := "kill: Usage: kill [-s sigspec | -signum | -sigspec] [pid | job]... or\n" ++
    "kill -l [exitstatus]"
  let send := fun (number : Nat) (targets : List String) =>
    if targets.isEmpty then m.complain 2 usage
    else targets.foldl (fun m target => if m.isRunning then m.signal number target else m) m
  match args with
  | [] => m.complain 2 usage
  | "-l" :: rest =>
    match rest.head?.bind (·.toNat?) with
    | some n =>
      let name := (signals.find? (·.1 = n % 128)).map (·.2)
      (m.write 1 (utf8 (name.getD "" ++ "\n"))).withStatus 0
    | none =>
      (m.write 1 (utf8 (String.join (signals.map fun (_, name) => name ++ "\n")))).withStatus 0
  | "-s" :: name :: rest =>
    match signalNumber? name with
    | some n => send n rest
    | none => m.complain 2 ("kill: invalid signal number or name: " ++ name)
  | "--" :: rest => send 15 rest
  | first :: rest =>
    match first.toList with
    | '-' :: c :: more =>
      match signalNumber? (String.ofList (c :: more)) with
      | some n => send n rest
      | none => m.complain 2 ("kill: Illegal option -" ++ c.toString)
    | _ => send 15 args

/-- Moves to another directory. -/
def cd (m : Machine) (args : List String) : Machine :=
  match args.filter (· ≠ "--") with
  | [] => { m with workspace := { m.workspace with here := none } }.withStatus 0
  | path :: _ =>
    match m.workspace.find path with
    | .ok (.directory here) =>
      { m with workspace := { m.workspace with here } }.withStatus 0
    | .ok _ | .error _ =>
      match m.dialect with
      | .largeShell => m.complain 1 ("cd: " ++ path ++ ": No such file or directory")
      | _ => m.complain 2 ("cd: can't cd to " ++ path)

/-- Takes a line off the input: the line, and whether it was ended. -/
def readLine (m : Machine) : String × Bool × Machine :=
  let input := m.input
  let line := input.takeWhile (· ≠ 10)
  let rest := input.drop line.length
  (Utf8.decodeLossy line, !rest.isEmpty, m.setInput (rest.drop 1))

/-- Gives the words of a line to variables; the last one gets all that is
left. -/
def assignWords (m : Machine) (names : List String) (line : List Char) : Machine :=
  let line := line.dropWhile Expansion.splits
  match names with
  | [] => m
  | [last] =>
    let kept := (line.reverse.dropWhile Expansion.splits).reverse
    m.setVariable last (String.ofList kept)
  | name :: rest =>
    let word := line.takeWhile (!Expansion.splits ·)
    (m.setVariable name (String.ofList word)).assignWords rest (line.drop word.length)

/-- Reads a line into variables. -/
def read (m : Machine) (args : List String) : Machine :=
  let names := args.filter (· ≠ "-r")
  let names := if names.isEmpty then ["REPLY"] else names
  let (line, ended, m) := m.readLine
  (m.assignWords names line.toList).withStatus (if ended then 0 else 1)

/-- Sets variables that are given as assignments. -/
def setAll (m : Machine) (builtin : String) (args : List String) : Machine :=
  args.foldl (fun m arg =>
    if !m.isRunning then m
    else
      match arg.splitOn "=" with
      | [name] =>
        if isName name then m.exportAll [name]
        else if name = "-p" then m
        else m.abort 2 (builtin ++ ": " ++ name ++ ": bad variable name")
      | name :: value =>
        if isName name then (m.setVariable name ("=".intercalate value)).exportAll [name]
        else m.abort 2 (builtin ++ ": " ++ name ++ ": bad variable name")
      | [] => m) (m.withStatus 0)

/-- Turns options on or off. -/
def setLetters (m : Machine) (on : Bool) (letters : List Char) : Machine :=
  letters.foldl (fun m c =>
    match c with
    | 'e' => { m with stopOnError := on }
    | 'u' => { m with needValues := on }
    | 'n' => { m with dry := on }
    | 'x' => { m with trace := on }
    | _ => m) m

/-- Sets options and arguments. -/
def set (m : Machine) : List String → Machine
  | [] => m.withStatus 0
  | "--" :: rest => { m with args := rest }.withStatus 0
  | "-o" :: "errexit" :: rest => set { m with stopOnError := true } rest
  | "-o" :: "nounset" :: rest => set { m with needValues := true } rest
  | "-o" :: "xtrace" :: rest => set { m with trace := true } rest
  | "-o" :: name :: _ => m.abort 2 ("set: Illegal option -o " ++ name)
  | arg :: rest =>
    match arg.toList with
    | '-' :: c :: letters =>
      match (c :: letters).find? fun c => !"abCefhmnuvxI".toList.contains c with
      | some bad => m.abort 2 ("set: Illegal option -" ++ bad.toString)
      | none => set (m.setLetters true (c :: letters)) rest
    | '+' :: letters => set (m.setLetters false letters) rest
    | _ => { m with args := arg :: rest }.withStatus 0

/-- Drops arguments. -/
def shift (m : Machine) (args : List String) : Machine :=
  match args.head? with
  | none =>
    if m.args.isEmpty then m.abort 2 "shift: can't shift that many"
    else { m with args := m.args.drop 1 }.withStatus 0
  | some text =>
    match statusNumber? text with
    | none => m.abort 2 ("shift: Illegal number: " ++ text)
    | some n =>
      if n ≤ m.args.length then { m with args := m.args.drop n }.withStatus 0
      else m.abort 2 "shift: can't shift that many"

/-- Leaves with the status that is given, or the last one. -/
def leaveWith (m : Machine) (builtin : String) (flow : Flow) (args : List String) : Machine :=
  match args.head? with
  | none => { m with flow }
  | some text =>
    match statusNumber? text with
    | some n => { m with status := n % 256, flow }
    | none => m.abort 2 (builtin ++ ": Illegal number: " ++ text)

/-- Leaves loops. -/
def leaveLoops (m : Machine) (builtin : String) (again : Bool) (args : List String) : Machine :=
  match args.head? with
  | none => { m with status := 0, flow := .leaving 1 again }
  | some text =>
    match statusNumber? text with
    | some n => { m with status := 0, flow := .leaving n again }
    | none => m.abort 2 (builtin ++ ": Illegal number: " ++ text)

/-- What a loop does after one round: the state, and whether it goes on. -/
def afterRound (m : Machine) : Machine × Bool :=
  match m.flow with
  | .running => (m, true)
  | .leaving (n + 2) again => ({ m with flow := .leaving (n + 1) again }, false)
  | .leaving _ true => ({ m with flow := .running }, true)
  | .leaving _ false => ({ m with flow := .running }, false)
  | _ => (m, false)

/-- Outside of loops there is none to leave. -/
def settle (m : Machine) : Machine :=
  match m.flow with
  | .leaving .. => { m with flow := .running }
  | _ => m

/-- Shows a command before it runs, if that is asked for. -/
def showTrace (m : Machine) (assigned words : List String) : Machine :=
  let assignments := assigned.map fun name => name ++ "=" ++ (m.valueOf? name).getD ""
  if m.trace then m.write 2 (utf8 ("+ " ++ " ".intercalate (assignments ++ words) ++ "\n")) else m

/-- Ends the script after a command that failed, if that is asked for. -/
def checkFailure (m : Machine) (tested : Bool) : Machine :=
  if m.stopOnError && !tested && m.status ≠ 0 && m.isRunning then { m with flow := .exited } else m

end Machine

/-- The commands of the shell that end it when they are misused. -/
def specialCommands : List String :=
  [".", ":", "break", "continue", "eval", "exec", "exit", "export", "readonly", "return", "set",
    "shift", "trap", "unset"]

/-- The built-in commands that change the shell itself and need no program. -/
def builtin? (name : String) : Option (Machine → List String → Machine) :=
  match name with
  | ":" | "true" => some fun m _ => m.withStatus 0
  | "false" => some fun m _ => m.withStatus 1
  | "alias" | "hash" | "jobs" | "local" | "times" | "ulimit" | "umask" | "unalias" | "wait" =>
    some fun m _ => m.withStatus 0
  | "break" => some fun m args => m.leaveLoops "break" false args
  | "cd" => some fun m args => m.cd args
  | "continue" => some fun m args => m.leaveLoops "continue" true args
  | "echo" => some fun m args => m.runTool (Tool.echo m.dialect) "echo" args
  | "exit" => some fun m args => m.leaveWith "exit" .exited args
  | "export" | "readonly" => some fun m args => m.setAll name args
  | "kill" => some fun m args => m.kill args
  | "pwd" => some fun m _ =>
    (m.write 1 (utf8 ("/" ++ "/".intercalate (m.workspace.here.getD []) ++ "\n"))).withStatus 0
  | "printf" => some fun m args =>
    m.runTool (Tool.printf m.dialect) (m.place ++ "printf") args
  | "read" => some fun m args => m.read args
  | "return" => some fun m args => m.leaveWith "return" .returning args
  | "set" => some fun m args => m.set args
  | "shift" => some fun m args => m.shift args
  | "test" => some fun m args => m.runTool (Tool.test m.dialect false) (m.place ++ "test") args
  | "[" => some fun m args => m.runTool (Tool.test m.dialect true) (m.place ++ "[") args
  | "trap" => some fun m args =>
    match args with
    | action :: signals =>
      if signals.any fun s => s = "EXIT" || s = "0" then
        { m with atExit := if action = "-" then none else some action }.withStatus 0
      else m.withStatus 0
    | [] => m.withStatus 0
  | "unset" => some fun m args =>
    (args.foldl (fun (m : Machine) name => m.unsetVariable name) m).withStatus 0
  | _ => none

end EsFront.Shell
