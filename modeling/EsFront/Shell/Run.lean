/-
Running scripts.

A script runs command by command. Loops, functions and scripts inside words
are bounded by fuel.

* `runProgram` — runs a program inside a shell;
* `runCommand`, `runScript` — run parts of scripts.
-/
import EsFront.Shell.Builtin
import EsFront.Text.Blank

namespace EsFront.Shell

open Tool (Call Dialect)

/-- Options of a wrapper that come with a value. -/
def wrapperValues (name : String) : List String :=
  match name with
  | "nice" => ["-n"]
  | "timeout" => ["-s", "-k"]
  | _ => []

/-- The arguments of a wrapper behind its options. -/
def wrapped (valued : List String) : List String → List String
  | "--" :: rest => rest
  | first :: rest =>
    if valued.contains first then wrapped valued (rest.drop 1)
    else if first.toList.head? = some '-' then wrapped valued rest
    else first :: rest
  | [] => []
termination_by args => args.length
decreasing_by
  · simp only [List.length_drop, List.length_cons]; omega
  · simp only [List.length_cons]; omega

/-- How a wrapper complains about a program that cannot be run. -/
def wrapperComplaint (wrapper name : String) (reason : SystemError) : String :=
  let shown := Tool.quotedName name
  match (wrapper.splitOn "/").getLast?.getD wrapper with
  | "timeout" | "nohup" => wrapper ++ ": failed to run command " ++ shown ++ ": " ++ reason.reason
  | _ => wrapper ++ ": " ++ shown ++ ": " ++ reason.reason

mutual

/-- Runs a program in place of another one that was asked for. -/
def runWrapped (fuel : Nat) (wrapper name : String) (args : List String) (m : Machine) : Machine :=
  match fuel with
  | 0 => m
  | fuel + 1 =>
    match Program.find m.workspace name with
    | .ok program => runProgram fuel program name args m
    | .error reason =>
      let status := if reason matches .notFound then 127 else 126
      (m.write 2 (utf8 (wrapperComplaint wrapper name reason ++ "\n"))).withStatus status

/-- Runs a program on the streams of a shell. -/
def runProgram (fuel : Nat) (program : Program) (name : String) (args : List String)
    (m : Machine) : Machine :=
  match fuel with
  | 0 => m
  | fuel + 1 =>
    match program with
    | .tool run => m.runTool run name args
    | .shell dialect => runShell fuel dialect name args m
    | .env =>
      let rules : List Tool.OptionRule :=
        [⟨'i', "ignore-environment", false⟩, ⟨'u', "unset", true⟩, ⟨'0', "null", false⟩,
          ⟨'C', "chdir", true⟩, ⟨'S', "split-string", true⟩, ⟨'v', "debug", false⟩]
      match Tool.Options.read rules false args with
      | .error e =>
        m.runTool (fun call => call.refuse 125 e.message) name args
      | .ok (given, operands) =>
        let split := given.filterMap fun g => if g.letter = 'S' then g.value else none
        let operands := split.flatMap words ++ operands
        match operands.dropWhile fun word => word.toList.contains '=' with
        | [] => (m.write 1 (utf8 "PATH=/usr/bin:/bin\n")).withStatus 0
        | wanted :: rest =>
          let given := operands.takeWhile fun word => word.toList.contains '='
          let start := given.foldl (fun (m : Machine) word =>
            match word.splitOn "=" with
            | variableName :: value =>
              (m.setVariable variableName ("=".intercalate value)).exportAll [variableName]
            | [] => m) m
          m.resumeAfter (runWrapped fuel name wanted rest start)
    | .wrapper wrapper =>
      match wrapper, wrapped (wrapperValues wrapper) args with
      | "timeout", duration :: wanted :: rest =>
        if Tool.isInterval duration then runWrapped fuel name wanted rest m
        else
          m.runTool (fun call =>
            call.refuse 125 ("invalid time interval " ++ Tool.quotedName duration)) name args
      | "timeout", _ =>
        m.runTool (fun call =>
          call.failing 125 ("Try '" ++ name ++ " --help' for more information.")) name args
      | _, [] => m.runTool (fun call => call.refuse 125 "missing operand") name args
      | _, wanted :: rest => runWrapped fuel name wanted rest m

/-- Runs a shell with its arguments. -/
def runShell (fuel : Nat) (dialect : Dialect) (name : String) (args : List String)
    (m : Machine) : Machine :=
  match fuel with
  | 0 => m
  | fuel + 1 =>
    let fresh : Machine :=
      { workspace := m.workspace, buffers := m.buffers, descriptors := m.descriptors, dialect,
        name, bindings := m.environment, exported := m.exported, process := m.process + 1 }
    let report := fun (status : Nat) (text : String) =>
      (m.write 2 (utf8 (name ++ ": " ++ text ++ "\n"))).withStatus status
    let large := dialect = .largeShell
    let isFlag := fun (arg : String) =>
      match arg.toList with
      | '-' :: c :: rest => (c :: rest).all fun c => "abcefhmnsuvxI".toList.contains c
      | _ => false
    let flags := (args.takeWhile isFlag).flatMap fun flag => flag.toList.drop 1
    let start := fresh.setLetters true flags
    let rest := args.drop (args.takeWhile isFlag).length
    let operands := match rest with
      | "--" :: rest => rest
      | "-" :: rest => rest
      | rest => rest
    match rest.head?.map String.toList with
    | some ('-' :: c :: _ :: _) | some ['-', c] =>
      if rest.head? = some "--" then m.resumeAfter (runFile fuel operands start)
      else if large then report 2 ("-" ++ c.toString ++ ": invalid option")
      else
        report 2 ("0: Illegal option -" ++ c.toString)
    | _ =>
      if flags.contains 'c' then
        match operands with
        | [] => report 2 (if large then "-c: option requires an argument"
            else "0: -c requires an argument")
        | script :: args =>
          let named := { start with name := args.head?.getD name, args := args.drop 1 }
          m.resumeAfter (runWhole fuel script named)
      else if flags.contains 's' then
        m.resumeAfter (runFile fuel [] { start with args := operands })
      else m.resumeAfter (runFile fuel operands start)

/-- Runs the script in a file, or the one that is the input. -/
def runFile (fuel : Nat) (args : List String) (m : Machine) : Machine :=
  match fuel with
  | 0 => m
  | fuel + 1 =>
    match args with
    | [] => runWhole fuel (Utf8.decodeLossy m.input) (m.setInput [])
    | path :: rest =>
      match m.workspace.read path with
      | .ok content => runWhole fuel content.lossyText { m with name := path, args := rest }
      | .error .isADirectory =>
        if m.dialect = .largeShell then
          (m.write 2 (utf8 (path ++ ": " ++ path ++ ": Is a directory\n"))).exit 126
        else m.exit 0
      | .error e =>
        if m.dialect = .largeShell then
          (m.write 2 (utf8 (m.name ++ ": " ++ path ++ ": " ++ e.reason ++ "\n"))).exit
            (if e = .notFound then 127 else 126)
        else m.abort 2 (Machine.cannotOpen m.dialect path e)

/-- Runs a whole script, and what it asks for at its end. -/
def runWhole (fuel : Nat) (script : String) (m : Machine) : Machine :=
  match fuel with
  | 0 => m
  | fuel + 1 =>
    let done := runScript fuel (tokens script) m
    match done.flow, done.atExit with
    | .killed _, _ | _, none => done
    | _, some action =>
      let status := done.status
      let last := runScript fuel (tokens action) { done with flow := .running, atExit := none }
      match last.flow with
      | .running => { last with status, flow := done.flow }
      | _ => last

/-- Runs the commands of a script one by one. -/
def runScript (fuel : Nat) (input : Lexemes) (m : Machine) : Machine :=
  match fuel with
  | 0 => m
  | fuel + 1 =>
    if !m.isRunning then m
    else
      match complete input with
      | .error failure =>
        { m with line := failure.line }.abort 2 ("Syntax error: " ++ failure.reason.message)
      | .ok (none, _) => m
      | .ok (some command, rest) =>
        runScript fuel rest (if m.dry then m else (runCommand fuel false command m).settle)

/-- Runs a script for what it prints. -/
def captureOutput (fuel : Nat) (script : String) (m : Machine) : Bytes × Machine :=
  match fuel with
  | 0 => ([], m)
  | fuel + 1 =>
    let (i, opened) := m.openBuffer []
    let start := opened.setDescriptor 1 (some (.buffer i))
    let child := runScript fuel (tokensFrom (max m.line 1) script) start
    let bytes := child.buffer i
    (bytes, (m.resumeAfter child).restoreStreams m)

/-- Follows redirections. The state says whether it is still running. -/
def runRedirections (fuel : Nat) (redirections : List Redirection) (m : Machine) :
    Except Machine Machine :=
  match fuel with
  | 0 => .ok m
  | fuel + 1 =>
    match redirections with
    | [] => .ok m
    | r :: rest =>
      let (target, m) := expandText (captureOutput fuel) fuel r.target m
      if !m.isRunning then .error m
      else
        match m.redirect r.descriptor r.direction target with
        | .error reason =>
          .error (m.complain (if m.dialect = .largeShell then 1 else 2) reason)
        | .ok m => runRedirections fuel rest m

/-- Gives values to variables. -/
def runAssignments (fuel : Nat) (assignments : List (String × Word)) (m : Machine) : Machine :=
  match fuel with
  | 0 => m
  | fuel + 1 =>
    match assignments with
    | [] => m
    | (name, word) :: rest =>
      let (value, m) := expandText (captureOutput fuel) fuel word m
      if m.isRunning then runAssignments fuel rest (m.setVariable name value) else m

/-- Runs a simple command whose words are known. -/
def runWords (fuel : Nat) (name : String) (args : List String) (m : Machine) : Machine :=
  match fuel with
  | 0 => m
  | fuel + 1 =>
    match name, args with
    | "exec", command :: rest =>
      match Program.find m.workspace command with
      | .ok program =>
        let done := runProgram fuel program command rest m
        if done.isRunning then { done with flow := .exited } else done
      | .error reason =>
        ({ m with inside := some "exec" }.refuseProgram command reason).exit
          (if reason matches .permissionDenied then 126 else 127)
    | "exec", [] => m.withStatus 0
    | "eval", args =>
      let script := " ".intercalate args
      let done := runScript fuel (tokens script) { m.withStatus 0 with inside := some "eval" }
      { done with inside := m.inside }
    | "command", args =>
      match args.filter (· ≠ "--") with
      | [] => m.withStatus 0
      | "-v" :: wanted :: _ =>
        match builtin? wanted, Program.find m.workspace wanted with
        | some _, _ => (m.write 1 (utf8 (wanted ++ "\n"))).withStatus 0
        | none, .ok _ => (m.write 1 (utf8 ("/usr/bin/" ++ wanted ++ "\n"))).withStatus 0
        | none, .error _ => m.withStatus 127
      | command :: rest => runNamed fuel command rest m
    | ".", path :: _ =>
      let place := if path.toList.contains '/' then m.workspace.read path else .error .notFound
      match place with
      | .ok content =>
        let start := { m with status := 0, inside := some path }
        let done := runScript fuel (tokens content.lossyText) start
        let done := { done with inside := m.inside }
        match done.flow with
        | .returning => { done with flow := .running }
        | _ => done
      | .error e =>
        if path.toList.contains '/' then m.abort 2 (".: " ++ Machine.cannotOpen m.dialect path e)
        else m.abort 2 (".: " ++ path ++ ": not found")
    | ".", [] => m.withStatus 0
    | name, args =>
      match m.functions.find? (·.1 = name) with
      | some (_, body) =>
        let done := runCommand fuel false body { m with args }
        let done := { done with args := m.args }
        match done.flow with
        | .returning => { done with flow := .running }
        | _ => done
      | none => runNamed fuel name args m

/-- Runs a built-in command or a program. -/
def runNamed (fuel : Nat) (name : String) (args : List String) (m : Machine) : Machine :=
  match fuel with
  | 0 => m
  | fuel + 1 =>
    match builtin? name with
    | some run => run m args
    | none =>
      match Program.find m.workspace name with
      | .ok program =>
        let done := runProgram fuel program name args m
        match done.flow with
        | .killed signal =>
          { done with status := 128 + signal, flow := m.flow }.write 2 (utf8 (signalReport signal))
        | _ => done
      | .error reason => m.refuseProgram name reason

/-- Runs a command apart from the shell itself. -/
def runApart (fuel : Nat) (command : Command) (m : Machine) : Machine :=
  match fuel with
  | 0 => m
  | fuel + 1 => runCommand fuel false command { m with atExit := none }

/-- Runs a loop whose test decides whether it goes on. -/
def runLoop (fuel : Nat) (tested untilTrue : Bool) (test body : Command) (last : Nat)
    (m : Machine) : Machine :=
  match fuel with
  | 0 => m
  | fuel + 1 =>
    let m := runCommand fuel true test m
    match m.afterRound with
    | (m, false) => m
    | (m, true) =>
      if (m.status = 0) = (untilTrue = true) then m.withStatus last
      else
        let m := runCommand fuel tested body m
        match m.afterRound with
        | (m, false) => m
        | (m, true) => runLoop fuel tested untilTrue test body m.status m

/-- Runs a loop over values. -/
def runForEach (fuel : Nat) (tested : Bool) (name : String) (values : List String)
    (body : Command) (m : Machine) : Machine :=
  match fuel with
  | 0 => m
  | fuel + 1 =>
    match values with
    | [] => m
    | value :: rest =>
      match (runCommand fuel tested body (m.setVariable name value)).afterRound with
      | (m, false) => m
      | (m, true) => runForEach fuel tested name rest body m

/-- Runs the first branch with a pattern that fits. -/
def runChoice (fuel : Nat) (tested : Bool) (subject : List Char)
    (branches : List (List Word × Command)) (m : Machine) : Machine :=
  match fuel with
  | 0 => m
  | fuel + 1 =>
    match branches with
    | [] => m.withStatus 0
    | (patterns, body) :: rest =>
      let (fits, m) := patterns.foldl (fun ((fits, m) : Bool × Machine) word =>
        if fits then (fits, m)
        else
          let (pattern, m) := expandPattern (captureOutput fuel) fuel word m
          (pattern.accepts subject, m)) (false, m)
      if fits then runCommand fuel tested body (m.withStatus 0)
      else runChoice fuel tested subject rest m

/-- Runs a command; `tested` tells that its status decides something. -/
def runCommand (fuel : Nat) (tested : Bool) (command : Command) (m : Machine) : Machine :=
  match fuel with
  | 0 => m
  | fuel + 1 =>
    if !m.isRunning then m
    else
      match command with
      | .nothing => m.withStatus 0
      | .simple line assignments words redirections =>
        let m := { m with line }
        let before := m.status
        let (fields, m) := expandWords (captureOutput fuel) fuel words m
        if !m.isRunning then m
        else
          match runRedirections fuel redirections m with
          | .error failed =>
            let failed := failed.restoreStreams m
            match fields with
            | name :: _ =>
              if specialCommands.contains name && failed.isRunning then failed.exit failed.status
              else failed.checkFailure tested
            | [] => failed.checkFailure tested
          | .ok redirected =>
            match fields with
            | [] =>
              let captures := words.any fun w => w.any fun
                | .output .. => true
                | _ => false
              let assigns := assignments.any fun (_, w) => w.any fun
                | .output .. => true
                | _ => false
              let start := if captures || assigns then redirected else redirected.withStatus 0
              let done := runAssignments fuel assignments start
              ((done.showTrace (assignments.map (·.1)) []).restoreStreams m).checkFailure tested
            | name :: args =>
              let start := runAssignments fuel assignments { redirected with status := before }
              let start := start.exportAll (assignments.map (·.1))
              if !start.isRunning then start
              else
                let done := runWords fuel name args (start.showTrace (assignments.map (·.1)) fields)
                if name = "exec" && args.isEmpty then done
                else
                  let done := done.restoreStreams m
                  let done :=
                    if assignments.isEmpty || specialCommands.contains name then done
                    else { done with bindings := m.bindings, exported := m.exported }
                  done.checkFailure tested
      | .redirected inner redirections =>
        match runRedirections fuel redirections m with
        | .error failed => (failed.restoreStreams m).checkFailure tested
        | .ok redirected => (runCommand fuel tested inner redirected).restoreStreams m
      | .sequence first second =>
        runCommand fuel tested second (runCommand fuel tested first m)
      | .background inner => (m.resumeAfter (runApart fuel inner m)).withStatus 0
      | .both first second =>
        let m := runCommand fuel true first m
        if m.status = 0 then runCommand fuel tested second m else m
      | .either first second =>
        let m := runCommand fuel true first m
        if m.status = 0 then m else runCommand fuel tested second m
      | .negated inner =>
        let m := runCommand fuel true inner m
        if m.isRunning then m.withStatus (if m.status = 0 then 1 else 0) else m
      | .pipe first second =>
        let (i, opened) := m.openBuffer []
        let left := m.resumeAfter
          (runApart fuel first (opened.setDescriptor 1 (some (.buffer i))))
        let right := m.resumeAfter
          (runApart fuel second (left.setDescriptor 0 (some (.buffer i))))
        (right.restoreStreams m).checkFailure tested
      | .conditional test yes no =>
        let m := runCommand fuel true test m
        if !m.isRunning then m
        else if m.status = 0 then runCommand fuel tested yes m
        else runCommand fuel tested no m
      | .loop untilTrue test body => runLoop fuel tested untilTrue test body 0 m
      | .forEach name words body =>
        match words with
        | none => runForEach fuel tested name m.args body (m.withStatus 0)
        | some words =>
          let (values, m) := expandWords (captureOutput fuel) fuel words m
          runForEach fuel tested name values body (m.withStatus 0)
      | .choice subject branches =>
        let (text, m) := expandText (captureOutput fuel) fuel subject m
        runChoice fuel tested text.toList branches m
      | .subshell inner => (m.resumeAfter (runApart fuel inner m)).checkFailure tested
      | .define name body =>
        { m with functions := (name, body) :: m.functions.filter (·.1 ≠ name) }.withStatus 0

end

end EsFront.Shell
