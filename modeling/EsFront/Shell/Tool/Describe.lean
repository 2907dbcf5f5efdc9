/-
Tools that tell something about files and their names.

`ls` lists names, `wc` counts, `basename` and `dirname` take paths apart, and
`sleep` does nothing for a while.
-/
import EsFront.Shell.Tool.Copy

namespace EsFront.Shell.Tool

/-- Lists the named files, or what lies in directories. -/
def ls (call : Call) : Outcome :=
  let letters := "1aAbBcCdfFgGhHiklLmnNopqQrRsStuUvxXZ".toList.map fun c =>
    (⟨c, "", false⟩ : OptionRule)
  call.withOptions 2 letters true fun _ operands =>
    let paths := if operands.isEmpty then ["."] else operands
    let step := fun (outcome : Outcome) (path : String) =>
      match outcome.workspace.find path with
      | .ok (.file ..) | .ok (.device _) => outcome.print (utf8 (path ++ "\n"))
      | .ok (.directory (some p)) =>
        let names := (outcome.workspace.namesIn p).filter (!·.startsWith ".")
        outcome.print (utf8 (String.join (names.map (· ++ "\n"))))
      | .ok (.directory none) => outcome.print (utf8 "bin\n")
      | .ok (.free _) | .ok .missingDirectory =>
        outcome.complain 2
          (call.name ++ ": cannot access " ++ quotedName path ++ ": No such file or directory")
      | .error e =>
        outcome.complain 2 (call.name ++ ": cannot access " ++ quotedName path ++ ": " ++ e.reason)
    paths.foldl step (Outcome.start call)

/-- How many words a text has. -/
def countWords (bytes : Bytes) : Nat :=
  let isSpace := fun (b : UInt8) => b = 32 || (9 ≤ b.toNat && b.toNat ≤ 13)
  (bytes.foldl (fun ((n, inside) : Nat × Bool) b =>
    if isSpace b then (n, false) else (if inside then n else n + 1, true)) (0, false)).1

/-- Counts lines, words and bytes. -/
def wc (call : Call) : Outcome :=
  call.withOptions 1 [⟨'c', "bytes", false⟩, ⟨'l', "lines", false⟩, ⟨'w', "words", false⟩,
      ⟨'m', "chars", false⟩, ⟨'L', "max-line-length", false⟩] true fun given operands =>
    let files := if operands.isEmpty then ["-"] else operands
    let wants := fun (c : Char) => given.isEmpty || given.any fun g => g.letter = c
    let counts := fun (bytes : Bytes) =>
      (if wants 'l' then [bytes.count 10] else []) ++
        (if wants 'w' then [countWords bytes] else []) ++
        (if wants 'c' || wants 'm' then [bytes.length] else [])
    let line := fun (numbers : List Nat) (name : String) =>
      utf8 (" ".intercalate (numbers.map toString) ++ (if name = "-" then "" else " " ++ name) ++
        "\n")
    let step := fun (outcome : Outcome) (path : String) =>
      match outcome.readFile path with
      | (.ok bytes, outcome) => outcome.print (line (counts bytes) path)
      | (.error e, outcome) =>
        outcome.complain 1 (call.name ++ ": " ++ shownName path ++ ": " ++ e.reason)
    files.foldl step (Outcome.start call)

/-- The parts of a path without the empty ones at its end. -/
def pathParts (path : String) : List String :=
  ((path.splitOn "/").reverse.dropWhile (· = "")).reverse

/-- Prints the last part of a path, without a given ending. -/
def basename (call : Call) : Outcome :=
  call.withOptions 1 [] false fun _ operands =>
    let last := fun (path : String) =>
      (pathParts path).getLast?.getD (if path = "" then "" else "/")
    match operands with
    | [] => call.refuse 1 "missing operand"
    | [path] => call.printing (last path ++ "\n")
    | [path, ending] =>
      let name := last path
      let cut := name.endsWith ending && name ≠ ending
      let kept := String.ofList (name.toList.take (name.length - ending.length))
      call.printing ((if cut then kept else name) ++ "\n")
    | _ :: _ :: extra :: _ =>
      call.refuse 1 ("extra operand " ++ quotedName extra)

/-- Prints paths without their last parts. -/
def dirname (call : Call) : Outcome :=
  call.withOptions 1 [] true fun _ operands =>
    if operands.isEmpty then call.refuse 1 "missing operand"
    else
      let front := fun (path : String) =>
        let parts := (pathParts path).dropLast
        if parts.isEmpty then (if path.startsWith "/" then "/" else ".")
        else
          match "/".intercalate parts with
          | "" => "/"
          | text => text
      call.printing (String.join (operands.map fun path => front path ++ "\n"))

/-- Whether a text is a length of time. -/
def isInterval (text : String) : Bool :=
  let body := match text.toList.reverse with
    | c :: rest => if "smhd".toList.contains c then rest.reverse else text.toList
    | [] => []
  !body.isEmpty && body.all (fun c => c.isDigit || c = '.') && body.any Char.isDigit &&
    body.count '.' ≤ 1

/-- Does nothing for a while. -/
def sleep (call : Call) : Outcome :=
  call.withOptions 1 [] true fun _ operands =>
    if operands.isEmpty then call.refuse 1 "missing operand"
    else
      match operands.find? fun text => !isInterval text with
      | some bad => call.refuse 1 ("invalid time interval " ++ quotedName bad)
      | none => Outcome.start call

end EsFront.Shell.Tool
