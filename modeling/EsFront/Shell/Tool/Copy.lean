/-
Tools that copy files.

`cat` copies whole files, `head` and `tail` their beginnings and ends, `tac`
their lines in reverse, `sort` their lines in order, and `tee` copies the input
to files.
-/
import EsFront.Shell.Tool.Basic

namespace EsFront.Shell.Tool

/-! ### Whole files -/

/-- What `cat` adds to what it copies. -/
structure CatStyle where
  number : Bool
  /-- Only lines that are not empty are numbered. -/
  numberFilled : Bool
  squeeze : Bool
  showEnds : Bool
  showTabs : Bool
  showControls : Bool
deriving DecidableEq, Repr

def catRules : List OptionRule :=
  [⟨'b', "number-nonblank", false⟩, ⟨'n', "number", false⟩, ⟨'s', "squeeze-blank", false⟩,
    ⟨'v', "show-nonprinting", false⟩, ⟨'E', "show-ends", false⟩, ⟨'T', "show-tabs", false⟩,
    ⟨'A', "show-all", false⟩, ⟨'e', "", false⟩, ⟨'t', "", false⟩, ⟨'u', "", false⟩]

def CatStyle.ofGiven (given : List Given) : CatStyle :=
  let has := fun (letters : List Char) => given.any fun g => letters.contains g.letter
  { number := has ['n', 'b']
    numberFilled := has ['b']
    squeeze := has ['s']
    showEnds := has ['E', 'e', 'A']
    showTabs := has ['T', 't', 'A']
    showControls := has ['v', 'e', 't', 'A'] }

/-- Whether nothing is added. -/
def CatStyle.isPlain (style : CatStyle) : Bool :=
  style = ⟨false, false, false, false, false, false⟩

/-- A control character or a plain one, in the lower half of the bytes. -/
def showLow (n : Nat) : String :=
  if n < 32 then "^" ++ (Char.ofNat (n + 64)).toString
  else if n = 127 then "^?"
  else (Char.ofNat n).toString

/-- How a byte within a line is shown. -/
def CatStyle.show (style : CatStyle) (b : UInt8) : Bytes :=
  if b = 9 then if style.showTabs then utf8 "^I" else [b]
  else if !style.showControls then [b]
  else if b.toNat < 128 then utf8 (showLow b.toNat)
  else utf8 ("M-" ++ showLow (b.toNat - 128))

/-- How far `cat` has come: the number of the last line, how many line ends
stand just before, counted up to three, and what was written, reversed. -/
structure CatState where
  line : Nat := 0
  ends : Nat := 1
  written : Bytes := []
deriving Repr

/-- The number in front of a line. -/
def lineNumber (n : Nat) : String :=
  let digits := toString n
  String.ofList (List.replicate (6 - digits.length) ' ') ++ digits ++ "\t"

def CatState.write (state : CatState) (bytes : Bytes) : CatState :=
  { state with written := bytes.reverse ++ state.written }

def CatState.number (state : CatState) : CatState :=
  { state with line := state.line + 1 }.write (utf8 (lineNumber (state.line + 1)))

/-- Copies one byte. -/
def CatStyle.step (style : CatStyle) (state : CatState) (b : UInt8) : CatState :=
  let lineEnd : Bytes := if style.showEnds then [36, 10] else [10]
  if b = 10 then
    if state.ends = 0 then { state with ends := 1 }.write lineEnd
    else
      let ends := min (state.ends + 1) 3
      let next := { state with ends }
      if ends = 3 && style.squeeze then next
      else
        let next := if style.number && !style.numberFilled then next.number else next
        next.write lineEnd
  else
    let next := if state.ends > 0 && style.number then state.number else state
    { next with ends := 0 }.write (style.show b)

/-- Copies the named files, or the input. -/
def cat (call : Call) : Outcome :=
  call.withOptions 1 catRules true fun given operands =>
    let style := CatStyle.ofGiven given
    let files := if operands.isEmpty then ["-"] else operands
    let step := fun ((outcome, state) : Outcome × CatState) (path : String) =>
      match outcome.readFile path with
      | (.error e, outcome) =>
        (outcome.complain 1 (call.name ++ ": " ++ shownName path ++ ": " ++ e.reason), state)
      | (.ok bytes, outcome) =>
        if style.isPlain then (outcome.print bytes, state)
        else
          let state := bytes.foldl style.step state
          (outcome.print state.written.reverse, { state with written := [] })
    (files.foldl step (Outcome.start call, {})).1

/-! ### Lines -/

/-- The lines of a file, each with its end. -/
def linesOf (bytes : Bytes) : List Bytes :=
  bytes.foldr (fun b lines =>
    if b = 10 then [b] :: lines
    else
      match lines with
      | [] => [[b]]
      | line :: rest => (b :: line) :: rest) []

/-- Copies the lines of each file in reverse. -/
def tac (call : Call) : Outcome :=
  call.withOptions 1 [⟨'b', "before", false⟩, ⟨'r', "regex", false⟩] true fun _ operands =>
    let files := if operands.isEmpty then ["-"] else operands
    files.foldl (fun outcome path =>
      match outcome.readFile path with
      | (.ok bytes, outcome) => outcome.print (linesOf bytes).reverse.flatten
      | (.error .isADirectory, outcome) =>
        outcome.complain 1 (call.name ++ ": " ++ shownName path ++ ": read error: Invalid argument")
      | (.error e, outcome) =>
        outcome.complain 1
          (call.name ++ ": failed to open " ++ quotedName path ++ " for reading: " ++ e.reason))
      (Outcome.start call)

/-- Whether bytes come before others. -/
def bytesBefore : Bytes → Bytes → Bool
  | [], _ => true
  | _ :: _, [] => false
  | a :: as, b :: bs => a < b || (a = b && bytesBefore as bs)

/-- Copies the lines of all files in order. -/
def sort (call : Call) : Outcome :=
  call.withOptions 2 [⟨'r', "reverse", false⟩, ⟨'u', "unique", false⟩] true
    fun given operands =>
      let files := if operands.isEmpty then ["-"] else operands
      let has := fun (letter : Char) => given.any fun g => g.letter = letter
      let read := files.foldl (fun ((outcome, lines) : Outcome × List Bytes) path =>
        match outcome.readFile path with
        | (.ok bytes, outcome) =>
          (outcome, lines ++ (linesOf bytes).map fun line => line.filter (· ≠ 10))
        | (.error .isADirectory, outcome) =>
          (outcome.complain 2
            (call.name ++ ": read failed: " ++ shownName path ++ ": Is a directory"), lines)
        | (.error e, outcome) =>
          (outcome.complain 2
            (call.name ++ ": cannot read: " ++ shownName path ++ ": " ++ e.reason), lines))
        (Outcome.start call, [])
      let (outcome, lines) := read
      if outcome.status ≠ 0 then outcome
      else
        let sorted := lines.mergeSort bytesBefore
        let sorted := if has 'u' then sorted.eraseDups else sorted
        let sorted := if has 'r' then sorted.reverse else sorted
        outcome.print (sorted.flatMap fun line => line ++ [10])

/-! ### Beginnings and ends -/

/-- A part of a file: how much of it, counted in lines or bytes, and from which
end. -/
structure Extent where
  inBytes : Bool
  /-- All but so much, or from there on. -/
  opposite : Bool
  size : Nat
deriving DecidableEq, Repr

/-- What a letter behind a number multiplies it with. -/
def multiplier? : String → Option Nat
  | "" => some 1
  | "b" => some 512
  | "kB" => some 1000
  | "k" | "K" | "KiB" => some 1024
  | "MB" => some 1000000
  | "m" | "M" | "MiB" => some 1048576
  | "GB" => some 1000000000
  | "G" | "GiB" => some 1073741824
  | _ => none

/-- The number that a text gives, with a letter that multiplies it. -/
def size? (text : String) : Option Nat :=
  let digits := text.toList.takeWhile Char.isDigit
  if digits.isEmpty then none
  else
    let n := digits.foldl (fun n c => 10 * n + (c.toNat - '0'.toNat)) 0
    (multiplier? (String.ofList (text.toList.drop digits.length))).map (n * ·)

/-- The extent that an option gives; `sign` counts from the other end. -/
def extent? (sign : Char) (inBytes : Bool) (text : String) : Option Extent :=
  match text.toList with
  | c :: rest =>
    if c = sign then (size? (String.ofList rest)).map (⟨inBytes, true, ·⟩)
    else if c = '-' || c = '+' then (size? (String.ofList rest)).map (⟨inBytes, false, ·⟩)
    else (size? text).map (⟨inBytes, false, ·⟩)
  | [] => none

/-- The beginning of a file. -/
def Extent.front (extent : Extent) (bytes : Bytes) : Bytes :=
  let keep := fun (length : Nat) => if extent.opposite then length - extent.size else extent.size
  if extent.inBytes then bytes.take (keep bytes.length)
  else
    let lines := linesOf bytes
    (lines.take (keep lines.length)).flatten

/-- The end of a file. -/
def Extent.back (extent : Extent) (bytes : Bytes) : Bytes :=
  let skip := fun (length : Nat) =>
    if extent.opposite then extent.size - 1 else length - extent.size
  if extent.inBytes then bytes.drop (skip bytes.length)
  else
    let lines := linesOf bytes
    (lines.drop (skip lines.length)).flatten

/-- How a part of a file is named and taken. -/
structure Excerpt where
  sign : Char
  take : Extent → Bytes → Bytes
  /-- Whether input that is not copied stays unread. -/
  leavesRest : Bool

def excerptRules : List OptionRule :=
  [⟨'c', "bytes", true⟩, ⟨'n', "lines", true⟩, ⟨'q', "quiet", false⟩, ⟨'q', "silent", false⟩,
    ⟨'v', "verbose", false⟩]

/-- The extent that options give, or the one that cannot be read. -/
def Excerpt.extent (excerpt : Excerpt) (given : List Given) : Except String Extent :=
  given.foldlM (fun extent g =>
    let read := fun (inBytes : Bool) (noun : String) =>
      let text := g.value.getD ""
      match extent? excerpt.sign inBytes text with
      | some extent => .ok extent
      | none => .error ("invalid number of " ++ noun ++ ": " ++ quotedName text)
    match g.letter with
    | 'c' => read true "bytes"
    | 'n' => read false "lines"
    | _ => .ok extent) ⟨false, false, 10⟩

/-- A number of lines that is given right behind a dash. -/
def Excerpt.expandCount (excerpt : Excerpt) : List String → List String
  | first :: rest =>
    match first.toList with
    | '-' :: c :: more =>
      if c.isDigit && more.all Char.isDigit then "-n" :: String.ofList (c :: more) :: rest
      else first :: rest
    | '+' :: c :: more =>
      if excerpt.sign = '+' && c.isDigit && more.all Char.isDigit then "-n" :: first :: rest
      else first :: rest
    | _ => first :: rest
  | [] => []

/-- Copies a part of each file, under its name if there are several. -/
def Excerpt.run (excerpt : Excerpt) (call : Call) : Outcome :=
  let call := { call with args := excerpt.expandCount call.args }
  call.withOptions 1 excerptRules true fun given operands =>
    match excerpt.extent given with
    | .error reason => call.failing 1 (call.name ++ ": " ++ reason)
    | .ok extent =>
      let files := if operands.isEmpty then ["-"] else operands
      let titled := given.any (·.letter = 'v') ||
        (files.length > 1 && !given.any (·.letter = 'q'))
      let title := fun (first : Bool) (path : String) =>
        if !titled then ""
        else
          (if first then "" else "\n") ++ "==> " ++
            (if path = "-" then "standard input" else path) ++ " <==\n"
      let step := fun ((outcome, first) : Outcome × Bool) (path : String) =>
        match outcome.readFile path with
        | (.ok bytes, outcome) =>
          let taken := excerpt.take extent bytes
          let outcome :=
            if path = "-" && excerpt.leavesRest then
              { outcome with rest := bytes.drop taken.length }
            else outcome
          (outcome.print (utf8 (title first path) ++ taken), false)
        | (.error .isADirectory, outcome) =>
          ((outcome.print (utf8 (title first path))).complain 1
            (call.name ++ ": error reading " ++ quotedName path ++ ": Is a directory"), false)
        | (.error e, outcome) =>
          (outcome.complain 1 (call.name ++ ": cannot open " ++ quotedName path ++
            " for reading: " ++ e.reason), first)
      (files.foldl step (Outcome.start call, true)).1

/-- Copies the beginning of each file. -/
def head (call : Call) : Outcome := Excerpt.run ⟨'-', Extent.front, true⟩ call

/-- Copies the end of each file. -/
def tail (call : Call) : Outcome := Excerpt.run ⟨'+', Extent.back, false⟩ call

/-! ### Copies of the input -/

/-- Copies the input to the named files and prints it. -/
def tee (call : Call) : Outcome :=
  call.withOptions 1 [⟨'a', "append", false⟩, ⟨'i', "ignore-interrupts", false⟩] true
    fun given operands =>
      let append := given.any (·.letter = 'a')
      let (input, start) := (Outcome.start call).drain
      let step := fun (outcome : Outcome) (path : String) =>
        match outcome.workspace.find path with
        | .ok (.file p old) =>
          let kept := if append then old.bytes else []
          { outcome with workspace := outcome.workspace.put p (.ofBytes (kept ++ input)) }
        | .ok (.free p) =>
          { outcome with workspace := outcome.workspace.put p (.ofBytes input) }
        | .ok (.device _) => outcome
        | .ok (.directory _) | .ok .missingDirectory =>
          outcome.complain 1 (call.name ++ ": " ++ shownName path ++ ": Is a directory")
        | .error e => outcome.complain 1 (call.name ++ ": " ++ shownName path ++ ": " ++ e.reason)
      (operands.foldl step start).print input

end EsFront.Shell.Tool
