/-
Patterns of the shell.

A pattern stands for texts: `*` for any text, `?` for any character, a list in
brackets for one of its characters, everything else for itself. Quoted
characters always stand for themselves.

* `Pattern.ofMarked` — reads a pattern;
* `Pattern.accepts` — whether a text fits;
* `Pattern.Trim.cut` — takes a part that fits off a text.
-/
namespace EsFront.Shell

/-- A character and whether it was quoted. -/
structure Marked where
  char : Char
  quoted : Bool
deriving DecidableEq, Repr, Inhabited

/-- A part of a pattern. -/
inductive Glyph where
  | char (c : Char)
  | anyChar
  | anyText
  /-- One character of the ranges, or one of none of them. -/
  | oneOf (negated : Bool) (ranges : List (Char × Char))
deriving DecidableEq, Repr, Inhabited

abbrev Pattern := List Glyph

namespace Pattern

/-- Whether a part fits a character. -/
def fits (glyph : Glyph) (c : Char) : Bool :=
  match glyph with
  | .char d => c = d
  | .anyChar | .anyText => true
  | .oneOf negated ranges => ranges.any (fun (low, high) => low ≤ c && c ≤ high) != negated

/-- Whether a pattern stands for a text. -/
def accepts : Pattern → List Char → Bool
  | [], [] => true
  | [], _ :: _ => false
  | .anyText :: rest, [] => accepts rest []
  | .anyText :: rest, c :: cs => accepts rest (c :: cs) || accepts (.anyText :: rest) cs
  | _ :: _, [] => false
  | glyph :: rest, c :: cs => fits glyph c && accepts rest cs
termination_by pattern text => pattern.length + text.length

/-- The ranges of a list in brackets. -/
def ranges : List Char → List (Char × Char)
  | low :: '-' :: high :: rest => (low, high) :: ranges rest
  | c :: rest => (c, c) :: ranges rest
  | [] => []

/-- A list in brackets, after the opening one, and the number of characters it
takes. -/
def bracket? (text : List Marked) : Option (Glyph × Nat) :=
  let negated := match text.head? with
    | some ⟨'!', false⟩ | some ⟨'^', false⟩ => true
    | _ => false
  let body := if negated then text.drop 1 else text
  let first := body.take 1
  let inner := (body.drop 1).takeWhile fun m => m.char ≠ ']' || m.quoted
  if first.isEmpty || (body.drop (1 + inner.length)).isEmpty then none
  else
    let members := (first ++ inner).map (·.char)
    some (.oneOf negated (ranges members), (if negated then 1 else 0) + members.length + 1)

/-- Reads a pattern. The first argument counts characters already used up. -/
def ofMarkedFrom : Nat → List Marked → Pattern
  | _, [] => []
  | used + 1, _ :: rest => ofMarkedFrom used rest
  | 0, m :: rest =>
    if m.quoted then .char m.char :: ofMarkedFrom 0 rest
    else
      match m.char with
      | '*' => .anyText :: ofMarkedFrom 0 rest
      | '?' => .anyChar :: ofMarkedFrom 0 rest
      | '[' =>
        match bracket? rest with
        | some (glyph, used) => glyph :: ofMarkedFrom used rest
        | none => .char '[' :: ofMarkedFrom 0 rest
      | c => .char c :: ofMarkedFrom 0 rest

/-- Reads a pattern. -/
def ofMarked (text : List Marked) : Pattern := ofMarkedFrom 0 text

/-- Whether a pattern stands for more than one text. -/
def isOpen (pattern : Pattern) : Bool :=
  pattern.any fun
    | .char _ => false
    | _ => true

/-- Which part that fits is cut off a text. -/
structure Trim where
  atEnd : Bool
  longest : Bool
deriving DecidableEq, Repr, Inhabited

/-- Cuts the shortest or longest part that fits off the front or the end. -/
def Trim.cut (trim : Trim) (pattern : Pattern) (text : List Char) : List Char :=
  let lengths := List.range (text.length + 1)
  let lengths := if trim.longest then lengths.reverse else lengths
  let cuts := lengths.map fun n =>
    if trim.atEnd then (text.drop (text.length - n), text.take (text.length - n))
    else (text.take n, text.drop n)
  match cuts.find? fun (part, _) => pattern.accepts part with
  | some (_, kept) => kept
  | none => text

end Pattern

end EsFront.Shell
