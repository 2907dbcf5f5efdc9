/-
Positions, locations and ranges of source text.

* `Position` orders by line, then column;
* `SourceLocation` orders by file name, start and end, a missing name first;
* `TextRange` is a pair of offsets.

Lines, columns and offsets are 32-bit words.
-/
namespace EsFront

/-- A line and a column. Lines count from one, columns from zero. -/
structure Position where
  line : UInt32
  column : UInt32
deriving DecidableEq, Repr, Inhabited

/-- The span of a node or a comment, and the file it is in. -/
structure SourceLocation where
  source : Option String
  start : Position
  stop : Position
deriving DecidableEq, Repr, Inhabited

/-- A pair of offsets into the source text. -/
structure TextRange where
  start : UInt32
  stop : UInt32
deriving DecidableEq, Repr, Inhabited

/-- Orders optional values: `none` before every value. -/
def compareOptions {α : Type} (cmp : α → α → Ordering) : Option α → Option α → Ordering
  | none, none => .eq
  | none, some _ => .lt
  | some _, none => .gt
  | some a, some b => cmp a b

namespace Position

/-- By line, then by column. -/
def cmp (a b : Position) : Ordering :=
  (compare a.line b.line).then (compare a.column b.column)

/-- `line:column`. -/
def text (p : Position) : String := toString p.line.toNat ++ ":" ++ toString p.column.toNat

end Position

namespace SourceLocation

/-- By start, then by end. -/
def cmpSpan (a b : SourceLocation) : Ordering :=
  (a.start.cmp b.start).then (a.stop.cmp b.stop)

/-- By file name, then by start and end. -/
def cmp (a b : SourceLocation) : Ordering :=
  (compareOptions compare a.source b.source).then (cmpSpan a b)

/-- `[start-end]`, after the file name if there is one. -/
def text (loc : SourceLocation) : String :=
  let span := "[" ++ loc.start.text ++ "-" ++ loc.stop.text ++ "]"
  match loc.source with
  | some source => source ++ " " ++ span
  | none => span

end SourceLocation

end EsFront
