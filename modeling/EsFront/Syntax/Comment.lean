/-
Comments, directives, and the data every node carries.

A doc comment is one whose text starts with `*`. Its directives
`@tag {param} name` are found by `EsFront.Comments.Directive`; the directive
index lists, for each tag, the nodes that carry it.
-/
import EsFront.Source.Location
import EsFront.Collections.OrderedMap
import EsFront.Syntax.Operator

namespace EsFront

/-- The number of a node within its program. Numbers of 32 bits are meant: a
program is taken to have fewer than `2 ^ 32` nodes, and then nothing depends on
their bound. -/
abbrev NodeId := Nat

/-- A comment; its text is without the delimiters. -/
structure Comment where
  kind : CommentKind
  value : String
  loc : Option SourceLocation
  range : Option TextRange
deriving DecidableEq, Repr, Inhabited

namespace Comment

/-- Whether the comment is a doc comment. -/
def isDoc (c : Comment) : Bool := c.value.toList.head? = some '*'

/-- The line on which the comment ends. -/
def endLine? (c : Comment) : Option UInt32 := c.loc.map (·.stop.line)

end Comment

/-- One `@tag {param} name` of a doc comment. -/
structure Directive where
  /-- The kind of the comment it stands in. -/
  kind : CommentKind
  tag : String
  param : String
  /-- Empty when nothing is named. -/
  name : String
  /-- The text as it was written, after `* `. -/
  rawText : String
deriving DecidableEq, Repr, Inhabited

namespace Directive

/-- The normal spelling of a directive. -/
def text (d : Directive) : String :=
  let head := "@" ++ d.tag ++ " \x7b" ++ d.param ++ "\x7d"
  if d.name.isEmpty then head else head ++ " " ++ d.name

end Directive

/-- For each tag the nodes that carry it, once per directive, in order of
discovery. -/
abbrev DirectiveIndex := OrderedMap String (List NodeId)

/-- What every node carries besides its form. -/
structure NodeData where
  id : NodeId
  loc : Option SourceLocation
  range : Option TextRange
  /-- The doc comments attached to the node. -/
  comments : List Comment
  /-- The directives of those comments. -/
  directives : List Directive
deriving DecidableEq, Repr, Inhabited

end EsFront
