/-
Attaching doc comments to nodes.

The index holds the doc comments that no node has claimed, by the line on
which they end, and for each tag the nodes that carry it. A node that starts
on line `L` claims the comments that end on line `L - 1` and then those that
end on line `L`. A claimed comment leaves the index, so none is claimed twice.
-/
import EsFront.Collections.MultiMap
import EsFront.Comments.Directive

namespace EsFront

/-- The comments that are not attached yet, and the directives found so far. -/
structure CommentIndex where
  byLine : MultiMap UInt32 Comment
  directives : DirectiveIndex
deriving DecidableEq, Repr, Inhabited

namespace CommentIndex

def empty : CommentIndex := ⟨.empty, .empty⟩

/-- Puts a doc comment into the index and passes over any other comment. Gives
the text of a doc comment that has no line. -/
def addOne (index : CommentIndex) (comment : Comment) : Except String CommentIndex :=
  if comment.isDoc then
    match comment.endLine? with
    | some line => .ok { index with byLine := index.byLine.insert line comment }
    | none => .error comment.value
  else .ok index

/-- Puts comments into the index until a doc comment has no line; gives the
index so far and the text of that comment. -/
def add (index : CommentIndex) : List Comment → CommentIndex × Option String
  | [] => (index, none)
  | comment :: rest =>
    match index.addOne comment with
    | .ok next => next.add rest
    | .error text => (index, some text)

/-- Takes out the comments for a node that starts on the given line. -/
def claim (index : CommentIndex) (line : UInt32) : List Comment × CommentIndex :=
  let (above, rest) :=
    if 0 < line then index.byLine.take (line - 1) else ([], index.byLine)
  let (same, rest) := rest.take line
  (above ++ same, { index with byLine := rest })

/-- Records that a node carries a tag. -/
def recordTag (node : NodeId) (index : DirectiveIndex) (directive : Directive) : DirectiveIndex :=
  index.update directive.tag [] (· ++ [node])

/-- Parses the directives of comments that now belong to a node, and records
the node once for each. -/
def record (index : CommentIndex) (node : NodeId) (comments : List Comment) :
    List Directive × CommentIndex :=
  let found := comments.flatMap Comment.directives
  (found, { index with directives := found.foldl (recordTag node) index.directives })

/-- Whether `a` may stand before `b` among the unattached comments: by span,
then by the start of the range, what is missing first. -/
def precedes (a b : Comment) : Bool :=
  let bySpan := compareOptions SourceLocation.cmpSpan a.loc b.loc
  let byRange := compareOptions compare (a.range.map (·.start)) (b.range.map (·.start))
  (bySpan.then byRange) != .gt

/-- Takes out all comments that are left, in order of position. -/
def takeRest (index : CommentIndex) : List Comment × CommentIndex :=
  (index.byLine.values.mergeSort precedes, { index with byLine := .empty })

end CommentIndex

end EsFront
