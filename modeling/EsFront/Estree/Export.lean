/-
Writing the typed tree as an ESTree value.

A node becomes an object with its tag, location, range, attributes and fields.
The program lists its statements as `body` and as `elements`, and all doc
comments, attached or not, in one list by position (`Export.comments`).
-/
import EsFront.Json.Basic
import EsFront.Syntax.Node

namespace EsFront

namespace Export

def position (p : Position) : Json :=
  .object [("line", .nat p.line.toNat), ("column", .nat p.column.toNat)]

def location (loc : SourceLocation) : Json :=
  let span := [("start", position loc.start), ("end", position loc.stop)]
  match loc.source with
  | some source => .object (span ++ [("source", .string source)])
  | none => .object span

def range (r : TextRange) : Json := .array [.nat r.start.toNat, .nat r.stop.toNat]

/-- A member that is left out when there is no value. -/
def optionalMember {α : Type} (key : String) (toJson : α → Json) : Option α → List (String × Json)
  | some a => [(key, toJson a)]
  | none => []

/-- Location and range, as far as they are known. -/
def place (loc : Option SourceLocation) (r : Option TextRange) : List (String × Json) :=
  optionalMember "loc" location loc ++ optionalMember "range" range r

/-- The value of a literal; a regular expression has its parts in `regex`. -/
def literal : LiteralValue → List (String × Json)
  | .null => [("value", .null)]
  | .boolean b => [("value", .bool b)]
  | .number d => [("value", .number (.double d))]
  | .string s => [("value", .string s)]
  | .regExp pattern flags =>
    [("regex", .object [("pattern", .string pattern), ("flags", .string flags)]),
      ("value", .null)]

/-- The attributes of a form. -/
def attributes {kind : NodeKind} {slots : List Slot} : Form kind slots → List (String × Json)
  | .program .. => [("sourceType", .string "script")]
  | .forInStatement => [("each", .bool false)]
  | .variableDeclaration kind => [("kind", .string kind.text)]
  | .functionDeclaration generator | .functionExpression generator =>
    [("generator", .bool generator), ("expression", .bool false)]
  | .identifier name _ _ => [("name", .string name)]
  | .literal value raw => literal value ++ optionalMember "raw" .string raw
  | .unaryExpression op => [("operator", .string op.text), ("prefix", .bool true)]
  | .updateExpression op before => [("operator", .string op.text), ("prefix", .bool before)]
  | .binaryExpression op => [("operator", .string op.text)]
  | .logicalExpression op => [("operator", .string op.text)]
  | .assignmentExpression op => [("operator", .string op.text)]
  | .memberExpression computed => [("computed", .bool computed)]
  | .property kind computed shorthand =>
    [("kind", .string kind.text), ("computed", .bool computed), ("shorthand", .bool shorthand),
      ("method", .bool false)]
  | .blockStatement | .emptyStatement | .expressionStatement | .ifStatement | .labeledStatement
  | .breakStatement | .continueStatement | .switchStatement | .returnStatement
  | .throwStatement | .tryStatement | .whileStatement | .doWhileStatement | .forStatement
  | .debuggerStatement | .thisExpression | .arrayExpression | .objectExpression
  | .conditionalExpression | .callExpression | .newExpression | .sequenceExpression
  | .variableDeclarator _ | .switchCase | .catchClause => []

/-- The value of a field: `null` for a missing node. -/
def fieldValue : (arity : Arity) → Value Json arity → Json
  | .one, value => value
  | .optional, value => value.getD .null
  | .list false, values => .array values
  | .list true, values => .array (values.map (·.getD .null))

/-- The fields under their names. -/
def fieldMembers : (slots : List Slot) → Values Json slots → List (String × Json)
  | [], _ => []
  | slot :: slots, (value, rest) =>
    (slot.name, fieldValue slot.arity value) :: fieldMembers slots rest

/-- The object of a node from those of its children. -/
def object {kind : NodeKind} {slots : List Slot} (data : NodeData) (form : Form kind slots)
    (values : Values Json slots) : Json :=
  .object (("type", .string kind.tag) :: place data.loc data.range ++ attributes form ++
    fieldMembers slots values)

def comment (c : Comment) : Json :=
  .object ([("type", .string c.kind.text), ("value", .string c.value)] ++ place c.loc c.range)

/-- Whether `a` may stand before `b` in the list of comments: by the start of
the range, then by span, what is missing first. -/
def precedes (a b : Comment) : Bool :=
  let byRange := compareOptions compare (a.range.map (·.start)) (b.range.map (·.start))
  let bySpan := compareOptions SourceLocation.cmpSpan a.loc b.loc
  (byRange.then bySpan) != .gt

/-- All comments of a program: the unattached ones and those of its nodes, by
position; equal ones keep their order. -/
def comments (program : Program) : List Comment :=
  match program with
  | .mk data _ fields =>
    let attached := (fields.entries data.id).flatMap (·.any.node.data.comments)
    (program.comments ++ attached).mergeSort precedes

end Export

/-- The ESTree value of a node that is no program. -/
def Node.toEstree {kind : NodeKind} (node : Node kind) : Json := node.fold Export.object

/-- The ESTree value of a program. -/
def Program.toEstree (program : Program) : Json :=
  match program with
  | .mk data form fields => match form, fields with
    | .program .., .cons body .nil =>
      let statements := Export.fieldValue (.list false) (body.fold Export.object)
      .object (("type", .string NodeKind.program.tag) :: Export.place data.loc data.range ++
        Export.attributes form ++
        [("body", statements), ("elements", statements),
          ("comments", .array ((Export.comments program).map Export.comment))])

end EsFront
