/-
The printed form of a node.

What a place needs to know of the node that stands there is synthesized from
the leaves up, in one record `Printed`: its pieces at every level of
indentation, how tightly it binds, and how its text begins and ends.
`layout` makes the record of a node from those of its children; it puts in
parentheses what would otherwise be read differently.
-/
import EsFront.Json.Quoted
import EsFront.Number.Decimal
import EsFront.Print.Piece
import EsFront.Print.Precedence
import EsFront.Syntax.Node

namespace EsFront

/-- Pieces at each level of indentation. -/
abbrev Leveled := Nat → List Piece

/-- What is known of a printed node. -/
structure Printed where
  /-- The doc comments in front of it. -/
  comments : List Comment
  precedence : Precedence
  /-- Its text without those comments. -/
  pieces : Leveled
  /-- Its text in the head of a loop, where it differs: a declaration has no
  semicolon there and hides the operator `in`. -/
  inHead? : Option Leveled := none
  /-- The parameters and body of a function expression. -/
  accessor? : Option Leveled := none
  /-- Whether the text begins with `function` or an opening brace, which at
  the start of a statement would be read as a declaration or a block. -/
  opensStatement : Bool := false
  /-- Whether the operator `in` occurs outside all brackets. -/
  bareIn : Bool := false
  /-- Whether the text ends in an `if` without `else`. -/
  openIf : Bool := false
  /-- Whether a call occurs in the chain of objects, where the `new` in front
  would take its arguments for its own. -/
  containsCall : Bool := false
  /-- The text at the very front that a sign could fuse with. -/
  front : String := ""
  isNumber : Bool := false
  isIdentifier : Bool := false

namespace Printed

/-- The text where at least the given precedence is asked for. -/
def operand (p : Printed) (least : Precedence) (level : Nat) : List Piece :=
  if p.precedence < least then parenthesized (p.pieces level) else p.pieces level

/-- An expression in the head of a loop, where the operator `in` may stand only
in brackets. -/
def withoutIn (p : Printed) (least : Precedence) (level : Nat) : List Piece :=
  if p.bareIn then parenthesized (p.pieces level) else p.operand least level

/-- The text in the head of a loop. -/
def inHead (p : Printed) (level : Nat) : List Piece :=
  match p.inHead? with
  | some pieces => pieces level
  | none => p.withoutIn .lowest level

/-- A statement with its comments, each on a line of its own. -/
def statement (p : Printed) (level : Nat) : List Piece :=
  p.comments.flatMap (fun c => [.comment c, .line level]) ++ p.pieces level

/-- Statements, each on a line of its own. -/
def lines (ps : List Printed) (level : Nat) : List Piece :=
  ps.flatMap fun p => .line level :: p.statement level

/-- A blank and a text, if there is one. -/
def afterBlank (p : Option Printed) (level : Nat) : List Piece :=
  match p with
  | some p => .text " " :: p.pieces level
  | none => []

/-- Arguments or parameters in parentheses. -/
def arguments (ps : List Printed) (level : Nat) : List Piece :=
  parenthesized (commaSeparated (ps.map (·.operand .assignment level)))

end Printed

/-- The text of a literal. -/
def literalText (value : LiteralValue) (raw : Option String) : String :=
  match raw with
  | some text => text
  | none =>
    match value with
    | .null => "null"
    | .boolean b => if b then "true" else "false"
    | .number d => d.display
    | .string s => Json.quote s
    | .regExp pattern flags => "/" ++ pattern ++ "/" ++ flags

/-- The text in front of a literal that a sign could fuse with: all of its own
text, or the sign of a negative number. -/
def literalFront (value : LiteralValue) (raw : Option String) : String :=
  match raw, value with
  | some text, _ => text
  | none, .number d => if d.negative then "-" else ""
  | none, _ => ""

/-- Whether a sign would fuse with the text behind it. -/
def signClash (operator : UnaryOperator) (argument : Printed) : Bool :=
  (operator = .minus || operator = .plus) &&
    operator.text.toList.isPrefixOf argument.front.toList

/-- The pieces of a block. -/
def blockPieces (body : List Printed) (level : Nat) : List Piece :=
  if body.isEmpty then enclosed .curly []
  else enclosed .curly (Printed.lines body (level + 1) ++ [.line level])

/-- The parameters and body of a function. -/
def functionTail (params : List Printed) (body : Printed) (level : Nat) : List Piece :=
  parenthesized (commaSeparated (params.map (·.pieces level))) ++ .text " " :: body.pieces level

/-- The pieces of a function. -/
def functionPieces (generator : Bool) (name : Option Printed) (params : List Printed)
    (body : Printed) (level : Nat) : List Piece :=
  .text (if generator then "function*" else "function") ::
    (Printed.afterBlank name level ++ functionTail params body level)

/-- The pieces of an `if`. The consequent is put in braces when an `else` after
it would belong to an `if` inside it. -/
def ifPieces (test consequent : Printed) (alternate : Option Printed) (level : Nat) :
    List Piece :=
  let head := .text "if " :: (parenthesized (test.pieces level) ++ [.text " "])
  match alternate with
  | none => head ++ consequent.statement level
  | some alternate =>
    let inner :=
      if consequent.openIf then
        enclosed .curly (.line (level + 1) :: (consequent.statement (level + 1) ++ [.line level]))
      else consequent.statement level
    head ++ inner ++ .text " else " :: alternate.statement level

/-- The pieces of an operator between its operands. -/
def betweenPieces (left : List Piece) (operator : Piece) (right : List Piece) : List Piece :=
  left ++ .text " " :: operator :: .text " " :: right

/-- The pieces of an array. A hole at the end needs a comma of its own. -/
def arrayPieces (elements : List (Option Printed)) (level : Nat) : List Piece :=
  let part (element : Option Printed) : List Piece :=
    match element with
    | some e => e.operand .assignment level
    | none => []
  let last : List Piece :=
    match elements.getLast? with
    | some none => [.text ","]
    | _ => []
  enclosed .square (commaSeparated (elements.map part) ++ last)

/-- The pieces of an object. -/
def objectPieces (properties : List Printed) (level : Nat) : List Piece :=
  if properties.isEmpty then enclosed .curly []
  else
    enclosed .curly
      (.text " " :: (commaSeparated (properties.map (·.pieces level)) ++ [.text " "]))

/-- The pieces of a property. -/
def propertyPieces (kind : PropertyKind) (computed shorthand : Bool) (key value : Printed)
    (level : Nat) : List Piece :=
  let keyPieces :=
    if computed then enclosed .square (key.operand .assignment level)
    else key.operand .primary level
  match if kind = .init then none else value.accessor? with
  | some tail => .text (kind.text ++ " ") :: (keyPieces ++ tail level)
  | none =>
    if shorthand && !computed && value.isIdentifier then value.operand .assignment level
    else keyPieces ++ .text ": " :: value.operand .assignment level

/-- The pieces of a member access. The object is put in parentheses when it is
a number, whose point would be read as part of it. -/
def memberPieces (computed : Bool) (object property : Printed) (level : Nat) : List Piece :=
  let objectPieces :=
    if object.isNumber && !computed then parenthesized (object.pieces level)
    else object.operand .callMember level
  if computed then objectPieces ++ enclosed .square (property.pieces level)
  else objectPieces ++ .text "." :: property.operand .primary level

/-- The pieces of a declaration without the semicolon. -/
def declarationPieces (kind : DeclKind) (declarators : List (List Piece)) : List Piece :=
  .text (kind.text ++ " ") :: commaSeparated declarators

/-- The pieces of a declarator, given how its initial value is written. -/
def declaratorPieces (id : Printed) (init : Option Printed)
    (write : Printed → Precedence → Leveled) (level : Nat) : List Piece :=
  match init with
  | some init => id.pieces level ++ .text " = " :: write init .assignment level
  | none => id.pieces level

/-- The pieces of a part that stands in a `try` statement behind a word. -/
def tryPart (word : String) (part : Option Printed) (level : Nat) : List Piece :=
  match part with
  | some part => .text word :: part.pieces level
  | none => []

section

variable {kind : NodeKind} {slots : List Slot}

/-- A statement or clause with the given pieces. -/
def plain (comments : List Comment) (pieces : Leveled) : Printed :=
  { comments, precedence := .primary, pieces }

/-- An expression of the given form and pieces. -/
def expression (comments : List Comment) (form : Form kind slots) (pieces : Leveled) : Printed :=
  { comments, precedence := form.precedence, pieces }

/-- The printed form of a node from its comments and those of its children. -/
def layout (comments : List Comment) (form : Form kind slots) (values : Values Printed slots) :
    Printed :=
  match form, values with
  | .program .., (body, ()) =>
    plain comments fun level =>
      List.intercalate [.line level] (body.map fun p => p.statement level)
  | .blockStatement, (body, ()) => plain comments (blockPieces body)
  | .emptyStatement, () => plain comments fun _ => [.text ";"]
  | .expressionStatement, (e, ()) =>
    plain comments fun level =>
      (if e.opensStatement then parenthesized (e.pieces level) else e.pieces level) ++ [.text ";"]
  | .ifStatement, (test, consequent, alternate, ()) =>
    { plain comments (ifPieces test consequent alternate) with
      openIf := match alternate with
        | none => true
        | some alternate => alternate.openIf }
  | .labeledStatement, (label, body, ()) =>
    { plain comments (fun level => label.pieces level ++ .text ": " :: body.statement level) with
      openIf := body.openIf }
  | .breakStatement, (label, ()) =>
    plain comments fun level => .text "break" :: (Printed.afterBlank label level ++ [.text ";"])
  | .continueStatement, (label, ()) =>
    plain comments fun level => .text "continue" :: (Printed.afterBlank label level ++ [.text ";"])
  | .switchStatement, (discriminant, cases, ()) =>
    plain comments fun level =>
      .text "switch " :: (parenthesized (discriminant.pieces level) ++ .text " " ::
        enclosed .curly
          (cases.flatMap (fun c => .line (level + 1) :: c.pieces (level + 1)) ++ [.line level]))
  | .returnStatement, (argument, ()) =>
    plain comments fun level => .text "return" :: (Printed.afterBlank argument level ++ [.text ";"])
  | .throwStatement, (argument, ()) =>
    plain comments fun level => .text "throw " :: (argument.pieces level ++ [.text ";"])
  | .tryStatement, (block, handler, finalizer, ()) =>
    plain comments fun level =>
      .text "try " :: (block.pieces level ++ tryPart " catch " handler level ++
        tryPart " finally " finalizer level)
  | .whileStatement, (test, body, ()) =>
    { plain comments (fun level =>
        .text "while " :: (parenthesized (test.pieces level) ++ .text " " :: body.statement level))
      with openIf := body.openIf }
  | .doWhileStatement, (body, test, ()) =>
    plain comments fun level =>
      .text "do " :: (body.statement level ++ .text " while " ::
        (parenthesized (test.pieces level) ++ [.text ";"]))
  | .forStatement, (init, test, update, body, ()) =>
    { plain comments (fun level =>
        let head := match init with
          | some init => init.inHead level
          | none => []
        .text "for " :: (parenthesized
          (head ++ .text ";" :: (Printed.afterBlank test level ++ .text ";" ::
            Printed.afterBlank update level)) ++ .text " " :: body.statement level))
      with openIf := body.openIf }
  | .forInStatement, (left, right, body, ()) =>
    { plain comments (fun level =>
        .text "for " :: (parenthesized
          (left.inHead level ++ .text " in " :: right.pieces level) ++
            .text " " :: body.statement level))
      with openIf := body.openIf }
  | .debuggerStatement, () => plain comments fun _ => [.text "debugger;"]
  | .variableDeclaration declKind, (declarators, ()) =>
    { plain comments (fun level =>
        declarationPieces declKind (declarators.map (·.pieces level)) ++ [.text ";"])
      with inHead? := some fun level =>
        declarationPieces declKind (declarators.map (·.inHead level)) }
  | .variableDeclarator _, (id, init, ()) =>
    { plain comments (declaratorPieces id init Printed.operand) with
      inHead? := some (declaratorPieces id init Printed.withoutIn) }
  | .functionDeclaration generator, (id, params, body, ()) =>
    plain comments (functionPieces generator (some id) params body)
  | .switchCase, (test, consequent, ()) =>
    plain comments fun level =>
      (match test with
        | some test => .text "case " :: (test.pieces level ++ [.text ":"])
        | none => [.text "default:"]) ++ Printed.lines consequent (level + 1)
  | .catchClause, (param, body, ()) =>
    plain comments fun level =>
      parenthesized (param.pieces level) ++ .text " " :: body.pieces level
  | .property kind computed shorthand, (key, value, ()) =>
    plain comments (propertyPieces kind computed shorthand key value)
  | .identifier name _ _, () =>
    { expression comments form (fun _ => [.text name]) with isIdentifier := true }
  | .literal value raw, () =>
    { expression comments form (fun _ => [.text (literalText value raw)]) with
      front := literalFront value raw
      isNumber := match value with
        | .number _ => true
        | _ => false }
  | .thisExpression, () => expression comments form fun _ => [.text "this"]
  | .arrayExpression, (elements, ()) => expression comments form (arrayPieces elements)
  | .objectExpression, (properties, ()) =>
    { expression comments form (objectPieces properties) with opensStatement := true }
  | .functionExpression generator, (id, params, body, ()) =>
    { expression comments form (functionPieces generator id params body) with
      opensStatement := true
      accessor? := some (functionTail params body) }
  | .unaryExpression op, (argument, ()) =>
    { expression comments form (fun level =>
        .text (if op.isKeyword || signClash op argument then op.text ++ " " else op.text) ::
          argument.operand .unary level)
      with bareIn := argument.bareIn, front := op.text }
  | .updateExpression op before, (argument, ()) =>
    { expression comments form (fun level =>
        let inner := argument.operand .callMember level
        if before then .text op.text :: inner else inner ++ [.text op.text])
      with
        bareIn := argument.bareIn
        front := if before then op.text else ""
        opensStatement := !before && argument.opensStatement }
  | .binaryExpression op, (left, right, ()) =>
    { expression comments form (fun level =>
        betweenPieces (left.operand op.precedence.leftOperand level) (.operator op)
          (right.operand op.precedence.rightOperand level))
      with
        bareIn := op = .isIn || left.bareIn || right.bareIn
        opensStatement := left.opensStatement }
  | .logicalExpression op, (left, right, ()) =>
    { expression comments form (fun level =>
        betweenPieces (left.operand op.precedence.leftOperand level) (.text op.text)
          (right.operand op.precedence.rightOperand level))
      with bareIn := left.bareIn || right.bareIn, opensStatement := left.opensStatement }
  | .assignmentExpression op, (left, right, ()) =>
    { expression comments form (fun level =>
        betweenPieces (left.operand .callMember level) (.text op.text)
          (right.operand .assignment level))
      with bareIn := left.bareIn || right.bareIn, opensStatement := left.opensStatement }
  | .conditionalExpression, (test, consequent, alternate, ()) =>
    { expression comments form (fun level =>
        test.operand .logicalOr level ++ .text " ? " :: (consequent.operand .assignment level ++
          .text " : " :: alternate.operand .assignment level))
      with
        bareIn := test.bareIn || consequent.bareIn || alternate.bareIn
        opensStatement := test.opensStatement }
  | .callExpression, (callee, arguments, ()) =>
    { expression comments form (fun level =>
        callee.operand .callMember level ++ Printed.arguments arguments level)
      with
        bareIn := callee.bareIn
        opensStatement := callee.opensStatement
        containsCall := true }
  | .newExpression, (callee, arguments, ()) =>
    { expression comments form (fun level =>
        let calleePieces :=
          if callee.containsCall then parenthesized (callee.pieces level)
          else callee.operand .callMember level
        .text "new " :: (calleePieces ++ Printed.arguments arguments level))
      with bareIn := callee.bareIn }
  | .memberExpression computed, (object, property, ()) =>
    { expression comments form (memberPieces computed object property) with
      bareIn := object.bareIn
      opensStatement := object.opensStatement
      containsCall := object.containsCall }
  | .sequenceExpression, (expressions, ()) =>
    { expression comments form (fun level =>
        commaSeparated (expressions.map (·.operand .assignment level)))
      with
        bareIn := expressions.any (·.bareIn)
        opensStatement := match expressions with
          | first :: _ => first.opensStatement
          | [] => false }

end

/-- The printed form of a node, with the doc comments of all nodes or without. -/
def Node.printed {kind : NodeKind} (withComments : Bool) (node : Node kind) : Printed :=
  node.fold fun data form values =>
    layout (if withComments then data.comments else []) form values

end EsFront
