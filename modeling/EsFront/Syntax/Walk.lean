/-
Walking a tree with hooks.

A visitor is told of every walked node when it is entered, before its
children, and when it is left, after them. On leaving, it may give another
node, which takes the place of the one that is left (`Visitor`).

What a replacement must be depends on the hook. Kinds that stand in places of
their own — programs, blocks, identifiers, declarations, clauses and
properties — are replaced by a node of the same kind; all others by any
statement or any expression. A block, a declaration or an identifier in a
place for every statement or every expression is left twice: first as what it
is, then as what the place asks for (`placedHook?`).

* `Hook.returns` — what a replacement must be;
* `Child.walk` — walks a node in its place;
* `Program.walk` — walks a whole program.

Replacements are not walked.
-/
import EsFront.Syntax.Node

namespace EsFront

/-- The moments at which a visitor may replace a node. -/
inductive Hook where
  /-- A node of the given kind is left. -/
  | exit (kind : NodeKind)
  /-- A block, declaration or identifier is left as a statement or expression. -/
  | exitPlaced (kind : NodeKind)
deriving DecidableEq, Repr, Inhabited

/-- The name of a kind in the names of hooks. -/
def NodeKind.hookName : NodeKind → String
  | program => "program"
  | blockStatement => "block"
  | emptyStatement => "empty_statement"
  | expressionStatement => "expression_statement"
  | ifStatement => "if_statement"
  | labeledStatement => "labeled_statement"
  | breakStatement => "break_statement"
  | continueStatement => "continue_statement"
  | switchStatement => "switch_statement"
  | returnStatement => "return_statement"
  | throwStatement => "throw_statement"
  | tryStatement => "try_statement"
  | whileStatement => "while_statement"
  | doWhileStatement => "do_while_statement"
  | forStatement => "for_statement"
  | forInStatement => "for_in_statement"
  | debuggerStatement => "debugger_statement"
  | variableDeclaration => "variable_declaration"
  | functionDeclaration => "function_declaration"
  | identifier => "identifier"
  | literal => "literal"
  | thisExpression => "this_expression"
  | arrayExpression => "array_expression"
  | objectExpression => "object_expression"
  | functionExpression => "function_expression"
  | unaryExpression => "unary_expression"
  | updateExpression => "update_expression"
  | binaryExpression => "binary_expression"
  | logicalExpression => "logical_expression"
  | assignmentExpression => "assignment_expression"
  | conditionalExpression => "conditional_expression"
  | callExpression => "call_expression"
  | newExpression => "new_expression"
  | memberExpression => "member_expression"
  | sequenceExpression => "sequence_expression"
  | variableDeclarator => "variable_declarator"
  | property => "property"
  | switchCase => "switch_case"
  | catchClause => "catch_clause"

/-- What a node that replaces one of this kind must be. -/
def NodeKind.replacement : NodeKind → Capability
  | program => .program
  | blockStatement => .block
  | variableDeclaration => .variableDeclaration
  | variableDeclarator => .variableDeclarator
  | identifier => .identifier
  | property => .property
  | switchCase => .switchCase
  | catchClause => .catchClause
  | kind => if kind.isExpression then .expression else .statement

namespace Hook

/-- What a replacement must be. -/
def returns : Hook → Capability
  | exit kind => kind.replacement
  | exitPlaced kind => if kind.isExpression then .expression else .statement

def name : Hook → String
  | exit kind => "exit_" ++ kind.hookName
  | exitPlaced .variableDeclaration => "exit_variable_statement"
  | exitPlaced kind =>
    "exit_" ++ kind.hookName ++ if kind.isExpression then "_expression" else "_statement"

end Hook

/-- The second hook of a node that stands in a place for more than its kind. -/
def placedHook? (holds : Capability) (kind : NodeKind) : Option Hook :=
  match holds, kind with
  | .statement, .blockStatement | .statement, .variableDeclaration
  | .expression, .identifier | .loopHead, .identifier => some (.exitPlaced kind)
  | _, _ => none

/-- A place accepts what may replace the node that stands there. -/
theorem accepts_of_replacement {holds : Capability} {kind other : NodeKind}
    (accepted : holds.accepts kind = true) (h : kind.replacement.accepts other = true) :
    holds.accepts other = true := by
  cases kind <;> cases holds <;> first
    | exact h
    | (exact absurd accepted (by decide))
    | (cases of_decide_eq_true h; rfl)
    | (have e : other.isExpression = true := h; simp [Capability.accepts, e])

/-- A place accepts what the second hook of its node may give. -/
theorem accepts_of_placed {holds : Capability} {kind other : NodeKind} {hook : Hook}
    (placed : placedHook? holds kind = some hook) (h : hook.returns.accepts other = true) :
    holds.accepts other = true := by
  unfold placedHook? at placed
  split at placed <;> simp at placed <;> subst placed <;>
    simp_all [Hook.returns, Capability.accepts, NodeKind.isExpression, NodeKind.category]

/-- A block is a statement. -/
theorem statement_of_block {kind : NodeKind} (h : Capability.block.accepts kind = true) :
    Capability.statement.accepts kind = true := by
  cases of_decide_eq_true h
  rfl

/-- Hooks on a state of type `σ`. -/
structure Visitor (σ : Type) where
  /-- A node is entered. -/
  enter : AnyNode → σ → σ
  /-- A node is left, with its children as they are now; it may be replaced. -/
  exit : (hook : Hook) → AnyNode → σ → Option (Child hook.returns) × σ

namespace Visitor

variable {σ : Type} (visitor : Visitor σ)

/-- Runs one hook on a node in its place. -/
def runHook {holds : Capability} (hook : Hook)
    (accepts : ∀ kind, hook.returns.accepts kind = true → holds.accepts kind = true)
    (child : Child holds) (state : σ) : Child holds × σ :=
  match visitor.exit hook child.toAny state with
  | (some other, state) => (⟨other.kind, other.node, accepts _ other.accepted⟩, state)
  | (none, state) => (child, state)

/-- Leaves a node in its place. -/
def leave {holds : Capability} (child : Child holds) (state : σ) : Child holds × σ :=
  let (left, state) := visitor.runHook (.exit child.kind)
    (fun _ => accepts_of_replacement child.accepted) child state
  match placed : placedHook? holds child.kind with
  | some hook => visitor.runHook hook (fun _ => accepts_of_placed placed) left state
  | none => (left, state)

end Visitor

section walk

variable {σ : Type} (visitor : Visitor σ)

mutual

/-- Enters a node and walks its children. -/
def Node.walkInside {kind : NodeKind} : Node kind → σ → Node kind × σ
  | .mk data form fields, state =>
    let state := visitor.enter ⟨kind, .mk data form fields⟩ state
    let (fields, state) := fields.walk state
    (.mk data form fields, state)

def Fields.walk {slots : List Slot} : Fields slots → σ → Fields slots × σ
  | .nil, state => (.nil, state)
  | @Fields.cons slot _ field rest, state =>
    if slot.role.isWalked then
      let (field, state) := field.walk state
      let (rest, state) := rest.walk state
      (.cons field rest, state)
    else
      let (rest, state) := rest.walk state
      (.cons field rest, state)

def Field.walk {arity : Arity} {holds : Capability} :
    Field arity holds → σ → Field arity holds × σ
  | .one node accepted, state =>
    let (node, state) := node.walkInside state
    let (child, state) := visitor.leave ⟨_, node, accepted⟩ state
    (.one child.node child.accepted, state)
  | .absent, state => (.absent, state)
  | .present node accepted, state =>
    let (node, state) := node.walkInside state
    let (child, state) := visitor.leave ⟨_, node, accepted⟩ state
    (.present child.node child.accepted, state)
  | .nil, state => (.nil, state)
  | .cons node accepted rest, state =>
    let (node, state) := node.walkInside state
    let (child, state) := visitor.leave ⟨_, node, accepted⟩ state
    let (rest, state) := rest.walk state
    (.cons child.node child.accepted rest, state)
  | .hole rest, state =>
    let (rest, state) := rest.walk state
    (.hole rest, state)

end

/-- Walks a node in its place. -/
def Child.walk {holds : Capability} (child : Child holds) (state : σ) : Child holds × σ :=
  let (node, state) := child.node.walkInside visitor state
  visitor.leave ⟨child.kind, node, child.accepted⟩ state

/-- The node in a place for programs is a program. -/
def Child.toProgram : Child .program → Program
  | ⟨.program, node, _⟩ => node

/-- Walks a whole program. -/
def Program.walk (program : Program) (state : σ) : Program × σ :=
  let child : Child .program := ⟨.program, program, rfl⟩
  let (left, state) := child.walk visitor state
  (left.toProgram, state)

/-- Walks the inside of a statement: a block by itself, or the expression of an
expression statement. Other statements are walked in their place. -/
def Child.walkInner (statement : Child .statement) (state : σ) : Child .statement × σ :=
  match statement with
  | ⟨.blockStatement, node, _⟩ =>
    let (block, state) := Child.walk visitor (⟨.blockStatement, node, rfl⟩ : Child .block) state
    (⟨block.kind, block.node, statement_of_block block.accepted⟩, state)
  | ⟨.expressionStatement, .mk data .expressionStatement fields, accepted⟩ =>
    let (fields, state) := fields.walk visitor state
    (⟨.expressionStatement, .mk data .expressionStatement fields, accepted⟩, state)
  | statement => statement.walk visitor state

end walk

section nth

variable {σ : Type}

/-- Applies a step to one entry of a list field. -/
def Field.updateNth {arity : Arity} {holds : Capability}
    (step : Child holds → σ → Child holds × σ) : Nat → Field arity holds → σ → Field arity holds × σ
  | 0, .cons node accepted rest, state =>
    let (child, state) := step ⟨_, node, accepted⟩ state
    (.cons child.node child.accepted rest, state)
  | n + 1, .cons node accepted rest, state =>
    let (rest, state) := rest.updateNth step n state
    (.cons node accepted rest, state)
  | n + 1, .hole rest, state =>
    let (rest, state) := rest.updateNth step n state
    (.hole rest, state)
  | _, field, state => (field, state)

/-- Applies a step to one statement of a program. -/
def Program.updateStatement (step : Child .statement → σ → Child .statement × σ) (index : Nat)
    (program : Program) (state : σ) : Program × σ :=
  match program with
  | .mk data form fields => match form, fields with
    | .program comments directives, .cons body .nil =>
      let (body, state) := body.updateNth step index state
      (.mk data (.program comments directives) (.cons body .nil), state)

end nth

end EsFront
