/-
Node kinds.

* `NodeKind` — every supported kind of node, with the tag it has in ESTree;
* `NodeKind.category` — expression, statement, declaration, clause or program;
* `Capability` — what a place in the tree may ask of a node, and which kinds
  can give it (`Capability.accepts`).
-/
namespace EsFront

/-- The kinds of nodes. -/
inductive NodeKind where
  | program
  | blockStatement
  | emptyStatement
  | expressionStatement
  | ifStatement
  | labeledStatement
  | breakStatement
  | continueStatement
  | switchStatement
  | returnStatement
  | throwStatement
  | tryStatement
  | whileStatement
  | doWhileStatement
  | forStatement
  | forInStatement
  | debuggerStatement
  | variableDeclaration
  | functionDeclaration
  | identifier
  | literal
  | thisExpression
  | arrayExpression
  | objectExpression
  | functionExpression
  | unaryExpression
  | updateExpression
  | binaryExpression
  | logicalExpression
  | assignmentExpression
  | conditionalExpression
  | callExpression
  | newExpression
  | memberExpression
  | sequenceExpression
  | variableDeclarator
  | property
  | switchCase
  | catchClause
deriving DecidableEq, Repr, Inhabited

/-- The broad groups of kinds. -/
inductive NodeCategory where
  | none
  | expression
  | statement
  | declaration
  | clause
  | program
deriving DecidableEq, Repr, Inhabited

namespace NodeCategory

/-- The flag of a group, one bit each. -/
def bit : NodeCategory → Nat
  | none => 0
  | expression => 1
  | statement => 2
  | declaration => 4
  | clause => 8
  | program => 16

end NodeCategory

namespace NodeKind

/-- Every kind, in declaration order. -/
def all : List NodeKind :=
  [program, blockStatement, emptyStatement, expressionStatement, ifStatement, labeledStatement,
    breakStatement, continueStatement, switchStatement, returnStatement, throwStatement,
    tryStatement, whileStatement, doWhileStatement, forStatement, forInStatement,
    debuggerStatement, variableDeclaration, functionDeclaration, identifier, literal,
    thisExpression, arrayExpression, objectExpression, functionExpression, unaryExpression,
    updateExpression, binaryExpression, logicalExpression, assignmentExpression,
    conditionalExpression, callExpression, newExpression, memberExpression,
    sequenceExpression, variableDeclarator, property, switchCase, catchClause]

/-- The tag of a kind in the `type` member of ESTree nodes. -/
def tag : NodeKind → String
  | program => "Program"
  | blockStatement => "BlockStatement"
  | emptyStatement => "EmptyStatement"
  | expressionStatement => "ExpressionStatement"
  | ifStatement => "IfStatement"
  | labeledStatement => "LabeledStatement"
  | breakStatement => "BreakStatement"
  | continueStatement => "ContinueStatement"
  | switchStatement => "SwitchStatement"
  | returnStatement => "ReturnStatement"
  | throwStatement => "ThrowStatement"
  | tryStatement => "TryStatement"
  | whileStatement => "WhileStatement"
  | doWhileStatement => "DoWhileStatement"
  | forStatement => "ForStatement"
  | forInStatement => "ForInStatement"
  | debuggerStatement => "DebuggerStatement"
  | variableDeclaration => "VariableDeclaration"
  | functionDeclaration => "FunctionDeclaration"
  | identifier => "Identifier"
  | literal => "Literal"
  | thisExpression => "ThisExpression"
  | arrayExpression => "ArrayExpression"
  | objectExpression => "ObjectExpression"
  | functionExpression => "FunctionExpression"
  | unaryExpression => "UnaryExpression"
  | updateExpression => "UpdateExpression"
  | binaryExpression => "BinaryExpression"
  | logicalExpression => "LogicalExpression"
  | assignmentExpression => "AssignmentExpression"
  | conditionalExpression => "ConditionalExpression"
  | callExpression => "CallExpression"
  | newExpression => "NewExpression"
  | memberExpression => "MemberExpression"
  | sequenceExpression => "SequenceExpression"
  | variableDeclarator => "VariableDeclarator"
  | property => "Property"
  | switchCase => "SwitchCase"
  | catchClause => "CatchClause"

/-- The kind with the given tag. -/
def ofTag? (tag : String) : Option NodeKind := all.find? (·.tag = tag)

/-- The place of a kind in `all`. -/
def index (kind : NodeKind) : Nat := all.idxOf kind

/-- The group a kind belongs to. -/
def category : NodeKind → NodeCategory
  | program => .program
  | blockStatement | emptyStatement | expressionStatement | ifStatement | labeledStatement
  | breakStatement | continueStatement | switchStatement | returnStatement | throwStatement
  | tryStatement | whileStatement | doWhileStatement | forStatement | forInStatement
  | debuggerStatement => .statement
  | variableDeclaration | functionDeclaration => .declaration
  | variableDeclarator | property => .none
  | switchCase | catchClause => .clause
  | identifier | literal | thisExpression | arrayExpression | objectExpression
  | functionExpression | unaryExpression | updateExpression | binaryExpression
  | logicalExpression | assignmentExpression | conditionalExpression | callExpression
  | newExpression | memberExpression | sequenceExpression => .expression

def isExpression (kind : NodeKind) : Bool := kind.category = .expression

def isDeclaration (kind : NodeKind) : Bool := kind.category = .declaration

/-- Declarations stand in statement lists, so they count as statements. -/
def isStatement (kind : NodeKind) : Bool := kind.category = .statement || kind.isDeclaration

/-- Whether doc comments may be attached to nodes of this kind. -/
def acceptsComments (kind : NodeKind) : Bool := kind.isStatement

end NodeKind

/-- What a place in the tree asks of the node that stands there. -/
inductive Capability where
  | expression
  | statement
  | identifier
  | block
  | variableDeclaration
  /-- The head of a loop: a declaration or an expression. -/
  | loopHead
  | variableDeclarator
  | property
  | switchCase
  | catchClause
  | program
deriving DecidableEq, Repr, Inhabited

namespace Capability

/-- Whether nodes of the given kind can be used this way. -/
def accepts (capability : Capability) (kind : NodeKind) : Bool :=
  match capability with
  | expression => kind.isExpression
  | statement => kind.isStatement
  | identifier => kind = .identifier
  | block => kind = .blockStatement
  | variableDeclaration => kind = .variableDeclaration
  | loopHead => kind.isExpression || kind = .variableDeclaration
  | variableDeclarator => kind = .variableDeclarator
  | property => kind = .property
  | switchCase => kind = .switchCase
  | catchClause => kind = .catchClause
  | program => kind = .program

/-- The use in words. -/
def description : Capability → String
  | expression => "an expression"
  | statement => "a statement"
  | identifier => "an identifier"
  | block => "a block"
  | variableDeclaration => "a variable declaration"
  | loopHead => "a loop head"
  | variableDeclarator => "a variable declarator"
  | property => "a property"
  | switchCase => "a switch case"
  | catchClause => "a catch clause"
  | program => "a program"

end Capability

/-- A node stood where its kind cannot be used. -/
structure CapabilityError where
  kind : NodeKind
  expected : String
deriving DecidableEq, Repr, Inhabited

namespace CapabilityError

/-- `kind cannot be used as use`. -/
def message (e : CapabilityError) : String := e.kind.tag ++ " cannot be used as " ++ e.expected

end CapabilityError

end EsFront
