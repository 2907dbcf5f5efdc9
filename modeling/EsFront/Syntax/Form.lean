/-
Syntactic forms.

A form is a kind together with its attributes: the operator of an expression,
the name of an identifier, the value of a literal. The type of a form tells
which fields a node of that form has: `Form kind slots`, where each slot gives
a field's name, how many nodes it holds, what they must be able to be, and
what part they play. Everything that treats all nodes alike — reading,
writing, walking, resolving — follows the slots.
-/
import EsFront.Number.Double
import EsFront.Syntax.Comment
import EsFront.Syntax.Kind

namespace EsFront

/-- How many nodes a field holds. -/
inductive Arity where
  | one
  | optional
  /-- A list, in which entries may be missing if `holes` is true. -/
  | list (holes : Bool)
deriving DecidableEq, Repr, Inhabited

/-- How a binder introduces its name. -/
inductive Binding where
  /-- The name of a declarator. -/
  | declarator (kind : DeclKind)
  /-- The name of a function declaration, bound outside the function. -/
  | functionName
  /-- The own name of a function expression, bound inside it. -/
  | ownName
  | parameter
  | catchParameter
deriving DecidableEq, Repr, Inhabited

/-- The part that the nodes of a field play. -/
inductive Role where
  | child
  /-- A name that refers to nothing: a label. -/
  | name
  /-- A property or key, which is a name that refers to nothing unless it is
  computed. -/
  | key (computed : Bool)
  /-- An identifier that declares its name. -/
  | binder (binding : Binding)
  /-- A block that is the body of a function or catch clause. -/
  | body
  /-- Declarators of a declaration of the given kind. -/
  | declares (kind : DeclKind)
deriving DecidableEq, Repr, Inhabited

/-- Whether the nodes of a field with this role are walked: labels and names of
members are not. -/
def Role.isWalked : Role → Bool
  | .name => false
  | .key computed => computed
  | .child | .binder _ | .body | .declares _ => true

/-- A field of a form. -/
structure Slot where
  name : String
  arity : Arity
  holds : Capability
  role : Role
deriving DecidableEq, Repr, Inhabited

namespace Slot

/-- A field with exactly one node. -/
@[reducible] def one (name : String) (holds : Capability) (role : Role := .child) : Slot :=
  ⟨name, .one, holds, role⟩

/-- A field with at most one node. -/
@[reducible] def optional (name : String) (holds : Capability) (role : Role := .child) : Slot :=
  ⟨name, .optional, holds, role⟩

/-- A field with a list of nodes. -/
@[reducible] def many (name : String) (holds : Capability) (role : Role := .child) : Slot :=
  ⟨name, .list false, holds, role⟩

/-- A field with a list of nodes that may have holes. -/
@[reducible] def sparse (name : String) (holds : Capability) (role : Role := .child) : Slot :=
  ⟨name, .list true, holds, role⟩

end Slot

/-- The value of a literal. -/
inductive LiteralValue where
  | null
  | boolean (b : Bool)
  | number (d : Double)
  | string (s : String)
  | regExp (pattern flags : String)
deriving DecidableEq, Repr, Inhabited

/-- What resolution knows of an identifier. -/
structure ResolutionInfo where
  /-- The declaration it names. -/
  uid : Option Nat
  /-- The block scope in which that declaration was made. -/
  scope : Option Nat
deriving DecidableEq, Repr, Inhabited

namespace ResolutionInfo

/-- Nothing is known. -/
def unresolved : ResolutionInfo := ⟨none, none⟩

end ResolutionInfo

/-- The forms of nodes, by kind and fields. -/
inductive Form : NodeKind → List Slot → Type where
  /-- The whole program with its unattached doc comments and the directives
  of all nodes. -/
  | program (comments : List Comment) (index : DirectiveIndex) :
      Form .program [.many "body" .statement]
  | blockStatement : Form .blockStatement [.many "body" .statement]
  | emptyStatement : Form .emptyStatement []
  | expressionStatement : Form .expressionStatement [.one "expression" .expression]
  | ifStatement :
      Form .ifStatement
        [.one "test" .expression, .one "consequent" .statement, .optional "alternate" .statement]
  | labeledStatement :
      Form .labeledStatement [.one "label" .identifier .name, .one "body" .statement]
  | breakStatement : Form .breakStatement [.optional "label" .identifier .name]
  | continueStatement : Form .continueStatement [.optional "label" .identifier .name]
  | switchStatement :
      Form .switchStatement [.one "discriminant" .expression, .many "cases" .switchCase]
  | returnStatement : Form .returnStatement [.optional "argument" .expression]
  | throwStatement : Form .throwStatement [.one "argument" .expression]
  | tryStatement :
      Form .tryStatement
        [.one "block" .block, .optional "handler" .catchClause, .optional "finalizer" .block]
  | whileStatement : Form .whileStatement [.one "test" .expression, .one "body" .statement]
  | doWhileStatement : Form .doWhileStatement [.one "body" .statement, .one "test" .expression]
  | forStatement :
      Form .forStatement
        [.optional "init" .loopHead, .optional "test" .expression,
          .optional "update" .expression, .one "body" .statement]
  | forInStatement :
      Form .forInStatement
        [.one "left" .loopHead, .one "right" .expression, .one "body" .statement]
  | debuggerStatement : Form .debuggerStatement []
  | variableDeclaration (kind : DeclKind) :
      Form .variableDeclaration [.many "declarations" .variableDeclarator (.declares kind)]
  | functionDeclaration (generator : Bool) :
      Form .functionDeclaration
        [.one "id" .identifier (.binder .functionName),
          .many "params" .identifier (.binder .parameter), .one "body" .block .body]
  | identifier (name : String) (isBinder : Bool) (info : ResolutionInfo) : Form .identifier []
  | literal (value : LiteralValue) (raw : Option String) : Form .literal []
  | thisExpression : Form .thisExpression []
  | arrayExpression : Form .arrayExpression [.sparse "elements" .expression]
  | objectExpression : Form .objectExpression [.many "properties" .property]
  | functionExpression (generator : Bool) :
      Form .functionExpression
        [.optional "id" .identifier (.binder .ownName),
          .many "params" .identifier (.binder .parameter), .one "body" .block .body]
  | unaryExpression (operator : UnaryOperator) :
      Form .unaryExpression [.one "argument" .expression]
  /-- Increment or decrement, with the operator before or after its operand. -/
  | updateExpression (operator : UpdateOperator) (before : Bool) :
      Form .updateExpression [.one "argument" .expression]
  | binaryExpression (operator : BinaryOperator) :
      Form .binaryExpression [.one "left" .expression, .one "right" .expression]
  | logicalExpression (operator : LogicalOperator) :
      Form .logicalExpression [.one "left" .expression, .one "right" .expression]
  | assignmentExpression (operator : AssignmentOperator) :
      Form .assignmentExpression [.one "left" .expression, .one "right" .expression]
  | conditionalExpression :
      Form .conditionalExpression
        [.one "test" .expression, .one "consequent" .expression, .one "alternate" .expression]
  | callExpression :
      Form .callExpression [.one "callee" .expression, .many "arguments" .expression]
  | newExpression :
      Form .newExpression [.one "callee" .expression, .many "arguments" .expression]
  | memberExpression (computed : Bool) :
      Form .memberExpression
        [.one "object" .expression, .one "property" .expression (.key computed)]
  | sequenceExpression : Form .sequenceExpression [.many "expressions" .expression]
  | variableDeclarator (kind : DeclKind) :
      Form .variableDeclarator
        [.one "id" .identifier (.binder (.declarator kind)), .optional "init" .expression]
  | property (kind : PropertyKind) (computed shorthand : Bool) :
      Form .property [.one "key" .expression (.key computed), .one "value" .expression]
  | switchCase : Form .switchCase [.optional "test" .expression, .many "consequent" .statement]
  | catchClause :
      Form .catchClause
        [.one "param" .identifier (.binder .catchParameter), .one "body" .block .body]

end EsFront
