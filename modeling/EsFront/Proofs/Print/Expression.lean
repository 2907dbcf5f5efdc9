/-
Expressions by their parts, and what the printer does not show of them.

* `Child.erase` — an expression with the data of its nodes, the marks of
  binders and the results of resolution taken away;
* `AnyNode.isPlain` — what is asked of each node of an expression that the
  printed text should determine: no functions, ordinary names, literals
  without a text of their own, and a few shapes that a reader would give;
* `Expr.unary` and its like — the forms of expressions as functions of their
  parts; `Joint.join` is the one for all operators between two operands.
-/
import EsFront.Proofs.Number.Display
import EsFront.Proofs.Syntax.Children

namespace EsFront

/-! ### Erasure -/

/-- The data of a node of which nothing is known. -/
def NodeData.blank : NodeData := ⟨0, none, none, [], []⟩

/-- An identifier keeps its name only, every other form all it has. -/
def Form.erase {kind : NodeKind} {slots : List Slot} : Form kind slots → Form kind slots
  | .identifier name _ _ => .identifier name false .unresolved
  | form => form

mutual

/-- A tree without the data of its nodes, marks of binders and results of
resolution. -/
def Node.erase {kind : NodeKind} : Node kind → Node kind
  | .mk _ form fields => .mk .blank form.erase fields.erase

def Fields.erase {slots : List Slot} : Fields slots → Fields slots
  | .nil => .nil
  | .cons field rest => .cons field.erase rest.erase

def Field.erase {arity : Arity} {holds : Capability} : Field arity holds → Field arity holds
  | .one node accepted => .one node.erase accepted
  | .absent => .absent
  | .present node accepted => .present node.erase accepted
  | .nil => .nil
  | .cons node accepted rest => .cons node.erase accepted rest.erase
  | .hole rest => .hole rest.erase

end

def Child.erase {holds : Capability} (child : Child holds) : Child holds :=
  ⟨child.kind, child.node.erase, child.accepted⟩

/-! ### Names and nodes that are plain -/

/-- The characters of names. -/
def isNameChar (c : Char) : Bool := c.isAlphanum || c = '_' || c = '$'

/-- The words that mean something else where a name could stand in an
expression. -/
def reservedWords : List String :=
  ["null", "true", "false", "this", "new", "typeof", "void", "delete"]

/-- An ASCII name that is not reserved. -/
structure IsName (name : String) : Prop where
  chars : ∀ c ∈ name.toList, isNameChar c = true
  start : ∃ c ∈ name.toList.head?, c.isDigit = false
  notReserved : name ∉ reservedWords

instance (name : String) : Decidable (IsName name) :=
  decidable_of_iff (name.toList.all isNameChar = true ∧
      name.toList.head?.any (!·.isDigit) = true ∧ name ∉ reservedWords)
    ⟨fun h => ⟨List.all_eq_true.1 h.1, by simpa [Option.any_eq_true] using h.2.1, h.2.2⟩,
      fun h => ⟨List.all_eq_true.2 h.1, by simpa [Option.any_eq_true] using h.2, h.3⟩⟩

/-- Literals that are written by their value alone: not patterns, and of the
numbers only the natural ones. -/
def LiteralValue.isPlain : LiteralValue → Bool
  | .null | .boolean _ | .string _ => true
  | .number d => decide d.IsNatural
  | .regExp _ _ => false

/-- Whether a node is the literal of a text. -/
def AnyNode.isText : AnyNode → Bool
  | ⟨_, .mk _ form _⟩ => match form with
    | .literal (.string _) _ => true
    | _ => false

/-- Whether a node of the given form with the given children is plain. -/
def Form.isPlain {kind : NodeKind} {slots : List Slot} (form : Form kind slots)
    (children : Values AnyNode slots) : Bool :=
  match form, children with
  | .functionExpression _, _ => false
  | .identifier name _ _, _ => decide (IsName name)
  | .literal value raw, _ => raw.isNone && value.isPlain
  | .sequenceExpression, (expressions, ()) => decide (2 ≤ expressions.length)
  | .memberExpression computed, (_, key, ()) => computed || key.kind = .identifier
  | .property kind computed shorthand, (key, _, ()) =>
    kind = .init && !shorthand && (computed || key.kind = .identifier || key.isText)
  | _, _ => true

def AnyNode.isPlain : AnyNode → Bool
  | ⟨_, .mk _ form fields⟩ => form.isPlain (fields.view id)

/-! ### Expressions by their parts -/

/-- An expression of any kind. -/
abbrev Expr := Child .expression

namespace Expr

variable (data : NodeData)

def identifier (name : String) (isBinder : Bool) (info : ResolutionInfo) : Expr :=
  ⟨_, .mk data (.identifier name isBinder info) .nil, rfl⟩

def literal (value : LiteralValue) : Expr := ⟨_, .mk data (.literal value none) .nil, rfl⟩

def this : Expr := ⟨_, .mk data .thisExpression .nil, rfl⟩

def array (elements : List (Option Expr)) : Expr :=
  ⟨_, .mk data .arrayExpression (.cons (.ofSparse elements) .nil), rfl⟩

/-- A member of an object, with its name or the expression that computes it. -/
def member (computed : Bool) (key value : Expr) : Child .property :=
  ⟨_, .mk data (.property .init computed false)
    (.cons (.one key.node key.accepted) (.cons (.one value.node value.accepted) .nil)), rfl⟩

def object (members : List (Child .property)) : Expr :=
  ⟨_, .mk data .objectExpression (.cons (.ofList members) .nil), rfl⟩

def unary (op : UnaryOperator) (a : Expr) : Expr :=
  ⟨_, .mk data (.unaryExpression op) (.cons (.one a.node a.accepted) .nil), rfl⟩

def update (op : UpdateOperator) (before : Bool) (a : Expr) : Expr :=
  ⟨_, .mk data (.updateExpression op before) (.cons (.one a.node a.accepted) .nil), rfl⟩

def conditional (test consequent alternate : Expr) : Expr :=
  ⟨_, .mk data .conditionalExpression (.cons (.one test.node test.accepted)
    (.cons (.one consequent.node consequent.accepted)
      (.cons (.one alternate.node alternate.accepted) .nil))), rfl⟩

def call (callee : Expr) (arguments : List Expr) : Expr :=
  ⟨_, .mk data .callExpression
    (.cons (.one callee.node callee.accepted) (.cons (.ofList arguments) .nil)), rfl⟩

def new (callee : Expr) (arguments : List Expr) : Expr :=
  ⟨_, .mk data .newExpression
    (.cons (.one callee.node callee.accepted) (.cons (.ofList arguments) .nil)), rfl⟩

def access (computed : Bool) (object property : Expr) : Expr :=
  ⟨_, .mk data (.memberExpression computed)
    (.cons (.one object.node object.accepted) (.cons (.one property.node property.accepted) .nil)),
    rfl⟩

def sequence (expressions : List Expr) : Expr :=
  ⟨_, .mk data .sequenceExpression (.cons (.ofList expressions) .nil), rfl⟩

end Expr

/-- An operator that stands between two operands. -/
inductive Joint where
  | binary (op : BinaryOperator)
  | logical (op : LogicalOperator)
  | assignment (op : AssignmentOperator)
deriving DecidableEq

namespace Joint

def form : (joint : Joint) → (kind : NodeKind) × Form kind
      [.one "left" .expression, .one "right" .expression]
  | binary op => ⟨_, .binaryExpression op⟩
  | logical op => ⟨_, .logicalExpression op⟩
  | assignment op => ⟨_, .assignmentExpression op⟩

theorem accepts (joint : Joint) : Capability.expression.accepts joint.form.1 = true := by
  cases joint <;> rfl

/-- The expression of an operator and its operands. -/
def join (joint : Joint) (data : NodeData) (left right : Expr) : Expr :=
  ⟨joint.form.1, .mk data joint.form.2 (.cons (.one left.node left.accepted)
    (.cons (.one right.node right.accepted) .nil)), joint.accepts⟩

end Joint

/-! ### Erasure by parts -/

theorem Field.erase_ofList {holds : Capability} (children : List (Child holds)) :
    (Field.ofList children).erase = Field.ofList (children.map Child.erase) := by
  induction children with
  | nil => rfl
  | cons child rest ih =>
    rw [Field.ofList, Field.erase, ih]
    rfl

theorem Field.erase_ofSparse {holds : Capability} (children : List (Option (Child holds))) :
    (Field.ofSparse children).erase = Field.ofSparse (children.map (·.map Child.erase)) := by
  induction children with
  | nil => rfl
  | cons child rest ih =>
    cases child with
    | none =>
      rw [Field.ofSparse, Field.erase, ih]
      rfl
    | some child =>
      rw [Field.ofSparse, Field.erase, ih]
      rfl

namespace Expr

variable (data : NodeData)

theorem erase_array (elements : List (Option Expr)) :
    (array data elements).erase = array .blank (elements.map (·.map Child.erase)) :=
  congrArg (fun field : Field (.list true) .expression =>
    (⟨_, .mk .blank .arrayExpression (.cons field .nil), rfl⟩ : Expr))
      (Field.erase_ofSparse elements)

theorem erase_object (members : List (Child .property)) :
    (object data members).erase = object .blank (members.map Child.erase) :=
  congrArg (fun field : Field (.list false) .property =>
    (⟨_, .mk .blank .objectExpression (.cons field .nil), rfl⟩ : Expr)) (Field.erase_ofList members)

theorem erase_call (callee : Expr) (arguments : List Expr) :
    (call data callee arguments).erase
      = call .blank callee.erase (arguments.map Child.erase) :=
  congrArg (fun field : Field (.list false) .expression =>
    (⟨_, .mk .blank .callExpression (.cons (.one callee.node.erase callee.accepted)
      (.cons field .nil)), rfl⟩ : Expr)) (Field.erase_ofList arguments)

theorem erase_new (callee : Expr) (arguments : List Expr) :
    (new data callee arguments).erase = new .blank callee.erase (arguments.map Child.erase) :=
  congrArg (fun field : Field (.list false) .expression =>
    (⟨_, .mk .blank .newExpression (.cons (.one callee.node.erase callee.accepted)
      (.cons field .nil)), rfl⟩ : Expr)) (Field.erase_ofList arguments)

theorem erase_sequence (expressions : List Expr) :
    (sequence data expressions).erase = sequence .blank (expressions.map Child.erase) :=
  congrArg (fun field : Field (.list false) .expression =>
    (⟨_, .mk .blank .sequenceExpression (.cons field .nil), rfl⟩ : Expr))
    (Field.erase_ofList expressions)

end Expr

theorem Joint.erase_join (joint : Joint) (data : NodeData) (left right : Expr) :
    (joint.join data left right).erase = joint.join .blank left.erase right.erase := by
  cases joint <;> rfl

end EsFront
