/-
The grammar of ESTree programs.

Whether a value is a program can be told from the value alone. The kind of a
node says which fields it has (`NodeKind.parts`) and what its attributes may be
(`NodeKind.Allows`); a field is required or not, holds one node or a list, and
asks that its nodes can be used a given way (`Part`). A program has a list of
statements and comments in order, every node that is reached through the fields
is in order by itself (`Json.IsNode`), and none lies too deep
(`Json.IsProgram`). The other lemmas say how members of a value are looked up.
-/
import EsFront.Proofs.Estree.ReadBack
import Mathlib.Data.List.TakeWhile

namespace EsFront

/-! ### Fields and kinds -/

/-- A field of a node: under which name it is given, and what its nodes are used
as. -/
inductive Part where
  | required (name : String) (holds : Capability)
  | optional (name : String) (holds : Capability)
  /-- When it is missing, a list of at most one node may stand under the second
  name. -/
  | optionalOrListed (name plural : String) (holds : Capability)
  /-- A list without holes. -/
  | many (name : String) (holds : Capability)
  /-- A list without holes, which may be missing. -/
  | manyOrNone (name : String) (holds : Capability)
  /-- A list with holes. -/
  | sparse (name : String) (holds : Capability)

/-- What the nodes of the field are used as. -/
def Part.holds : Part → Capability
  | required _ holds | optional _ holds | optionalOrListed _ _ holds | many _ holds
  | manyOrNone _ holds | sparse _ holds => holds

/-- The fields of the nodes of a kind. -/
def NodeKind.parts : NodeKind → List Part
  | program | emptyStatement | debuggerStatement | identifier | literal | thisExpression => []
  | blockStatement => [.many "body" .statement]
  | expressionStatement => [.required "expression" .expression]
  | ifStatement =>
    [.required "test" .expression, .required "consequent" .statement,
      .optional "alternate" .statement]
  | labeledStatement => [.required "label" .identifier, .required "body" .statement]
  | breakStatement | continueStatement => [.optional "label" .identifier]
  | switchStatement => [.required "discriminant" .expression, .many "cases" .switchCase]
  | returnStatement => [.optional "argument" .expression]
  | throwStatement => [.required "argument" .expression]
  | tryStatement =>
    [.required "block" .block, .optionalOrListed "handler" "handlers" .catchClause,
      .optional "finalizer" .block]
  | whileStatement => [.required "test" .expression, .required "body" .statement]
  | doWhileStatement => [.required "body" .statement, .required "test" .expression]
  | forStatement =>
    [.optional "init" .loopHead, .optional "test" .expression, .optional "update" .expression,
      .required "body" .statement]
  | forInStatement =>
    [.required "left" .loopHead, .required "right" .expression, .required "body" .statement]
  | variableDeclaration => [.many "declarations" .variableDeclarator]
  | variableDeclarator => [.required "id" .identifier, .optional "init" .expression]
  | functionDeclaration =>
    [.required "id" .identifier, .many "params" .identifier, .required "body" .block]
  | functionExpression =>
    [.optional "id" .identifier, .many "params" .identifier, .required "body" .block]
  | arrayExpression => [.sparse "elements" .expression]
  | objectExpression => [.many "properties" .property]
  | property => [.required "key" .expression, .required "value" .expression]
  | unaryExpression | updateExpression => [.required "argument" .expression]
  | binaryExpression | logicalExpression | assignmentExpression =>
    [.required "left" .expression, .required "right" .expression]
  | conditionalExpression =>
    [.required "test" .expression, .required "consequent" .expression,
      .required "alternate" .expression]
  | callExpression => [.required "callee" .expression, .many "arguments" .expression]
  | newExpression => [.required "callee" .expression, .manyOrNone "arguments" .expression]
  | memberExpression => [.required "object" .expression, .required "property" .expression]
  | sequenceExpression => [.many "expressions" .expression]
  | switchCase => [.optional "test" .expression, .many "consequent" .statement]
  | catchClause => [.required "param" .identifier, .required "body" .block]

theorem NodeKind.ofTag?_eq_some {tag : String} {kind : NodeKind} :
    ofTag? tag = some kind ↔ tag = kind.tag := by
  constructor
  · intro h
    have hfound := List.find?_some h
    exact (of_decide_eq_true hfound).symm
  · rintro rfl
    exact ofTag?_tag kind

namespace Json

/-- The value is a node of the given kind. -/
def HasKind (raw : Json) (kind : NodeKind) : Prop := raw.nodeTag? = some kind.tag

/-- The value is a node that can be used the given way. -/
def CanBe (raw : Json) (holds : Capability) : Prop :=
  ∃ kind, raw.HasKind kind ∧ holds.accepts kind = true

/-- A list of values without holes stands under the name. -/
def HasList (raw : Json) (name : String) (items : List Json) : Prop :=
  raw.get? name = some (.array items) ∧ .null ∉ items

/-- The value under a name, unless it is missing or `null`. -/
def given? (raw : Json) (name : String) : Option Json := (raw.get? name).filter (!·.isNull)

/-- The entries of the list under a name, without the holes. -/
def entries (raw : Json) (name : String) : List Json :=
  match raw.get? name with
  | some (.array items) => items.filter (!·.isNull)
  | _ => []

/-- The text of the node is that of a regular expression: it stands between
slashes, with flags after the second. -/
def IsWrittenRegExp (raw : Json) : Prop :=
  ∃ text pattern flags, raw.text? "raw" = some text ∧
    text.toList = '/' :: (pattern ++ '/' :: flags)

/-- A regular expression is a literal whatever its value; of the others, none
has a list for a value, and one with an object is written as a regular
expression. -/
def IsLiteral (raw : Json) : Prop :=
  (∃ members, raw.get? "regex" = some (.object members)) ∨
    ((∀ items, raw.get? "value" ≠ some (.array items)) ∧
      ∀ members, raw.get? "value" = some (.object members) → raw.IsWrittenRegExp)

/-- The function is not asynchronous, has no expression for a body, and gives no
parameter a default value. -/
def IsPlainFunction (raw : Json) : Prop :=
  raw.flag "async" = false ∧ raw.flag "expression" = false ∧
    ∀ values, raw.get? "defaults" = some (.array values) → ∀ value ∈ values, value = .null

end Json

/-- What the grammar asks of the attributes of a node. -/
def NodeKind.Allows (raw : Json) : NodeKind → Prop
  | identifier => ∃ name, raw.text? "name" = some name
  | literal => raw.IsLiteral
  | functionDeclaration | functionExpression => raw.IsPlainFunction
  | variableDeclaration =>
    ∃ kind ∈ [DeclKind.var, .lexical, .const], raw.text? "kind" = some kind.text
  | property => ∀ text, raw.text? "kind" = some text → ∃ kind : PropertyKind, kind.text = text
  | forInStatement => raw.flag "each" = false
  | catchClause => raw.isAbsent "guard" = true
  | unaryExpression => ∃ op : UnaryOperator, raw.text? "operator" = some op.text
  | updateExpression => ∃ op : UpdateOperator, raw.text? "operator" = some op.text
  | binaryExpression => ∃ op : BinaryOperator, raw.text? "operator" = some op.text
  | logicalExpression => ∃ op : LogicalOperator, raw.text? "operator" = some op.text
  | assignmentExpression => ∃ op : AssignmentOperator, raw.text? "operator" = some op.text
  | _ => True

namespace Part

/-- The field is there if it has to be, and is a list if it has to be one. -/
def Shaped (raw : Json) : Part → Prop
  | required name _ => raw.isAbsent name = false
  | optional _ _ => True
  | optionalOrListed name plural _ =>
    raw.isAbsent name = true → raw.isAbsent plural = false →
      ∃ items, raw.HasList plural items ∧ items.length ≤ 1
  | many name _ => ∃ items, raw.HasList name items
  | manyOrNone name _ => raw.isAbsent name = false → ∃ items, raw.HasList name items
  | sparse name _ => ∃ items, raw.get? name = some (.array items)

/-- The values in the field that have to be nodes. -/
def nodes (raw : Json) : Part → List Json
  | required name _ | optional name _ => (raw.given? name).toList
  | optionalOrListed name plural _ =>
    match raw.given? name with
    | some value => [value]
    | none => raw.entries plural
  | many name _ | manyOrNone name _ | sparse name _ => raw.entries name

end Part

namespace Json

/-- The node is in order by itself: its kind is known, its attributes are
allowed, and in every field stand nodes that can be used as the field asks. -/
def IsNode (raw : Json) : Prop :=
  ∃ kind, raw.HasKind kind ∧ kind ≠ .program ∧ kind.Allows raw ∧
    ∀ part ∈ kind.parts, part.Shaped raw ∧ ∀ value ∈ part.nodes raw, value.CanBe part.holds

/-- A value in a field of the node. -/
def HasChild (raw value : Json) : Prop :=
  ∃ kind, raw.HasKind kind ∧ ∃ part ∈ kind.parts, value ∈ part.nodes raw

/-- A value on the given level of a tree, the root being on level one. -/
inductive OnLevel : Json → Nat → Json → Prop where
  | root (raw : Json) : OnLevel raw 1 raw
  | inside {raw child value : Json} {n : Nat} (hchild : raw.HasChild child)
      (hvalue : OnLevel child n value) : OnLevel raw (n + 1) value

/-- A comment has a known kind and a text, and a doc comment has a location. -/
def IsComment (raw : Json) : Prop :=
  (∃ kind : CommentKind, raw.text? "type" = some kind.text) ∧
    ∃ value, raw.text? "value" = some value ∧
      (value.toList.head? = some '*' → (raw.location? none).isSome = true)

/-- The statements of a program are under `body`, or under `elements` if only
these are given. -/
def HasStatements (raw : Json) (items : List Json) : Prop :=
  if raw.isAbsent "body" = true ∧ raw.isAbsent "elements" = false then
    raw.get? "elements" = some (.array items)
  else raw.get? "body" = some (.array items)

/-- A value that is reached in a program, its statements being on level one. -/
def Below (raw : Json) (n : Nat) (value : Json) : Prop :=
  ∃ items, raw.HasStatements items ∧ ∃ item ∈ items, item.OnLevel n value

/-- The grammar of programs. -/
structure IsProgram (raw : Json) : Prop where
  tag : raw.HasKind .program
  comments : ∀ items, raw.get? "comments" = some (.array items) → ∀ item ∈ items, item.IsComment
  statements : ∃ items, raw.HasStatements items ∧ ∀ item ∈ items, item.CanBe .statement
  nodes : ∀ n value, raw.Below n value → value.IsNode
  levels : ∀ n value, raw.Below n value → n ≤ 1000

/-! ### Values -/

theorem isNull_iff {value : Json} : value.isNull = true ↔ value = .null := by
  cases value <;> simp [isNull]

theorem isAbsent_iff {raw : Json} {name : String} :
    raw.isAbsent name = true ↔ raw.given? name = none := by
  unfold isAbsent given?
  cases raw.get? name with
  | none => simp
  | some value => simp [Option.filter]

/-- A value that is given is there and is not `null`. -/
theorem given?_eq_some {raw : Json} {name : String} {value : Json} :
    raw.given? name = some value ↔ raw.get? name = some value ∧ value ≠ .null := by
  rw [given?, Option.filter_eq_some_iff, Bool.not_eq_true', ← Bool.not_eq_true, isNull_iff]

theorem bind_asArray? {raw : Json} {name : String} {items : List Json} :
    (raw.get? name).bind asArray? = some items ↔ raw.get? name = some (.array items) := by
  rw [Option.bind_eq_some_iff]
  constructor
  · rintro ⟨value, hvalue, harray⟩
    cases value with
    | array found =>
      cases harray
      exact hvalue
    | _ => cases harray
  · intro h
    exact ⟨_, h, rfl⟩

theorem HasKind.unique {raw : Json} {kind other : NodeKind} (h : raw.HasKind kind)
    (h' : raw.HasKind other) : kind = other := by
  have htags : kind.tag = other.tag := Option.some.inj (h.symm.trans h')
  have hfound : NodeKind.ofTag? kind.tag = some other := NodeKind.ofTag?_eq_some.mpr htags
  rw [NodeKind.ofTag?_tag] at hfound
  exact Option.some.inj hfound

theorem CanBe.ne_null {value : Json} {holds : Capability} (h : value.CanBe holds) :
    value ≠ .null := by
  rintro rfl
  obtain ⟨kind, hkind, -⟩ := h
  cases hkind

theorem mem_entries {raw : Json} {name : String} {items : List Json}
    (h : raw.get? name = some (.array items)) {value : Json} :
    value ∈ raw.entries name ↔ value ∈ items ∧ value ≠ .null := by
  rw [entries, h]
  simp [← isNull_iff]

theorem entries_of_isAbsent {raw : Json} {name : String} (h : raw.isAbsent name = true) :
    raw.entries name = [] := by
  rw [isAbsent_iff] at h
  unfold entries
  split
  · rename_i items hget
    rw [given?, hget] at h
    cases h
  · rfl

/-- A text between slashes is what is split into a pattern and flags. -/
theorem splitRegExp?_isSome {text : String} :
    (splitRegExp? text).isSome = true ↔
      ∃ pattern flags, text.toList = '/' :: (pattern ++ '/' :: flags) := by
  unfold splitRegExp?
  split
  · rename_i body hbody
    -- there is a pattern exactly when there is a second slash
    have hnil : body.reverse.dropWhile (· ≠ '/') = [] ↔ '/' ∉ body := by
      simp only [List.dropWhile_eq_nil_iff, List.mem_reverse, decide_eq_true_eq]
      exact ⟨fun h hmem => h _ hmem rfl, fun h c hc heq => h (heq ▸ hc)⟩
    have hsplit : (∃ pattern flags, '/' :: body = '/' :: (pattern ++ '/' :: flags)) ↔
        '/' ∈ body := by
      simp only [List.cons.injEq, true_and]
      exact List.mem_iff_append.symm
    rw [hbody, hsplit]
    dsimp only
    split
    · rename_i hrest
      have hsome : '/' ∈ body := by
        by_contra hnone
        rw [hnil.mpr hnone] at hrest
        cases hrest
      simpa using hsome
    · rename_i hrest
      simpa using hnil.mp hrest
  · rename_i hother
    simp only [Option.isSome_none, Bool.false_eq_true, false_iff]
    rintro ⟨pattern, flags, h⟩
    exact hother _ h

end Json

end EsFront
