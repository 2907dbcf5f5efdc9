/-
Reading ESTree values into the typed tree.

A node gets its number, and claims its doc comments, when it is first reached;
then its attributes are read and then its fields, slot by slot. So numbers
count nodes in pre-order. A child must be able to be what its slot asks for.
All siblings of a list are read before any of them is checked.

* `Import.node` — one node of any kind but a program, at most so many levels
  deep;
* `Import.program` — a whole program with its comments;
* `importProgram` — the same from the start.

Numbers that were given out and comments that were claimed stay so when a
later part of the value is refused.
-/
import EsFront.Comments.Index
import EsFront.Estree.Raw
import EsFront.Syntax.Node

namespace EsFront

/-- What the import has given out so far. -/
structure ImportState where
  nextId : NodeId
  comments : CommentIndex
deriving DecidableEq, Repr, Inhabited

namespace ImportState

def start : ImportState := ⟨0, .empty⟩

end ImportState

/-- A step of the import: it may be refused, and leaves a state either way. -/
abbrev Import := ExceptT ImportError (StateM ImportState)

/-- A form of a known kind. -/
structure SomeForm (kind : NodeKind) where
  slots : List Slot
  form : Form kind slots

/-- Marks a node with the part it plays in its parent: binders are marked, and
declarators take over the kind of their declaration. -/
def Node.adopt {kind : NodeKind} (role : Role) : Node kind → Node kind
  | .mk data form fields =>
    match role, form, fields with
    | .binder _, .identifier name _ info, .nil => .mk data (.identifier name true info) .nil
    | .declares declKind, .variableDeclarator _, .cons id (.cons init .nil) =>
      .mk data (.variableDeclarator declKind) (.cons id (.cons init .nil))
    | _, form, fields => .mk data form fields

/-- Marks a child with the part it plays in its parent. -/
def Child.adopt {holds : Capability} (role : Role) (child : Child holds) : Child holds :=
  { child with node := child.node.adopt role }

namespace Import

/-- The greatest number of nodes from the program down to a node. -/
def depthLimit : Nat := 1000

/-- The number, location, range and comments of a node that is reached. -/
def takeData {m : Type → Type} [Monad m] [MonadStateOf ImportState m] (file : Option String)
    (kind : NodeKind) (raw : Json) : ExceptT ImportError m NodeData := do
  let state ← get
  let loc := raw.location? file
  let (comments, index) :=
    match loc with
    | some loc =>
      if kind.acceptsComments then state.comments.claim loc.start.line else ([], state.comments)
    | none => ([], state.comments)
  let (directives, index) := index.record state.nextId comments
  set (⟨state.nextId + 1, index⟩ : ImportState)
  return { id := state.nextId, loc, range := raw.range?, comments, directives }

/-! ### Attributes -/

/-- The operator of an expression. -/
def operator {ω : Type} (kind : NodeKind) (ofText? : String → Option ω) (raw : Json) :
    Except ImportError ω :=
  match raw.text? "operator" with
  | none => .error (.missingField kind "operator")
  | some text =>
    match ofText? text with
    | some op => .ok op
    | none => .error (.unsupportedConstruct kind ("operator `" ++ text ++ "`"))

/-- Refuses functions that are asynchronous, have an expression for a body, or
have default parameter values. -/
def plainFunction (kind : NodeKind) (raw : Json) : Except ImportError Unit :=
  let hasDefaults := match (raw.get? "defaults").bind Json.asArray? with
    | some values => values.any (!·.isNull)
    | none => false
  if raw.flag "async" then .error (.unsupportedConstruct kind "async functions")
  else if raw.flag "expression" then
    .error (.unsupportedConstruct kind "expression-bodied functions")
  else if hasDefaults then .error (.unsupportedConstruct kind "default parameter values")
  else .ok ()

/-- The kind of a variable declaration. -/
def declarationKind (raw : Json) : Except ImportError DeclKind :=
  match (raw.text? "kind").bind DeclKind.ofKeyword? with
  | some kind => .ok kind
  | none =>
    let given := (raw.text? "kind").getD "<none>"
    .error (.unsupportedConstruct .variableDeclaration ("declaration kind `" ++ given ++ "`"))

/-- The attributes of a node of the given kind, as far as they are checked
before its fields. -/
def attributes (kind : NodeKind) (raw : Json) : Except ImportError (SomeForm kind) :=
  match kind with
  | .program => .error (.capability ⟨.program, "a nested node"⟩)
  | .blockStatement => .ok ⟨_, .blockStatement⟩
  | .emptyStatement => .ok ⟨_, .emptyStatement⟩
  | .expressionStatement => .ok ⟨_, .expressionStatement⟩
  | .ifStatement => .ok ⟨_, .ifStatement⟩
  | .labeledStatement => .ok ⟨_, .labeledStatement⟩
  | .breakStatement => .ok ⟨_, .breakStatement⟩
  | .continueStatement => .ok ⟨_, .continueStatement⟩
  | .switchStatement => .ok ⟨_, .switchStatement⟩
  | .returnStatement => .ok ⟨_, .returnStatement⟩
  | .throwStatement => .ok ⟨_, .throwStatement⟩
  | .tryStatement => .ok ⟨_, .tryStatement⟩
  | .whileStatement => .ok ⟨_, .whileStatement⟩
  | .doWhileStatement => .ok ⟨_, .doWhileStatement⟩
  | .forStatement => .ok ⟨_, .forStatement⟩
  | .forInStatement =>
    if raw.flag "each" then
      .error (.unsupportedConstruct .forInStatement "`for each` loops")
    else .ok ⟨_, .forInStatement⟩
  | .debuggerStatement => .ok ⟨_, .debuggerStatement⟩
  | .variableDeclaration => do
    let declKind ← declarationKind raw
    return ⟨_, .variableDeclaration declKind⟩
  | .functionDeclaration => do
    plainFunction .functionDeclaration raw
    return ⟨_, .functionDeclaration (raw.flag "generator")⟩
  | .identifier =>
    match raw.text? "name" with
    | some name => .ok ⟨_, .identifier name false .unresolved⟩
    | none => .error (.missingField .identifier "name")
  | .literal => do
    let value ← raw.literalValue
    return ⟨_, .literal value (raw.text? "raw")⟩
  | .thisExpression => .ok ⟨_, .thisExpression⟩
  | .arrayExpression => .ok ⟨_, .arrayExpression⟩
  | .objectExpression => .ok ⟨_, .objectExpression⟩
  | .functionExpression => do
    plainFunction .functionExpression raw
    return ⟨_, .functionExpression (raw.flag "generator")⟩
  | .unaryExpression => do
    let op ← operator .unaryExpression UnaryOperator.ofText? raw
    return ⟨_, .unaryExpression op⟩
  | .updateExpression => do
    let op ← operator .updateExpression UpdateOperator.ofText? raw
    return ⟨_, .updateExpression op (raw.flag "prefix")⟩
  | .binaryExpression => do
    let op ← operator .binaryExpression BinaryOperator.ofText? raw
    return ⟨_, .binaryExpression op⟩
  | .logicalExpression => do
    let op ← operator .logicalExpression LogicalOperator.ofText? raw
    return ⟨_, .logicalExpression op⟩
  | .assignmentExpression => do
    let op ← operator .assignmentExpression AssignmentOperator.ofText? raw
    return ⟨_, .assignmentExpression op⟩
  | .conditionalExpression => .ok ⟨_, .conditionalExpression⟩
  | .callExpression => .ok ⟨_, .callExpression⟩
  | .newExpression => .ok ⟨_, .newExpression⟩
  | .memberExpression => .ok ⟨_, .memberExpression (raw.flag "computed")⟩
  | .sequenceExpression => .ok ⟨_, .sequenceExpression⟩
  | .variableDeclarator => .ok ⟨_, .variableDeclarator .var⟩
  | .property =>
    let kind := ((raw.text? "kind").bind PropertyKind.ofText?).getD .init
    .ok ⟨_, .property kind (raw.flag "computed") (raw.flag "shorthand")⟩
  | .switchCase => .ok ⟨_, .switchCase⟩
  | .catchClause =>
    if raw.isAbsent "guard" then .ok ⟨_, .catchClause⟩
    else .error (.unsupportedConstruct .catchClause "guarded catch clauses")

/-- What is checked after the fields: the kind of a property, if it has one,
must be known. -/
def lateCheck (kind : NodeKind) (raw : Json) : Except ImportError Unit :=
  match kind, raw.text? "kind" with
  | .property, some text =>
    match PropertyKind.ofText? text with
    | some _ => .ok ()
    | none => .error (.unsupportedConstruct .property ("property kind `" ++ text ++ "`"))
  | _, _ => .ok ()

/-! ### Fields -/

section fields

variable {m : Type → Type} [Monad m] (child : Json → ExceptT ImportError m AnyNode)
  (kind : NodeKind)

/-- A value that must be a node. -/
def nodeIn (field : String) (value : Json) : ExceptT ImportError m AnyNode :=
  match value.nodeTag? with
  | none => throw (.notANode kind field)
  | some _ => child value

/-- The entries of a list, `null` for a hole. -/
def items (field : String) : List Json → ExceptT ImportError m (List (Option AnyNode))
  | [] => return []
  | .null :: rest => return none :: (← items field rest)
  | value :: rest => do
    let first ← nodeIn child kind field value
    return some first :: (← items field rest)

/-- The entries of a list that must be there. -/
def itemsOf (raw : Json) (field : String) : ExceptT ImportError m (List (Option AnyNode)) :=
  match raw.get? field with
  | none | some .null => throw (.missingField kind field)
  | some (.array values) => items child kind field values
  | some _ => throw (.notANode kind field)

/-- A node for the use that a slot asks for, marked with its role. -/
def use (holds : Capability) (role : Role) (any : AnyNode) : Except ImportError (Child holds) :=
  match any.as holds with
  | .ok child => .ok (child.adopt role)
  | .error reason => .error (.capability reason)

/-- The nodes of a list field; the first that cannot be used is refused. -/
def useAll (holes : Bool) (holds : Capability) (role : Role) (field : String) :
    List (Option AnyNode) → Except ImportError (Field (.list holes) holds)
  | [] => .ok .nil
  | none :: rest =>
    match holes with
    | true => do return .hole (← useAll true holds role field rest)
    | false => .error (.notANode kind field)
  | some any :: rest => do
    let first ← use holds role any
    return .cons first.node first.accepted (← useAll holes holds role field rest)

/-- The nodes of a list field. A hole where none may be is noticed before any
entry is checked. -/
def list (holes : Bool) (holds : Capability) (role : Role) (field : String)
    (entries : List (Option AnyNode)) : Except ImportError (Field (.list holes) holds) :=
  if !holes && entries.any Option.isNone then .error (.notANode kind field)
  else useAll kind holes holds role field entries

/-- The plural name under which a field may also be given as a list. -/
def pluralName? (field : String) : Option String :=
  match kind, field with
  | .tryStatement, "handler" => some "handlers"
  | _, _ => none

/-- Whether a list field may be missing, which means that it is empty. -/
def mayBeMissing (field : String) : Bool :=
  match kind, field with
  | .newExpression, "arguments" => true
  | _, _ => false

/-- A field that is missing under its own name but may be given as a list of
at most one node under a plural name. -/
def fromPlural (raw : Json) (field : String) (holds : Capability) (role : Role) :
    ExceptT ImportError m (Field .optional holds) :=
  match pluralName? kind field with
  | none => return .absent
  | some plural =>
    if raw.isAbsent plural then return .absent
    else do
      let entries ← itemsOf child kind raw plural
      if entries.any Option.isNone then throw (.notANode kind plural)
      else
        match entries with
        | [some any] => do
          let found ← liftM (use holds role any)
          return .present found.node found.accepted
        | _ :: _ :: _ => throw (.unsupportedConstruct kind "more than one catch clause")
        | _ => return .absent

/-- The field of a slot. -/
def field (raw : Json) (slot : Slot) : ExceptT ImportError m (Field slot.arity slot.holds) :=
  match slot with
  | ⟨name, .one, holds, role⟩ =>
    match raw.get? name with
    | none | some .null => throw (.missingField kind name)
    | some value => do
      let found ← liftM (use holds role (← nodeIn child kind name value))
      return .one found.node found.accepted
  | ⟨name, .optional, holds, role⟩ =>
    match raw.get? name with
    | none | some .null => fromPlural child kind raw name holds role
    | some value => do
      let found ← liftM (use holds role (← nodeIn child kind name value))
      return .present found.node found.accepted
  | ⟨name, .list holes, holds, role⟩ =>
    if mayBeMissing kind name && raw.isAbsent name then return .nil
    else do
      let entries ← itemsOf child kind raw name
      liftM (list kind holes holds role name entries)

/-- The fields of all slots, from first to last. -/
def fields (raw : Json) : (slots : List Slot) → ExceptT ImportError m (Fields slots)
  | [] => return .nil
  | slot :: slots => do
    let first ← field child kind raw slot
    return .cons first (← fields raw slots)

end fields

/-! ### Nodes and programs -/

/-- The kind that the tag of a value names. -/
def kindOf (file : Option String) (raw : Json) : Except ImportError NodeKind :=
  let tag := raw.nodeTag?.getD ""
  match NodeKind.ofTag? tag with
  | some kind => .ok kind
  | none => .error (.unhandledNodeKind tag (raw.location? file))

/-- A node of a known kind, given how to read its children. -/
def nodeOfKind {m : Type → Type} [Monad m] [MonadStateOf ImportState m] (file : Option String)
    (child : Json → ExceptT ImportError m AnyNode) (kind : NodeKind) (raw : Json) :
    ExceptT ImportError m AnyNode := do
  let data ← takeData file kind raw
  let ⟨slots, form⟩ ← liftM (attributes kind raw)
  let fields ← fields child kind raw slots
  liftM (lateCheck kind raw)
  return ⟨kind, .mk data form fields⟩

/-- A node with at most the given number of levels. -/
def node (file : Option String) : Nat → Json → Import AnyNode
  | 0, raw => do
    let _ ← liftM (kindOf file raw)
    throw (.nestingTooDeep depthLimit)
  | levels + 1, raw => do
    let kind ← liftM (kindOf file raw)
    nodeOfKind file (node file levels) kind raw

/-- A comment of the program. -/
def comment (file : Option String) (raw : Json) : Except ImportError Comment :=
  match raw.text? "type" with
  | none => .error (.malformedComment "comment has no `type`")
  | some tag =>
    match CommentKind.ofText? tag with
    | none => .error (.malformedComment ("unknown comment type `" ++ tag ++ "`"))
    | some kind =>
      match raw.text? "value" with
      | none => .error (.malformedComment "comment has no `value`")
      | some value => .ok ⟨kind, value, raw.location? file, raw.range?⟩

/-- The comments of the program. -/
def comments (file : Option String) (raw : Json) : Except ImportError (List Comment) :=
  match (raw.get? "comments").bind Json.asArray? with
  | none => .ok []
  | some values => values.mapM (comment file)

/-- Puts the doc comments of the program into the index. -/
def indexComments (found : List Comment) : Import Unit := do
  let state ← get
  let (index, failed) := state.comments.add found
  set { state with comments := index }
  match failed with
  | none => return ()
  | some text => throw (.missingCommentLocation text)

/-- Why a value that is no program is refused. -/
def refusal (file : Option String) (raw : Json) : ImportError :=
  match raw.nodeTag? with
  | none => .notAProgram
  | some tag =>
    match NodeKind.ofTag? tag with
    | none => .unhandledNodeKind tag (raw.location? file)
    | some _ => .notAProgram

/-- The name of the statement list of a program: `elements` when only that is
given. -/
def statementsName (raw : Json) : String :=
  if raw.isAbsent "body" && !raw.isAbsent "elements" then "elements" else "body"

/-- A whole program. -/
def program (file : Option String) (raw : Json) : Import Program := do
  if raw.nodeTag? ≠ some NodeKind.program.tag then throw (refusal file raw)
  let data ← takeData file .program raw
  let found ← liftM (comments file raw)
  indexComments found
  let name := statementsName raw
  let entries ← itemsOf (node file depthLimit) .program raw name
  let body ← liftM (list .program false .statement .child name entries)
  let state ← get
  let (rest, index) := state.comments.takeRest
  let (directives, index) := index.record data.id rest
  set { state with comments := index }
  return .mk { data with directives } (.program rest index.directives) (.cons body .nil)

end Import

/-- The typed program that an ESTree value stands for. -/
def importProgram (raw : Json) (file : Option String) : Except ImportError Program :=
  (Import.program file raw).run.run .start |>.1

end EsFront
