/-
What a program does to scopes.

Resolution looks at a program as a list of events, in the order in which it
is walked: scopes are entered and left, binders declare names, and other
identifiers use them (`Program.scopeEvents`). Every walked identifier is
exactly one event. Labels, property names and keys that are not computed are
not walked.
-/
import EsFront.Scope.Chain
import EsFront.Syntax.Node

namespace EsFront

/-- Where an identifier stands. -/
structure Site where
  node : NodeId
  loc : Option SourceLocation
deriving DecidableEq, Repr, Inhabited

/-- A step of the walk that concerns scopes. -/
inductive ScopeEvent where
  | enter (kind : ScopeKind)
  | leave
  /-- A name that is there before the program. -/
  | predeclare (name : String)
  | bind (binding : Binding) (name : String) (site : Site)
  | use (name : String) (site : Site)
deriving DecidableEq, Repr, Inhabited

namespace Form

variable {kind : NodeKind} {slots : List Slot}

/-- The scopes that a form opens, outermost first. The body of a function or
catch clause is a block that opens none: its owner has done so. -/
def scopes (role : Role) : Form kind slots → List ScopeKind
  | .program .. | .functionDeclaration _ | .functionExpression _ => [.function, .block]
  | .catchClause | .forStatement | .forInStatement | .switchStatement => [.block]
  | .blockStatement => if role = .body then [] else [.block]
  | _ => []

/-- The event of an identifier: it declares its name where a binder stands, and
uses it elsewhere. -/
def mention (role : Role) (data : NodeData) (form : Form kind slots) : List ScopeEvent :=
  match form.identifier? with
  | none => []
  | some found =>
    match role with
    | .binder binding => [.bind binding found.name ⟨data.id, data.loc⟩]
    | _ => [.use found.name ⟨data.id, data.loc⟩]

end Form

/-- Events between the opening and the closing of scopes. -/
def inScopes (scopes : List ScopeKind) (events : List ScopeEvent) : List ScopeEvent :=
  scopes.map .enter ++ events ++ scopes.map fun _ => .leave

mutual

/-- The events of a node that plays the given role. -/
def Node.scopeEvents {kind : NodeKind} (role : Role) : Node kind → List ScopeEvent
  | .mk data form fields =>
    inScopes (form.scopes role) (form.mention role data ++ fields.scopeEvents)

def Fields.scopeEvents {slots : List Slot} : Fields slots → List ScopeEvent
  | .nil => []
  | @Fields.cons slot _ field rest =>
    (if slot.role.isWalked then field.scopeEvents slot.role else []) ++ rest.scopeEvents

def Field.scopeEvents {arity : Arity} {holds : Capability} (role : Role) :
    Field arity holds → List ScopeEvent
  | .one node _ => node.scopeEvents role
  | .absent => []
  | .present node _ => node.scopeEvents role
  | .nil => []
  | .cons node _ rest => node.scopeEvents role ++ rest.scopeEvents role
  | .hole rest => rest.scopeEvents role

end

/-- The events of a program. The given names are there before it, in the
outermost function scope. -/
def Program.scopeEvents (names : List String) : Program → List ScopeEvent
  | .mk _ _ fields =>
    .enter .function :: (names.map .predeclare ++ inScopes [.block] fields.scopeEvents ++ [.leave])

end EsFront
