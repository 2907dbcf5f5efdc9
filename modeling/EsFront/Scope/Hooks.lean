/-
Resolution as a visitor.

The rules of scopes can be followed by a visitor that goes through a program:
it opens and closes scopes as it enters and leaves nodes, declares the names
that a node binds, and looks up the identifiers it meets (`scopeVisitor`).

A visitor is told of nodes, not of the places where they stand, and the block of
a function or catch clause must not open a scope of its own. So the state has
two more things (`ScopeWalk`): a flag that is set by functions and catch clauses
for the next block, and for each block that is open, whether it has opened a
scope.
-/
import EsFront.Scope.Resolution
import EsFront.Syntax.Walk

namespace EsFront

/-- The binders among the fields of a node. -/
def Fields.binders {slots : List Slot} : Fields slots → List ScopeEvent
  | .nil => []
  | @Fields.cons slot _ field rest =>
    (match slot.role with
      | .binder binding => field.scopeEvents (.binder binding)
      | _ => []) ++ rest.binders

/-- The state of a visitor that resolves names. -/
structure ScopeWalk where
  live : Live String
  /-- The identifiers met so far, and the innermost scope around each. -/
  located : List (NodeId × ScopeId)
  /-- For each open block, innermost first, whether it has opened a scope. -/
  blocks : List Bool
  /-- Whether the next block is the body of a function or catch clause. -/
  pending : Bool
deriving DecidableEq, Repr, Inhabited

namespace ScopeWalk

/-- Before a program is entered. -/
def start : ScopeWalk := ⟨Live.start, [], [], false⟩

/-- Lets events happen. -/
def run (walk : ScopeWalk) (events : List ScopeEvent) : ScopeWalk :=
  { walk with live := walk.live.run events }

/-- A block is entered. It opens a scope unless it is a body. -/
def enterBlock (walk : ScopeWalk) : ScopeWalk :=
  if walk.pending then { walk with blocks := false :: walk.blocks, pending := false }
  else { walk.run [.enter .block] with blocks := true :: walk.blocks }

/-- A block is left. -/
def exitBlock (walk : ScopeWalk) : ScopeWalk :=
  match walk.blocks with
  | [] => walk
  | true :: blocks => { walk.run [.leave] with blocks }
  | false :: blocks => { walk with blocks }

/-- An identifier is met. Binders have been declared by the node around them. -/
def meet (walk : ScopeWalk) (data : NodeData) (found : IdentifierView) : ScopeWalk :=
  let walk := { walk with
    located := walk.located ++ (walk.live.chain.current?.map (data.id, ·)).toList }
  if found.isBinder then walk else walk.run [.use found.name ⟨data.id, data.loc⟩]

/-- A node is entered. The name of a function declaration belongs outside the
scopes of its function, so it can be declared after they have been opened. -/
def enterNode (names : List String) : AnyNode → ScopeWalk → ScopeWalk
  | ⟨kind, .mk data form fields⟩, walk =>
    match kind with
    | .program => walk.run (.enter .function :: names.map .predeclare ++ [.enter .block])
    | .blockStatement => walk.enterBlock
    | .switchStatement | .forStatement | .forInStatement => walk.run [.enter .block]
    | .catchClause => { walk.run (.enter .block :: fields.binders) with pending := true }
    | .functionDeclaration | .functionExpression =>
      { walk.run (.enter .function :: .enter .block :: fields.binders) with pending := true }
    | .variableDeclarator => walk.run fields.binders
    | _ =>
      match form.identifier? with
      | some found => walk.meet data found
      | none => walk

/-- A node of the given kind is left. -/
def exitNode (walk : ScopeWalk) : NodeKind → ScopeWalk
  | .program | .functionDeclaration | .functionExpression => walk.run [.leave, .leave]
  | .catchClause | .switchStatement | .forStatement | .forInStatement => walk.run [.leave]
  | .blockStatement => walk.exitBlock
  | _ => walk

end ScopeWalk

/-- The visitor that resolves names; it replaces no node. The given names are
there before the program. -/
def scopeVisitor (names : List String) : Visitor ScopeWalk where
  enter := ScopeWalk.enterNode names
  exit := fun hook _ walk =>
    (none, match hook with
      | .exit kind => walk.exitNode kind
      | .exitPlaced _ => walk)

/-- Resolves the names of a program on a walk through it. -/
def Program.walkScopes (options : ResolveOptions) (program : Program) : Program × ScopeWalk :=
  program.walk (scopeVisitor options.names) .start

end EsFront
