/-
The tree of scopes.

What remains of the scopes of a program when they are closed: their kinds,
how they are nested, and the declarations made in each. A scope is opened
after the one around it, so its number is greater; this bounds the way out
(`ScopeTree.ancestors`).
-/
import EsFront.Scope.Chain

namespace EsFront

/-- What remains of a scope. -/
structure ScopeRecord where
  kind : ScopeKind
  parent : Option ScopeId
  /-- The declarations bound in this scope, in order. -/
  declarations : List DeclId
deriving DecidableEq, Repr, Inhabited

/-- All scopes, each at the place that its number says. -/
structure ScopeTree where
  scopes : List ScopeRecord
deriving DecidableEq, Repr, Inhabited

namespace ScopeTree

def empty : ScopeTree := ⟨[]⟩

/-- The number of the next scope. -/
def nextId (tree : ScopeTree) : ScopeId := tree.scopes.length

/-- Adds a scope inside `parent`. -/
def add (tree : ScopeTree) (kind : ScopeKind) (parent : Option ScopeId) : ScopeTree :=
  ⟨tree.scopes ++ [⟨kind, parent, []⟩]⟩

/-- Lists a declaration in its scope. -/
def addDeclaration (tree : ScopeTree) (scope : ScopeId) (decl : DeclId) : ScopeTree :=
  ⟨tree.scopes.modify scope fun s => { s with declarations := s.declarations ++ [decl] }⟩

def get? (tree : ScopeTree) (scope : ScopeId) : Option ScopeRecord := tree.scopes[scope]?

/-- The scope around a scope. -/
def parent? (tree : ScopeTree) (scope : ScopeId) : Option ScopeId :=
  (tree.get? scope).bind (·.parent)

/-- A scope and all scopes around it, innermost first. -/
def ancestors (tree : ScopeTree) (scope : ScopeId) : List ScopeId :=
  scope ::
    match tree.parent? scope with
    | some parent => if parent < scope then ancestors tree parent else []
    | none => []
termination_by scope

/-- Whether `inner` is `outer` or lies inside it. -/
def isWithin (tree : ScopeTree) (inner outer : ScopeId) : Bool :=
  (tree.ancestors inner).any (· = outer)

end ScopeTree

end EsFront
