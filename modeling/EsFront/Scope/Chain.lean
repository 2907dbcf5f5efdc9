/-
Live scopes.

While a program is walked, the scopes around the current place form a chain,
innermost first. Every frame is a function or a block scope, so one chain
gives two views: all frames, and those from the current place out to the
nearest function (`Chain.blocks`, `Chain.function?`).

Names are looked up from the inside out, and the first frame that knows a name
decides (`Chain.lookup`). The type of names is a parameter.
-/
namespace EsFront

/-- The number of a scope, in the order in which scopes are opened. A program is
taken to open fewer than `2 ^ 32` of them, so numbers have no bound here. -/
abbrev ScopeId := Nat

/-- The number of a declaration, in the order in which they are made; again fewer
than `2 ^ 32` are assumed. -/
abbrev DeclId := Nat

/-- The kinds of scopes. -/
inductive ScopeKind where
  | function
  | block
deriving DecidableEq, Repr, Inhabited

namespace ScopeKind

def text : ScopeKind → String
  | function => "function"
  | block => "block"

end ScopeKind

/-- A live scope and the names bound in it. -/
structure Frame (κ : Type) where
  id : ScopeId
  kind : ScopeKind
  /-- The binding made last comes first. -/
  names : List (κ × DeclId)
deriving DecidableEq, Repr, Inhabited

namespace Frame

variable {κ : Type} [DecidableEq κ]

/-- What a name was last bound to in this very scope. -/
def local? (frame : Frame κ) (name : κ) : Option DeclId :=
  (frame.names.find? (·.1 = name)).map (·.2)

/-- Binds a name, in place of what it was bound to before. -/
def insert (frame : Frame κ) (name : κ) (decl : DeclId) : Frame κ :=
  { frame with names := (name, decl) :: frame.names }

end Frame

/-- The live scopes, innermost first. -/
abbrev Chain (κ : Type) := List (Frame κ)

namespace Chain

variable {κ : Type} [DecidableEq κ]

/-- The innermost scope. -/
def current? (chain : Chain κ) : Option ScopeId := chain.head?.map (·.id)

/-- What a name is bound to in the innermost scope. -/
def local? (chain : Chain κ) (name : κ) : Option DeclId := chain.head?.bind (·.local? name)

/-- What a name refers to: the first frame that binds it decides. -/
def lookup (chain : Chain κ) (name : κ) : Option DeclId := chain.findSome? (·.local? name)

/-- The block scopes out to the nearest function scope. -/
def blocks (chain : Chain κ) : Chain κ := chain.takeWhile (·.kind = .block)

/-- The nearest function scope. -/
def function? (chain : Chain κ) : Option (Frame κ) := chain.find? (·.kind = .function)

/-- Opens a scope. -/
def push (chain : Chain κ) (id : ScopeId) (kind : ScopeKind) : Chain κ := ⟨id, kind, []⟩ :: chain

/-- Closes the innermost scope. -/
def pop (chain : Chain κ) : Chain κ := chain.tail

/-- Binds a name in the innermost scope. -/
def insert (chain : Chain κ) (name : κ) (decl : DeclId) : Chain κ :=
  match chain with
  | [] => []
  | frame :: rest => frame.insert name decl :: rest

/-- Binds a name in the nearest function scope. -/
def insertFunction (chain : Chain κ) (name : κ) (decl : DeclId) : Chain κ :=
  match chain with
  | [] => []
  | frame :: rest =>
    if frame.kind = .function then frame.insert name decl :: rest
    else frame :: insertFunction rest name decl

end Chain

end EsFront
