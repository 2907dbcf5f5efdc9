/-
Declarations, and what becomes of an identifier.

Every walked identifier leaves a record: a binder makes a declaration, or is
merged into an earlier one of its name; a use refers to a declaration, or is
undefined. The diagnostics of resolution are read off the records
(`Mention.diagnostic?`), and so are the references (`Mention.target?`).
-/
import EsFront.Diagnostic.Basic
import EsFront.Scope.Event

namespace EsFront

/-- A name that was introduced. -/
structure Declaration where
  id : DeclId
  name : String
  kind : DeclKind
  /-- The declaring identifier; the host's own names have none. -/
  site : Option Site
  /-- The scope that binds the name. -/
  scope : ScopeId
  /-- The innermost scope around the declaring identifier. -/
  blockScope : ScopeId
deriving DecidableEq, Repr, Inhabited

namespace Declaration

/-- Whether the name was there before the program. -/
def isHost (d : Declaration) : Bool := d.site.isNone

def loc (d : Declaration) : Option SourceLocation := d.site.bind (·.loc)

/-- What identifiers that refer to the declaration are marked with. -/
def info (d : Declaration) : ResolutionInfo := ⟨some d.id, some d.blockScope⟩

end Declaration

/-- The ways in which a binder can repeat a name. -/
inductive Clash where
  /-- The name was already bound in the same scope. -/
  | redeclaration
  /-- A name of the function meets one of a block. -/
  | conflict
deriving DecidableEq, Repr, Inhabited

/-- What a clash of the two kinds is called; an error if either is constant. -/
def Clash.message (clash : Clash) (first second : DeclKind) : Message :=
  if first.isConst || second.isConst then .constantDefinedTwice
  else
    match clash with
    | redeclaration => .variableDefinedTwice
    | conflict => .varConflict

/-- What becomes of an identifier. -/
inductive Outcome where
  | declared (decl : Declaration)
  /-- A binder of the given kind that repeats the name of `first`. -/
  | merged (clash : Clash) (kind : DeclKind) (first : Declaration)
  | resolved (decl : Declaration)
  | undefined
deriving DecidableEq, Repr, Inhabited

/-- An identifier, the innermost scope around it, and what became of it. -/
structure Mention where
  name : String
  site : Site
  scope : ScopeId
  outcome : Outcome
deriving DecidableEq, Repr, Inhabited

namespace Mention

/-- The declaration that the identifier names. -/
def target? (m : Mention) : Option Declaration :=
  match m.outcome with
  | .declared decl => some decl
  | .merged _ _ first => some first
  | .resolved decl => some decl
  | .undefined => none

/-- What the identifier is marked with. -/
def info (m : Mention) : ResolutionInfo :=
  match m.target? with
  | some decl => decl.info
  | none => .unresolved

/-- The report of a repeated name, with both definitions. -/
def clashReport (m : Mention) (clash : Clash) (kind : DeclKind) (first : Declaration) :
    Diagnostic :=
  let report := Diagnostic.located m.site.loc (clash.message first.kind kind) [m.name]
  let firstSite := Diagnostic.located first.loc .firstDefinition [first.kind.text]
  let secondSite := Diagnostic.located m.site.loc .secondDefinition [kind.text]
  (report.relate firstSite).relate secondSite

/-- What is reported about the identifier. -/
def diagnostic? (m : Mention) : Option Diagnostic :=
  match m.outcome with
  | .merged clash kind first => some (m.clashReport clash kind first)
  | .undefined => some (Diagnostic.located m.site.loc .undefinedIdentifier [m.name])
  | .declared _ | .resolved _ => none

end Mention

end EsFront
