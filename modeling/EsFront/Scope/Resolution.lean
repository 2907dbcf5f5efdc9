/-
Name resolution of a whole program.

* `Program.resolution` — scopes, declarations, and what becomes of every
  identifier;
* `Program.resolve` — the same, with the program in which every walked
  identifier has taken over the name and the mark of the declaration it names;
* `Program.annotated` — the program with nothing but the marks.
-/
import EsFront.Scope.Resolver

namespace EsFront

/-- The names that every program may use without declaring them. -/
def hostNames : List String :=
  ["Array", "Boolean", "Date", "Error", "EvalError", "Function", "Infinity", "JSON", "Math",
    "NaN", "Number", "Object", "RangeError", "ReferenceError", "RegExp", "String",
    "SyntaxError", "TypeError", "URIError", "decodeURI", "decodeURIComponent", "encodeURI",
    "encodeURIComponent", "escape", "eval", "isFinite", "isNaN", "parseFloat", "parseInt",
    "print", "undefined", "unescape"]

/-- Which names are there before the program. -/
structure ResolveOptions where
  /-- Whether the names of the host are. -/
  hostGlobals : Bool := true
  /-- Further names. -/
  globals : List String := []
deriving DecidableEq, Repr, Inhabited

namespace ResolveOptions

/-- The names that are there before the program, in order. -/
def names (options : ResolveOptions) : List String :=
  (if options.hostGlobals then hostNames else []) ++ options.globals

end ResolveOptions

/-- What resolution finds out about a program. -/
structure Resolution where
  declarations : List Declaration
  scopes : ScopeTree
  /-- Every walked identifier, in order. -/
  mentions : List Mention
deriving DecidableEq, Repr, Inhabited

namespace Resolution

/-- The declaration that each identifier names, where it names one. -/
def references (r : Resolution) : List (NodeId × DeclId) :=
  r.mentions.filterMap fun m => m.target?.map fun d => (m.site.node, d.id)

/-- The innermost scope around each identifier. -/
def identifierScopes (r : Resolution) : List (NodeId × ScopeId) :=
  r.mentions.map fun m => (m.site.node, m.scope)

/-- What is reported, in order. -/
def diagnostics (r : Resolution) : Diagnostics := r.mentions.filterMap (·.diagnostic?)

/-- The declarations made by the program itself. -/
def programDeclarations (r : Resolution) : List Declaration :=
  r.declarations.filter (!·.isHost)

/-- What was recorded of the identifier with the given number. -/
def mention? (r : Resolution) (node : NodeId) : Option Mention :=
  r.mentions.find? (·.site.node = node)

/-- What the identifier with the given number is marked with. -/
def infoOf (r : Resolution) (node : NodeId) : ResolutionInfo :=
  match r.mention? node with
  | some m => m.info
  | none => .unresolved

/-- What the identifier with the given number says after resolution. It takes
over the name and the mark of the declaration it refers to, and loses its old
mark if it refers to none. A binder that was not recorded stays as it is. -/
def unify (r : Resolution) (node : NodeId) (found : IdentifierView) : IdentifierView :=
  match r.mention? node with
  | some m =>
    match m.target? with
    | some decl => { found with name := decl.name, info := decl.info }
    | none => { found with info := .unresolved }
  | none => if found.isBinder then found else { found with info := .unresolved }

end Resolution

/-- Changes what an identifier says; other forms stay as they are. -/
def Form.mark {kind : NodeKind} {slots : List Slot} (change : IdentifierView → IdentifierView) :
    Form kind slots → Form kind slots
  | .identifier name isBinder info =>
    let found := change ⟨name, isBinder, info⟩
    .identifier found.name found.isBinder found.info
  | form => form

section mark

variable (change : NodeId → IdentifierView → IdentifierView)

mutual

/-- Changes what the walked identifiers of a tree say. -/
def Node.mark {kind : NodeKind} : Node kind → Node kind
  | .mk data form fields => .mk data (form.mark (change data.id)) fields.mark

def Fields.mark {slots : List Slot} : Fields slots → Fields slots
  | .nil => .nil
  | @Fields.cons slot _ field rest =>
    .cons (if slot.role.isWalked then field.mark else field) rest.mark

def Field.mark {arity : Arity} {holds : Capability} : Field arity holds → Field arity holds
  | .one node accepted => .one node.mark accepted
  | .absent => .absent
  | .present node accepted => .present node.mark accepted
  | .nil => .nil
  | .cons node accepted rest => .cons node.mark accepted rest.mark
  | .hole rest => .hole rest.mark

end

end mark

/-- Marks the walked identifiers of a tree. -/
def Node.annotate {kind : NodeKind} (info : NodeId → ResolutionInfo) (node : Node kind) :
    Node kind :=
  node.mark fun id found => { found with info := info id }

/-- What a walk has found out. -/
def Live.resolution {κ : Type} (live : Live κ) : Resolution :=
  ⟨live.declarations, live.tree, live.mentions⟩

namespace Program

/-- Resolves all names of a program. -/
def resolution (options : ResolveOptions) (program : Program) : Resolution :=
  (Live.start.run (program.scopeEvents options.names)).resolution

/-- The program with its identifiers marked as a resolution says. -/
def annotated (program : Program) (resolution : Resolution) : Program :=
  program.annotate resolution.infoOf

/-- Resolves all names of a program and makes its identifiers say what they were
found to be. -/
def resolve (options : ResolveOptions) (program : Program) : Program × Resolution :=
  let found := program.resolution options
  (program.mark found.unify, found)

end Program

end EsFront
