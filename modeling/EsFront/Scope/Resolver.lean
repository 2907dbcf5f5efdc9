/-
The rules of scopes.

`Live` is the state of a walk: the live chain, the tree of all scopes, the
declarations so far, and the record of every identifier met. One event is one
step (`Live.step`).

Where a binder declares its name depends on how it binds:
* `let`, `const` and catch parameters bind in the innermost scope. The name
  must be new there, and no name of the function may have been declared in
  that block or inside it;
* `var` and the names of functions bind in the nearest function scope. The
  name must be new there, and no block on the way may bind it by `let` or
  `const`;
* parameters bind in the scope of their function, where they take precedence
  over the function's own name.

A binder that breaks its rule is merged into the declaration it clashes with.
Names that were there before the program give way.
-/
import EsFront.Scope.Declaration
import EsFront.Scope.Tree

namespace EsFront

/-- The state of a walk. -/
structure Live (κ : Type) where
  chain : Chain κ
  tree : ScopeTree
  declarations : List Declaration
  mentions : List Mention
deriving DecidableEq, Repr, Inhabited

/-- Whether a binder may declare its name, and in which scope. -/
inductive Verdict where
  | declares (scope : ScopeId)
  | clashes (clash : Clash) (first : Declaration)
deriving DecidableEq, Repr, Inhabited

namespace Binding

/-- The kind of declaration a binder makes. -/
def kind : Binding → DeclKind
  | declarator kind => kind
  | functionName | ownName => .function
  | parameter => .argument
  | catchParameter => .caught

/-- How many of the innermost live scopes do not concern the binder: the name
of a function declaration belongs outside the two scopes of its function. -/
def skipped : Binding → Nat
  | functionName => 2
  | declarator _ | ownName | parameter | catchParameter => 0

/-- Whether the name is bound in the innermost scope, not in the function. -/
def isLexical (binding : Binding) : Bool := binding.kind.isBlockScoped

end Binding

namespace Live

variable {κ : Type} [DecidableEq κ]

/-- Before the first event. -/
def start : Live κ := ⟨[], .empty, [], []⟩

/-- The declaration that a name is bound to in the very scope of a frame. -/
def declared? (live : Live κ) (frame : Frame κ) (name : κ) : Option Declaration :=
  (frame.local? name).bind (live.declarations[·]?)

/-! ### Scopes -/

/-- Opens a scope. -/
def enter (live : Live κ) (kind : ScopeKind) : Live κ :=
  { live with
    chain := live.chain.push live.tree.nextId kind
    tree := live.tree.add kind live.chain.current? }

/-- Closes the innermost scope. -/
def leave (live : Live κ) : Live κ := { live with chain := live.chain.pop }

/-! ### Binders -/

/-- The rule for names bound in the innermost scope of `view`. -/
def lexicalVerdict (live : Live κ) (view : Chain κ) (name : κ) : Option Verdict :=
  match view with
  | [] => none
  | frame :: _ =>
    match live.declared? frame name with
    | some first => some (.clashes .redeclaration first)
    | none =>
      let hoisted := (view.function?.bind (live.declared? · name)).filter fun d =>
        !d.isHost && live.tree.isWithin d.blockScope frame.id
      match hoisted with
      | some first => some (.clashes .conflict first)
      | none => some (.declares frame.id)

/-- The rule for names bound in the nearest function scope of `view`. -/
def hoistedVerdict (live : Live κ) (view : Chain κ) (name : κ) : Option Verdict :=
  let shadowing := view.blocks.findSome? fun frame =>
    (live.declared? frame name).filter fun d => d.kind = .lexical || d.kind = .const
  match shadowing with
  | some first => some (.clashes .conflict first)
  | none =>
    view.function?.map fun function =>
      match (live.declared? function name).filter fun d => !d.isHost with
      | some first => .clashes .redeclaration first
      | none => .declares function.id

/-- The rule for parameters. -/
def parameterVerdict (live : Live κ) (view : Chain κ) (name : κ) : Option Verdict :=
  view.function?.map fun function =>
    match (live.declared? function name).filter fun d => d.kind ≠ .function with
    | some first => .clashes .redeclaration first
    | none => .declares function.id

/-- The rule for a binder, given the scopes that concern it. -/
def verdict (live : Live κ) (binding : Binding) (view : Chain κ) (name : κ) : Option Verdict :=
  match binding with
  | .parameter => live.parameterVerdict view name
  | binding =>
    if binding.isLexical then live.lexicalVerdict view name else live.hoistedVerdict view name

/-- Records an identifier at the current place. -/
def record (live : Live κ) (name : String) (site : Site) (outcome : Outcome) : Live κ :=
  match live.chain.current? with
  | none => live
  | some scope => { live with mentions := live.mentions ++ [⟨name, site, scope, outcome⟩] }

/-- Makes a declaration and lists it in its scope. -/
def addDeclaration (live : Live κ) (decl : Declaration) (chain : Chain κ) : Live κ :=
  { live with
    chain
    tree := live.tree.addDeclaration decl.scope decl.id
    declarations := live.declarations ++ [decl] }

/-- The chain after a binder has bound its name. -/
def bound (binding : Binding) (chain : Chain κ) (name : κ) (decl : DeclId) : Chain κ :=
  let inner : Chain κ := chain.take binding.skipped
  let view : Chain κ := chain.drop binding.skipped
  inner ++ if binding.isLexical then view.insert name decl else view.insertFunction name decl

/-- A binder: it declares its name, or is merged into what it clashes with. The
name is looked up as `key`. -/
def bind (live : Live κ) (key : κ) (binding : Binding) (name : String) (site : Site) : Live κ :=
  let view : Chain κ := live.chain.drop binding.skipped
  match view.current?, live.verdict binding view key with
  | some blockScope, some (.declares scope) =>
    let id := live.declarations.length
    let decl := ⟨id, name, binding.kind, some site, scope, blockScope⟩
    (live.addDeclaration decl (bound binding live.chain key id)).record name site (.declared decl)
  | _, some (.clashes clash first) => live.record name site (.merged clash binding.kind first)
  | _, _ => live

/-- Declares a name of the host in the innermost scope, unless it is there. -/
def predeclare (live : Live κ) (key : κ) (name : String) : Live κ :=
  match live.chain.current?, live.chain.local? key with
  | some scope, none =>
    let id := live.declarations.length
    live.addDeclaration ⟨id, name, .var, none, scope, scope⟩ (live.chain.insert key id)
  | _, _ => live

/-! ### Uses -/

/-- A use of a name, given what was found for it. -/
def use (live : Live κ) (found : Option DeclId) (name : String) (site : Site) : Live κ :=
  match found.bind (live.declarations[·]?) with
  | some decl => live.record name site (.resolved decl)
  | none => live.record name site .undefined

/-- One event, with names that stand for themselves. -/
def step (live : Live String) : ScopeEvent → Live String
  | .enter kind => live.enter kind
  | .leave => live.leave
  | .predeclare name => live.predeclare name name
  | .bind binding name site => live.bind name binding name site
  | .use name site => live.use (live.chain.lookup name) name site

/-- Events from first to last. -/
def run (live : Live String) (events : List ScopeEvent) : Live String := events.foldl step live

end Live

end EsFront
