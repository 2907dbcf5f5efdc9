/-
The scope tree is the nesting of the syntax.

Some kinds of nodes open scopes; a block does, unless it is the body of a
function or catch clause (`NodeKind.opens`). The outline of a tree has nothing
but these scopes and the walked identifiers, each inside the scopes of the nodes
around it (`Node.outline`). To read it off a program one needs neither events
nor rules.

Numbering the scopes of an outline in order gives a list of scopes with the
innermost one around each (`Outline.records`), and the innermost scope around
each identifier (`Outline.located`). Main statements:

* `Live.run_shape` — what a walk leaves of scopes does not depend on names;
* `Program.draws` — the walk of a program leaves its outline;
* `importProgram_outline` — so the scope tree of an imported program, and the
  scopes of its identifiers, are those of its outline.
-/
import EsFront.Proofs.Scope.Moments

namespace EsFront

/-! ### Outlines -/

/-- Scopes and identifiers, in order, each in the scopes around it. -/
inductive Outline where
  | nil
  | identifier (node : NodeId) (rest : Outline)
  | scope (kind : ScopeKind) (inside rest : Outline)
deriving DecidableEq, Repr, Inhabited

namespace Outline

def append : Outline → Outline → Outline
  | nil, more => more
  | identifier node rest, more => identifier node (rest.append more)
  | scope kind inside rest, more => scope kind inside (rest.append more)

/-- An outline inside of scopes, outermost first. -/
def within (inside : Outline) : List ScopeKind → Outline
  | [] => inside
  | kind :: scopes => scope kind (inside.within scopes) nil

/-- How many scopes there are. -/
def count : Outline → Nat
  | nil => 0
  | identifier _ rest => rest.count
  | scope _ inside rest => inside.count + 1 + rest.count

/-- The scopes in order, with the innermost scope around each. They are numbered
from `next` on, and `around` is the innermost scope around all of them. -/
def records (around : Option ScopeId) (next : ScopeId) : Outline → List (ScopeKind × Option ScopeId)
  | nil => []
  | identifier _ rest => rest.records around next
  | scope kind inside rest =>
    (kind, around) :: inside.records (some next) (next + 1) ++
      rest.records around (next + (inside.count + 1))

/-- The identifiers that stand in a scope, with the innermost scope around
each. -/
def located (around : Option ScopeId) (next : ScopeId) : Outline → List (NodeId × ScopeId)
  | nil => []
  | identifier node rest => (around.map (node, ·)).toList ++ rest.located around next
  | scope _ inside rest =>
    inside.located (some next) (next + 1) ++ rest.located around (next + (inside.count + 1))

variable (o more : Outline) (around : Option ScopeId) (next : ScopeId)

theorem length_records : (o.records around next).length = o.count := by
  induction o generalizing around next with
  | nil => rfl
  | identifier node rest ih => exact ih around next
  | scope kind inside rest ihInside ih =>
    simp only [records, count, List.length_append, List.length_cons, ihInside, ih]

theorem records_append : (o.append more).records around next
    = o.records around next ++ more.records around (next + o.count) := by
  induction o generalizing around next with
  | nil => rfl
  | identifier node rest ih => exact ih around next
  | scope kind inside rest _ ih =>
    simp only [append, records, count, ih, List.append_assoc, Nat.add_assoc]

theorem located_append : (o.append more).located around next
    = o.located around next ++ more.located around (next + o.count) := by
  induction o generalizing around next with
  | nil => rfl
  | identifier node rest ih => simp only [append, located, count, ih, List.append_assoc]
  | scope kind inside rest _ ih =>
    simp only [append, located, count, ih, List.append_assoc, Nat.add_assoc]

end Outline

/-- Whether a block in a node of this kind is its body, and has its scope opened
by the node. -/
def NodeKind.ownsBody : NodeKind → Bool
  | functionDeclaration | functionExpression | catchClause => true
  | _ => false

/-- The scopes that a node opens, outermost first, given the kind of the node
around it. -/
def NodeKind.opens (parent : Option NodeKind) : NodeKind → List ScopeKind
  | program | functionDeclaration | functionExpression => [.function, .block]
  | catchClause | forStatement | forInStatement | switchStatement => [.block]
  | blockStatement => if parent.any ownsBody then [] else [.block]
  | _ => []

mutual

/-- The scopes and walked identifiers of a tree. -/
def Node.outline {kind : NodeKind} (parent : Option NodeKind) : Node kind → Outline
  | .mk data form fields =>
    let own : Outline := if form.identifier?.isSome then .identifier data.id .nil else .nil
    (own.append (fields.outline kind)).within (kind.opens parent)

def Fields.outline {slots : List Slot} (parent : NodeKind) : Fields slots → Outline
  | .nil => .nil
  | @Fields.cons slot _ field rest =>
    (if slot.role.isWalked then field.outline parent else .nil).append (rest.outline parent)

def Field.outline {arity : Arity} {holds : Capability} (parent : NodeKind) :
    Field arity holds → Outline
  | .one node _ => node.outline (some parent)
  | .absent => .nil
  | .present node _ => node.outline (some parent)
  | .nil => .nil
  | .cons node _ rest => (node.outline (some parent)).append (rest.outline parent)
  | .hole rest => rest.outline parent

end

/-- The scopes and walked identifiers of a program. -/
def Program.outline (program : Program) : Outline := Node.outline none program

/-! ### Shapes -/

/-- The outermost scope is opened first and closed last. -/
theorem inScopes_cons (kind : ScopeKind) (scopes : List ScopeKind) (events : List ScopeEvent) :
    inScopes (kind :: scopes) events = [.enter kind] ++ inScopes scopes events ++ [.leave] := by
  have hleave : ScopeEvent.leave :: scopes.map (fun _ => .leave)
      = scopes.map (fun _ => ScopeEvent.leave) ++ [.leave] := by
    simp only [List.map_const', ← List.replicate_succ, List.replicate_succ']
  simp only [inScopes, List.map_cons, hleave, List.append_assoc, List.cons_append, List.nil_append]

/-- What scopes are open and what remains of them, without any names. -/
structure Shape where
  /-- The open scopes, innermost first. -/
  around : List ScopeId
  /-- All scopes, with the innermost scope around each. -/
  records : List (ScopeKind × Option ScopeId)
  located : List (NodeId × ScopeId)

namespace Shape

def step (s : Shape) : ScopeEvent → Shape
  | .enter kind => ⟨s.records.length :: s.around, s.records ++ [(kind, s.around.head?)], s.located⟩
  | .leave => { s with around := s.around.tail }
  | .predeclare _ => s
  | .bind _ _ site | .use _ site =>
    { s with located := s.located ++ (s.around.head?.map (site.node, ·)).toList }

def run (s : Shape) (events : List ScopeEvent) : Shape := events.foldl step s

theorem run_append (s : Shape) (events more : List ScopeEvent) :
    s.run (events ++ more) = (s.run events).run more := List.foldl_append

/-- Adds an outline inside the open scopes. -/
def add (s : Shape) (o : Outline) : Shape :=
  ⟨s.around, s.records ++ o.records s.around.head? s.records.length,
    s.located ++ o.located s.around.head? s.records.length⟩

theorem add_nil (s : Shape) : s.add .nil = s := by
  simp [add, Outline.records, Outline.located]

theorem add_append (s : Shape) (o more : Outline) : s.add (o.append more) = (s.add o).add more := by
  simp only [add, Outline.records_append, Outline.located_append, List.append_assoc,
    List.length_append, Outline.length_records]

/-- The events leave the outline, wherever they happen. -/
def Draws (events : List ScopeEvent) (o : Outline) : Prop := ∀ s : Shape, s.run events = s.add o

namespace Draws

variable {events more : List ScopeEvent} {o o' : Outline}

theorem nil : Draws [] .nil := fun s => s.add_nil.symm

theorem append (h : Draws events o) (h' : Draws more o') : Draws (events ++ more) (o.append o') := by
  intro s
  rw [run_append, h, h', add_append]

/-- Scopes are drawn around what happens inside them. -/
theorem inScopes (h : Draws events o) (scopes : List ScopeKind) :
    Draws (inScopes scopes events) (o.within scopes) := by
  induction scopes with
  | nil =>
    intro s
    rw [show EsFront.inScopes [] events = events from List.append_nil _]
    exact h s
  | cons kind scopes ih =>
    intro s
    rw [inScopes_cons, run_append, run_append, ih]
    -- the scope gets the next number, and is open around the rest
    simp only [run, List.foldl_cons, List.foldl_nil, step, add, Outline.within, Outline.records,
      Outline.located, List.head?_cons, List.tail_cons, List.length_append, List.length_singleton,
      List.append_assoc, List.append_nil, List.nil_append, List.cons_append]

theorem predeclared (names : List String) : Draws (names.map .predeclare) .nil := by
  intro s
  rw [add_nil]
  induction names with
  | nil => rfl
  | cons name names ih => exact ih

end Draws

end Shape

/-! ### Trees and their outlines -/

section slots

variable {kind : NodeKind} {slots : List Slot}

/-- Where a block can stand in a node, it is the body exactly in functions and
catch clauses. -/
theorem Form.role_eq_body_iff (form : Form kind slots) {slot : Slot} (h : slot ∈ slots)
    (haccepts : slot.holds.accepts .blockStatement = true) :
    slot.role = .body ↔ kind.ownsBody = true := by
  cases form <;> simp only [List.mem_cons, List.not_mem_nil, or_false] at h <;>
    rcases h with rfl | rfl | rfl | rfl <;>
    simp [Capability.accepts, NodeKind.isExpression, NodeKind.isStatement, NodeKind.isDeclaration,
      NodeKind.category, NodeKind.ownsBody] at haccepts ⊢

/-- The scopes that a form opens are told by its kind and the node around it. -/
theorem Form.scopes_eq_opens (form : Form kind slots) {role : Role} {parent : Option NodeKind}
    (h : kind = .blockStatement → (role = .body ↔ parent.any NodeKind.ownsBody = true)) :
    form.scopes role = kind.opens parent := by
  cases form with
  | blockStatement => simp only [Form.scopes, NodeKind.opens, h rfl]
  | _ => rfl

theorem Form.draws_mention (form : Form kind slots) (role : Role) (data : NodeData) :
    Shape.Draws (form.mention role data)
      (if form.identifier?.isSome then .identifier data.id .nil else .nil) := by
  intro s
  unfold Form.mention
  cases form.identifier? with
  | none => exact s.add_nil.symm
  | some found =>
    cases role <;> simp [Shape.run, Shape.step, Shape.add, Outline.records, Outline.located]

end slots

mutual

/-- The events of a tree leave its outline. -/
theorem Node.draws {kind : NodeKind} {role : Role} {parent : Option NodeKind}
    (h : kind = .blockStatement → (role = .body ↔ parent.any NodeKind.ownsBody = true)) :
    ∀ node : Node kind, Shape.Draws (node.scopeEvents role) (node.outline parent)
  | .mk data form fields => by
    rw [Node.scopeEvents, Node.outline, form.scopes_eq_opens h]
    have hfields := Fields.draws (fun slot => form.role_eq_body_iff) fields
    exact ((form.draws_mention role data).append hfields).inScopes _

theorem Fields.draws {parent : NodeKind} {slots : List Slot}
    (h : ∀ slot ∈ slots, slot.holds.accepts .blockStatement = true →
      (slot.role = .body ↔ parent.ownsBody = true)) :
    ∀ fields : Fields slots, Shape.Draws fields.scopeEvents (fields.outline parent)
  | .nil => by
    rw [Fields.scopeEvents, Fields.outline]
    exact .nil
  | @Fields.cons slot _ field rest => by
    rw [List.forall_mem_cons] at h
    rw [Fields.scopeEvents, Fields.outline]
    refine Shape.Draws.append ?_ (Fields.draws h.2 rest)
    split
    · exact Field.draws h.1 field
    · exact .nil

theorem Field.draws {parent : NodeKind} {arity : Arity} {holds : Capability} {role : Role}
    (h : holds.accepts .blockStatement = true → (role = .body ↔ parent.ownsBody = true)) :
    ∀ field : Field arity holds, Shape.Draws (field.scopeEvents role) (field.outline parent)
  | .one node accepted => by
    rw [Field.scopeEvents, Field.outline]
    exact Node.draws (fun hkind => h (hkind ▸ accepted)) node
  | .absent => by
    rw [Field.scopeEvents, Field.outline]
    exact .nil
  | .present node accepted => by
    rw [Field.scopeEvents, Field.outline]
    exact Node.draws (fun hkind => h (hkind ▸ accepted)) node
  | .nil => by
    rw [Field.scopeEvents, Field.outline]
    exact .nil
  | .cons node accepted rest => by
    rw [Field.scopeEvents, Field.outline]
    exact (Node.draws (fun hkind => h (hkind ▸ accepted)) node).append (Field.draws h rest)
  | .hole rest => by
    rw [Field.scopeEvents, Field.outline]
    exact Field.draws h rest

end

/-- The walk of a program leaves its outline, whatever names are there before. -/
theorem Program.draws (names : List String) :
    ∀ program : Program, Shape.Draws (program.scopeEvents names) program.outline
  | .mk data form fields => by
    -- the names of the host are declared between the two scopes of the program
    have hfields := (Fields.draws (fun slot => form.role_eq_body_iff) fields).inScopes [.block]
    have hinner := (Shape.Draws.predeclared names).append hfields
    have hevents : Program.scopeEvents names (.mk data form fields)
        = inScopes [.function] (names.map .predeclare ++ inScopes [.block] fields.scopeEvents) := by
      simp [Program.scopeEvents, inScopes]
    rw [hevents]
    cases form with
    | program comments index => exact hinner.inScopes [.function]

/-! ### The shape of a state -/

/-- The scopes with the innermost scope around each. -/
def ScopeTree.nesting (tree : ScopeTree) : List (ScopeKind × Option ScopeId) :=
  tree.scopes.map fun record => (record.kind, record.parent)

theorem ScopeTree.nesting_addDeclaration (tree : ScopeTree) (scope : ScopeId) (decl : DeclId) :
    (tree.addDeclaration scope decl).nesting = tree.nesting := by
  refine List.ext_getElem? fun i => ?_
  simp only [nesting, addDeclaration, List.getElem?_map, List.getElem?_modify]
  cases tree.scopes[i]? with
  | none => rfl
  | some record =>
    split <;> rfl

theorem Chain.current?_eq (chain : Chain String) : chain.current? = chain.ids.head? := by
  rw [current?, ids, List.head?_map]

namespace Live

variable {live : Live String} {place : Place}

/-- The scopes of a state, together with places of identifiers. -/
def shapeWith (live : Live String) (located : List (NodeId × ScopeId)) : Shape :=
  ⟨live.chain.ids, live.tree.nesting, located⟩

/-- The scopes of a state and the places of the identifiers met. -/
def shape (live : Live String) : Shape := live.shapeWith live.resolution.identifierScopes

theorem shapeWith_record (name : String) (site : Site) (outcome : Outcome)
    (located : List (NodeId × ScopeId)) :
    (live.record name site outcome).shapeWith located = live.shapeWith located := by
  rw [shapeWith, record_chain, record_tree]
  rfl

theorem shapeWith_declare (decl : Declaration) (located : List (NodeId × ScopeId)) :
    (live.declare decl).shapeWith located = live.shapeWith located := by
  have hids : (live.declare decl).chain.ids = live.chain.ids := Chain.ids_bindAt _
  have htree : (live.declare decl).tree.nesting = live.tree.nesting :=
    ScopeTree.nesting_addDeclaration _ _ _
  rw [shapeWith, hids, htree]
  rfl

/-- An event changes the open scopes as it changes a shape. -/
theorem Coupled.shapeWith_step (h : live.Coupled) (event : ScopeEvent)
    (located : List (NodeId × ScopeId)) :
    (live.step event).shapeWith ((live.shapeWith located).step event).located
      = (live.shapeWith located).step event := by
  -- declarations and records are made inside scopes that are there already
  have hstep := step_spec h.nodup event
  generalize live.step event = next at hstep ⊢
  cases hstep with
  | enter kind =>
    simp only [shapeWith, Shape.step, Live.enter, Chain.ids, Chain.push, ScopeTree.nesting,
      ScopeTree.add, ScopeTree.nextId, Chain.current?_eq, List.map_cons, List.map_append,
      List.map_nil, List.length_map]
  | leave =>
    simp only [shapeWith, Shape.step, Live.leave, Chain.ids, Chain.pop, List.map_tail]
  | predeclared => exact shapeWith_declare _ _
  | known => rfl
  | declared => rw [shapeWith_record, shapeWith_declare]; rfl
  | merged => rw [shapeWith_record]; rfl
  | lost => rfl
  | use =>
    obtain ⟨outcome, huse⟩ := use_eq_record live _ _ _
    rw [huse, shapeWith_record]
    rfl

/-- An identifier that is met gets the innermost scope. -/
theorem identifierScopes_record {name : String} {site : Site} {outcome : Outcome} :
    (live.record name site outcome).resolution.identifierScopes
      = live.resolution.identifierScopes
        ++ (live.chain.ids.head?.map (site.node, ·)).toList := by
  rw [← Chain.current?_eq, record]
  cases live.chain.current? with
  | none => simp
  | some scope => simp [resolution, Resolution.identifierScopes]

/-- At a place that fits, every identifier leaves a record. -/
theorem Stands.identifierScopes_step (h : live.Stands place) {event : ScopeEvent}
    (hfits : event.Fits place) :
    (live.step event).resolution.identifierScopes = (live.shape.step event).located := by
  cases event with
  | enter kind => rfl
  | leave => rfl
  | predeclare name =>
    rcases h.kept.coupled.predeclare_spec name with ⟨scope, -, -, -, hstep⟩ | hstep
    · rw [hstep]
      rfl
    · rw [hstep]
      rfl
  | use name site =>
    obtain ⟨outcome, hstep⟩ := live.use_spec name site
    rw [hstep, identifierScopes_record]
    rfl
  | bind binding name site =>
    -- a binder inside a function is never lost, whatever becomes of it
    obtain ⟨block, function, rest, hview, -, hfunction, -⟩ := h.view hfits.1
    obtain ⟨verdict, -, hstep⟩ := h.kept.coupled.bind_spec hview hfunction name site
    cases verdict with
    | clashes clash first =>
      rw [hstep, identifierScopes_record]
      rfl
    | declares scope =>
      rw [hstep.2, identifierScopes_record]
      have hids : ∀ decl, (live.declare decl).chain.ids = live.chain.ids :=
        fun decl => Chain.ids_bindAt _
      rw [hids]
      rfl

/-- Along an orderly walk, open scopes and identifiers change as a shape does. -/
theorem run_shape (h : live.Stands place) {events : List ScopeEvent}
    (horderly : Orderly place events) : (live.run events).shape = live.shape.run events := by
  induction events generalizing live place with
  | nil => rfl
  | cons event events ih =>
    have hstep : (live.step event).shape = live.shape.step event := by
      rw [shape, h.identifierScopes_step horderly.1]
      exact h.kept.coupled.shapeWith_step event _
    have hrest := ih (h.step horderly.1) horderly.2
    rw [hstep] at hrest
    exact hrest

end Live

/-- The scope tree of an imported program is its outline, and so are the scopes of
its identifiers; no scope is left open. -/
theorem importProgram_outline {raw : Json} {file : Option String} {p : Program}
    (h : importProgram raw file = .ok p) (options : ResolveOptions) :
    (Live.start.run (p.scopeEvents options.names)).shape
      = ⟨[], p.outline.records none 0, p.outline.located none 0⟩ := by
  obtain ⟨data, comments, index, fields, rfl, -, hwalked, hmet⟩ := importProgram_statements h
  have horderly := (Program.allEvents hwalked hmet options).orderly
  rw [← scopeEvents_eq options.names data (.program comments index) fields] at horderly
  rw [Live.run_shape Live.stands_start horderly, Program.draws]
  rfl

end EsFront
