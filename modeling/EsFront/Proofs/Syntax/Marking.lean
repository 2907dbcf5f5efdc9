/-
What nodes are marked with, told from where they stand.

Three things in a tree repeat what its shape already says: an identifier is
marked as a binder or not, a declarator has the kind of its declaration, and
identifiers may carry what resolution found. `AnyNode.Marked` says of one node
that these things are right for its children, by the kind of the node and the
names of its fields alone.

* `bindingPlaces` — the fields that hold binders;
* `Fields.placed` — the children of a node with the fields they stand in;
* `Form.isBinder_iff`, `Form.declarationKind?_eq` — the roles of the slots
  agree with this.
-/
import EsFront.Proofs.Estree.Imported
import EsFront.Proofs.Syntax.Children

namespace EsFront

/-! ### Children in their places -/

/-- A child of a node and the slot of the field it stands in. -/
structure PlacedChild where
  slot : Slot
  child : AnyNode

/-- The nodes of all fields with their slots, from first to last. -/
def Fields.placed {slots : List Slot} : Fields slots → List PlacedChild
  | .nil => []
  | @Fields.cons slot _ field rest => field.children.map (PlacedChild.mk slot) ++ rest.placed

/-- The children of a node with the slots they stand in. -/
def AnyNode.placed : AnyNode → List PlacedChild
  | ⟨_, .mk _ _ fields⟩ => fields.placed

theorem Field.accepts_of_mem {arity : Arity} {holds : Capability} (field : Field arity holds) :
    ∀ child ∈ field.children, holds.accepts child.kind = true := by
  induction field using Field.induction with
  | one node accepted => exact List.forall_mem_singleton.mpr accepted
  | absent => exact List.forall_mem_nil _
  | present node accepted => exact List.forall_mem_singleton.mpr accepted
  | nil => exact List.forall_mem_nil _
  | cons node accepted rest ih => exact List.forall_mem_cons.mpr ⟨accepted, ih⟩
  | hole rest ih => exact ih

/-- A placed child stands in one of the slots, which accepts it. -/
theorem Fields.mem_placed {slots : List Slot} {fields : Fields slots} {placed : PlacedChild}
    (h : placed ∈ fields.placed) :
    placed.slot ∈ slots ∧ placed.slot.holds.accepts placed.child.kind = true ∧
      placed.child ∈ fields.children := by
  induction slots with
  | nil =>
    cases fields
    exact absurd h List.not_mem_nil
  | cons slot slots ih =>
    cases fields with
    | cons field rest =>
      rw [Fields.children]
      rcases List.mem_append.mp h with hfield | hrest
      · obtain ⟨child, hchild, rfl⟩ := List.mem_map.mp hfield
        exact ⟨List.mem_cons_self, Field.accepts_of_mem field child hchild,
          List.mem_append_left _ hchild⟩
      · obtain ⟨hslot, haccepts, hchild⟩ := ih hrest
        exact ⟨List.mem_cons_of_mem _ hslot, haccepts, List.mem_append_right _ hchild⟩

theorem Fields.map_child_placed {slots : List Slot} (fields : Fields slots) :
    fields.placed.map (·.child) = fields.children := by
  induction slots with
  | nil =>
    cases fields
    rfl
  | cons slot slots ih =>
    cases fields with
    | cons field rest =>
      rw [Fields.placed, Fields.children, List.map_append, ih, List.map_map]
      simp [Function.comp_def]

/-- The nodes of a tree are its root and the nodes of the placed children. -/
theorem AnyNode.mem_nodes_iff {any other : AnyNode} :
    other ∈ any.node.nodes ↔
      other = any ∨ ∃ placed ∈ any.placed, other ∈ placed.child.node.nodes := by
  obtain ⟨kind, node⟩ := any
  cases node with
  | mk data form fields =>
    rw [Node.nodes_mk, List.mem_cons, ← Fields.map_child_placed, List.flatMap_map,
      List.mem_flatMap]
    rfl

/-- What holds of a node whenever it holds of its children holds of all. -/
theorem AnyNode.placed_induction {motive : AnyNode → Prop}
    (step : ∀ any : AnyNode, (∀ placed ∈ any.placed, motive placed.child) → motive any)
    (any : AnyNode) : motive any := by
  -- children have fewer nodes
  induction hsize : any.node.nodes.length using Nat.strongRecOn generalizing any with
  | ind size ih =>
    refine step any fun placed hplaced => ?_
    obtain ⟨kind, node⟩ := any
    cases node with
    | mk data form fields =>
      have hchild : placed.child ∈ fields.children := (Fields.mem_placed hplaced).2.2
      exact ih _ (hsize ▸ Node.length_nodes_of_child hchild) placed.child rfl

/-- The children of a node of a tree are nodes of the tree. -/
theorem AnyNode.child_mem_nodes {root any : AnyNode} {placed : PlacedChild}
    (hany : any ∈ root.node.nodes) (hplaced : placed ∈ any.placed) :
    placed.child ∈ root.node.nodes := by
  induction root using AnyNode.placed_induction with
  | step root ih =>
    rw [mem_nodes_iff] at hany ⊢
    rcases hany with rfl | ⟨first, hfirst, hany⟩
    · exact .inr ⟨placed, hplaced, Node.self_mem_nodes _⟩
    · exact .inr ⟨first, hfirst, ih first hfirst hany⟩

/-- Every node of a tree but the root is a child of a node of the tree. -/
theorem AnyNode.exists_parent {root any : AnyNode} (hany : any ∈ root.node.nodes) :
    any = root ∨ ∃ parent ∈ root.node.nodes, ∃ placed ∈ parent.placed, placed.child = any := by
  induction root using AnyNode.placed_induction with
  | step root ih =>
    rcases mem_nodes_iff.mp hany with rfl | ⟨first, hfirst, hany⟩
    · exact .inl rfl
    · refine .inr ?_
      rcases ih first hfirst hany with rfl | ⟨parent, hparent, placed, hplaced, hchild⟩
      · exact ⟨root, Node.self_mem_nodes _, first, hfirst, rfl⟩
      · exact ⟨parent, mem_nodes_iff.mpr (.inr ⟨first, hfirst, hparent⟩), placed, hplaced, hchild⟩

/-! ### Marks -/

/-- The fields that hold binders: the names and parameters of functions, the
names of declarators, and the parameters of catch clauses. -/
def bindingPlaces : List (NodeKind × String) :=
  [(.functionDeclaration, "id"), (.functionDeclaration, "params"),
    (.functionExpression, "id"), (.functionExpression, "params"),
    (.variableDeclarator, "id"), (.catchClause, "param")]

/-- The kind of a declaration of variables. -/
def Form.declarationKind? {kind : NodeKind} {slots : List Slot} : Form kind slots → Option DeclKind
  | .variableDeclaration declKind => some declKind
  | _ => none

/-- The kind of a declarator. -/
def Form.declaratorKind? {kind : NodeKind} {slots : List Slot} : Form kind slots → Option DeclKind
  | .variableDeclarator declKind => some declKind
  | _ => none

def AnyNode.declarationKind? : AnyNode → Option DeclKind
  | ⟨_, .mk _ form _⟩ => form.declarationKind?

def AnyNode.declaratorKind? : AnyNode → Option DeclKind
  | ⟨_, .mk _ form _⟩ => form.declaratorKind?

/-- The node and its children are marked as the places of the children ask for,
and nothing is resolved. -/
structure AnyNode.Marked (any : AnyNode) : Prop where
  /-- Among the children that are identifiers, those in the places of binders are
  marked as such, and no others. -/
  binders : ∀ placed ∈ any.placed, ∀ found ∈ placed.child.identifier?,
    (found.isBinder = true ↔ (any.kind, placed.slot.name) ∈ bindingPlaces)
  /-- Declarators stand in declarations and have their kind. -/
  declarators : ∀ placed ∈ any.placed, ∀ declKind ∈ placed.child.declaratorKind?,
    any.declarationKind? = some declKind
  /-- Declarations have one of the kinds that can be written. -/
  keyword : ∀ declKind ∈ any.declarationKind?,
    declKind = .var ∨ declKind = .lexical ∨ declKind = .const
  unresolved : ∀ found ∈ any.identifier?, found.info = .unresolved

instance (any : AnyNode) : Decidable any.Marked :=
  decidable_of_iff
    ((∀ placed ∈ any.placed, ∀ found ∈ placed.child.identifier?,
        (found.isBinder = true ↔ (any.kind, placed.slot.name) ∈ bindingPlaces)) ∧
      (∀ placed ∈ any.placed, ∀ declKind ∈ placed.child.declaratorKind?,
        any.declarationKind? = some declKind) ∧
      (∀ declKind ∈ any.declarationKind?,
        declKind = .var ∨ declKind = .lexical ∨ declKind = .const) ∧
      ∀ found ∈ any.identifier?, found.info = .unresolved)
    ⟨fun ⟨binders, declarators, keyword, unresolved⟩ =>
        ⟨binders, declarators, keyword, unresolved⟩,
      fun ⟨binders, declarators, keyword, unresolved⟩ =>
        ⟨binders, declarators, keyword, unresolved⟩⟩

/-! ### Slots -/

section slots

variable {kind : NodeKind} {slots : List Slot} {slot : Slot}

/-- The slots of binders are those in the places of binders. -/
theorem Form.isBinder_iff (form : Form kind slots) (h : slot ∈ slots) :
    slot.role.isBinder = true ↔ (kind, slot.name) ∈ bindingPlaces := by
  cases form <;> simp only [List.mem_cons, List.not_mem_nil, or_false] at h <;>
    rcases h with rfl | rfl | rfl | rfl <;> simp [Role.isBinder, bindingPlaces]

/-- Declarators are accepted only by declarations, which give them their kind. -/
theorem Form.declarationKind?_eq (form : Form kind slots) (h : slot ∈ slots)
    (haccepts : slot.holds.accepts .variableDeclarator = true) :
    form.declarationKind? = some slot.role.declKind := by
  cases form <;> simp only [List.mem_cons, List.not_mem_nil, or_false] at h <;>
    rcases h with rfl | rfl | rfl | rfl <;>
    simp [Capability.accepts, NodeKind.isExpression, NodeKind.isStatement, NodeKind.isDeclaration,
      NodeKind.category, Form.declarationKind?, Role.declKind] at haccepts ⊢

/-- No slot accepts a program. -/
theorem Form.not_accepts_program (form : Form kind slots) (h : slot ∈ slots) :
    slot.holds.accepts .program = false := by
  cases form <;> simp only [List.mem_cons, List.not_mem_nil, or_false] at h <;>
    rcases h with rfl | rfl | rfl | rfl <;> rfl

end slots

end EsFront
