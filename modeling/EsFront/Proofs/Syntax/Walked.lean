/-
The walked nodes of a tree.

A walk passes over what is only a name: labels, and the properties of members
and keys of properties that are not computed. The nodes of a tree are the walked
ones (`Node.walked`) and those inside the names of walked nodes
(`AnyNode.nodes_perm`). So, when no number is used twice, the numbers of the
walked nodes are those of all nodes, in the same order, without the numbers
inside names: `AnyNode.walked_ids`.
-/
import EsFront.Proofs.Syntax.Marking
import Mathlib.Data.List.Perm.Basic

namespace EsFront

mutual

/-- The walked nodes of a tree, a parent before its children. -/
def Node.walked {kind : NodeKind} : Node kind → List AnyNode
  | .mk data form fields => ⟨kind, .mk data form fields⟩ :: fields.walked

def Fields.walked {slots : List Slot} : Fields slots → List AnyNode
  | .nil => []
  | @Fields.cons slot _ field rest =>
    (if slot.role.isWalked then field.walked else []) ++ rest.walked

def Field.walked {arity : Arity} {holds : Capability} : Field arity holds → List AnyNode
  | .one node _ => node.walked
  | .absent => []
  | .present node _ => node.walked
  | .nil => []
  | .cons node _ rest => node.walked ++ rest.walked
  | .hole rest => rest.walked

end

theorem Field.walked_eq {arity : Arity} {holds : Capability} (field : Field arity holds) :
    field.walked = field.children.flatMap (·.node.walked) := by
  induction field using Field.induction with
  | one => rw [Field.walked, Field.children, List.flatMap_singleton]
  | absent => rw [Field.walked, Field.children, List.flatMap_nil]
  | present => rw [Field.walked, Field.children, List.flatMap_singleton]
  | nil => rw [Field.walked, Field.children, List.flatMap_nil]
  | cons node _ rest ih => rw [Field.walked, Field.children, List.flatMap_cons, ih]
  | hole rest ih => rw [Field.walked, Field.children, ih]

theorem Fields.walked_eq {slots : List Slot} (fields : Fields slots) :
    fields.walked
      = fields.placed.flatMap fun placed =>
          if placed.slot.role.isWalked then placed.child.node.walked else [] := by
  induction slots with
  | nil =>
    cases fields
    rw [Fields.walked, Fields.placed, List.flatMap_nil]
  | cons slot slots ih =>
    cases fields with
    | cons field rest =>
      rw [Fields.walked, Fields.placed, List.flatMap_append, List.flatMap_map, ih]
      congr 1
      dsimp only
      split
      · exact field.walked_eq
      · exact (List.flatMap_eq_nil_iff.mpr fun _ _ => rfl).symm

/-- The walked nodes of a tree are its root and those of the children that are
walked. -/
theorem AnyNode.walked_eq (any : AnyNode) :
    any.node.walked = any :: any.placed.flatMap fun placed =>
      if placed.slot.role.isWalked then placed.child.node.walked else [] := by
  obtain ⟨kind, node⟩ := any
  cases node with
  | mk data form fields => rw [Node.walked, Fields.walked_eq, AnyNode.placed]

theorem AnyNode.nodes_eq (any : AnyNode) :
    any.node.nodes = any :: any.placed.flatMap (·.child.node.nodes) := by
  obtain ⟨kind, node⟩ := any
  cases node with
  | mk data form fields =>
    rw [Node.nodes_mk, AnyNode.placed, ← Fields.map_child_placed, List.flatMap_map]

/-! ### Names -/

/-- The fields whose nodes are names: labels, and the properties of members and
keys of properties unless they are computed. -/
def namePlaces : List (NodeKind × String) :=
  [(.labeledStatement, "label"), (.breakStatement, "label"), (.continueStatement, "label"),
    (.memberExpression, "property"), (.property, "key")]

/-- Whether the property of a member or the key of a property is computed. -/
def Form.isComputed {kind : NodeKind} {slots : List Slot} : Form kind slots → Bool
  | .memberExpression computed => computed
  | .property _ computed _ => computed
  | _ => false

namespace AnyNode

def isComputed : AnyNode → Bool
  | ⟨_, .mk _ form _⟩ => form.isComputed

/-- Whether a child of the node is only a name. -/
def isName (any : AnyNode) (placed : PlacedChild) : Bool :=
  namePlaces.contains (any.kind, placed.slot.name) && !any.isComputed

/-- The nodes inside the names that are children of the node. -/
def names (any : AnyNode) : List AnyNode :=
  any.placed.flatMap fun placed => if any.isName placed then placed.child.node.nodes else []

end AnyNode

/-- The nodes inside the names of a tree. -/
def Node.names {kind : NodeKind} (node : Node kind) : List AnyNode := node.nodes.flatMap (·.names)

/-- The slots that are not walked are those of names. -/
theorem Form.isWalked_iff {kind : NodeKind} {slots : List Slot} {slot : Slot}
    (form : Form kind slots) (h : slot ∈ slots) :
    slot.role.isWalked = !(namePlaces.contains (kind, slot.name) && !form.isComputed) := by
  cases form <;> simp only [List.mem_cons, List.not_mem_nil, or_false] at h <;>
    rcases h with rfl | rfl | rfl | rfl <;> simp [Role.isWalked, namePlaces, Form.isComputed]

namespace AnyNode

theorem isWalked_of_placed {any : AnyNode} {placed : PlacedChild} (h : placed ∈ any.placed) :
    placed.slot.role.isWalked = !any.isName placed := by
  obtain ⟨kind, node⟩ := any
  cases node with
  | mk data form fields => exact form.isWalked_iff (Fields.mem_placed h).1

theorem mem_nodes_trans {root any other : AnyNode} (hany : any ∈ root.node.nodes)
    (hother : other ∈ any.node.nodes) : other ∈ root.node.nodes := by
  induction root using AnyNode.placed_induction with
  | step root ih =>
    rcases mem_nodes_iff.mp hany with rfl | ⟨placed, hplaced, hany⟩
    · exact hother
    · exact mem_nodes_iff.mpr (.inr ⟨placed, hplaced, ih placed hplaced hany⟩)

theorem mem_names {any other : AnyNode} :
    other ∈ any.names ↔
      ∃ placed ∈ any.placed, any.isName placed = true ∧ other ∈ placed.child.node.nodes := by
  rw [names, List.mem_flatMap]
  refine exists_congr fun placed => and_congr_right fun _ => ?_
  cases any.isName placed <;> simp

/-! ### The two parts of a tree -/

/-- The nodes of a tree are the walked ones and those inside their names. -/
theorem nodes_perm (any : AnyNode) :
    any.node.nodes.Perm (any.node.walked ++ any.node.walked.flatMap names) := by
  induction any using AnyNode.placed_induction with
  | step any ih =>
    -- child by child: a walked one by induction, a name as a whole
    have hchildren : (any.placed.flatMap (·.child.node.nodes)).Perm
        (any.placed.flatMap fun placed =>
          (if placed.slot.role.isWalked then placed.child.node.walked else []) ++
            ((if any.isName placed then placed.child.node.nodes else []) ++
              if placed.slot.role.isWalked then placed.child.node.walked.flatMap names else [])) := by
      refine List.Perm.flatMap_left _ fun placed hplaced => ?_
      have hwalked := isWalked_of_placed hplaced
      cases hname : any.isName placed with
      | true =>
        rw [hname] at hwalked
        rw [hwalked]
        simp
      | false =>
        rw [hname] at hwalked
        rw [hwalked]
        simpa using ih placed hplaced
    have hbelow : (any.placed.flatMap fun placed =>
        if placed.slot.role.isWalked then placed.child.node.walked else []).flatMap names
        = any.placed.flatMap fun placed =>
            if placed.slot.role.isWalked then placed.child.node.walked.flatMap names else [] := by
      rw [List.flatMap_assoc]
      congr 1
      funext placed
      split <;> rfl
    rw [nodes_eq, walked_eq, List.cons_append, List.flatMap_cons, hbelow]
    refine (hchildren.trans (List.flatMap_append_perm _ _ _).symm).cons any |>.trans ?_
    refine List.Perm.cons any (List.Perm.append_left _ ?_)
    exact (List.flatMap_append_perm _ _ _).symm

/-- What is inside a name of the tree is inside a name of a walked node. -/
theorem mem_names_iff {root other : AnyNode} :
    other ∈ root.node.names ↔ other ∈ root.node.walked.flatMap names := by
  have hsplit : ∀ any, any ∈ root.node.nodes ↔
      any ∈ root.node.walked ∨ any ∈ root.node.walked.flatMap names :=
    fun any => root.nodes_perm.mem_iff.trans List.mem_append
  rw [Node.names, List.mem_flatMap, List.mem_flatMap]
  constructor
  · rintro ⟨parent, hparent, hother⟩
    rcases (hsplit parent).mp hparent with hwalked | hname
    · exact ⟨parent, hwalked, hother⟩
    · -- the parent is inside a name itself
      obtain ⟨outer, houter, hparent⟩ := List.mem_flatMap.mp hname
      obtain ⟨placed, hplaced, hisName, hparent⟩ := mem_names.mp hparent
      obtain ⟨inner, hinner, -, hother⟩ := mem_names.mp hother
      have hnode : other ∈ parent.node.nodes := mem_nodes_iff.mpr (.inr ⟨inner, hinner, hother⟩)
      exact ⟨outer, houter, mem_names.mpr ⟨placed, hplaced, hisName, mem_nodes_trans hparent hnode⟩⟩
  · rintro ⟨parent, hparent, hother⟩
    exact ⟨parent, (hsplit parent).mpr (.inl hparent), hother⟩

/-- What is kept of the nodes of a tree are the walked ones, if these are kept
and what is inside their names is not. -/
theorem filter_nodes {keep : AnyNode → Bool} {any : AnyNode}
    (hwalked : ∀ other ∈ any.node.walked, keep other = true)
    (hnames : ∀ other ∈ any.node.walked.flatMap names, keep other = false) :
    any.node.nodes.filter keep = any.node.walked := by
  induction any using AnyNode.placed_induction with
  | step any ih =>
    rw [walked_eq] at hwalked hnames
    rw [List.forall_mem_cons] at hwalked
    rw [List.flatMap_cons] at hnames
    rw [nodes_eq, walked_eq, List.filter_cons_of_pos hwalked.1, List.filter_flatMap]
    congr 1
    refine List.flatMap_congr fun placed hplaced => ?_
    have hrole := isWalked_of_placed hplaced
    cases hname : any.isName placed with
    | true =>
      rw [hname] at hrole
      -- a name is not walked, and nothing inside it is kept
      rw [hrole, List.filter_eq_nil_iff.mpr]
      · rfl
      · intro other hother
        rw [hnames other (List.mem_append_left _ (mem_names.mpr ⟨placed, hplaced, hname, hother⟩))]
        exact Bool.false_ne_true
    | false =>
      rw [hname] at hrole
      -- a child that is no name is walked like the node itself
      have hmem : ∀ other ∈ placed.child.node.walked, other ∈ any.placed.flatMap fun placed =>
          if placed.slot.role.isWalked then placed.child.node.walked else [] := by
        intro other hother
        refine List.mem_flatMap.mpr ⟨placed, hplaced, ?_⟩
        rw [hrole]
        exact hother
      rw [hrole]
      refine ih placed hplaced (fun other hother => hwalked.2 other (hmem other hother)) ?_
      intro other hother
      obtain ⟨parent, hparent, hother⟩ := List.mem_flatMap.mp hother
      exact hnames other (List.mem_append_right _
        (List.mem_flatMap.mpr ⟨parent, hmem parent hparent, hother⟩))

/-- The numbers of the walked nodes are those of all nodes, in the same order,
without the numbers inside names, if no number is used twice. -/
theorem walked_ids {any : AnyNode} (hnodup : (any.node.nodes.map (·.node.id)).Nodup) :
    any.node.walked.map (·.node.id)
      = (any.node.nodes.map (·.node.id)).filter (· ∉ any.node.names.map (·.node.id)) := by
  have hparts := ((any.nodes_perm.map (·.node.id)).nodup_iff.mp hnodup)
  rw [List.map_append, List.nodup_append] at hparts
  have hnames : ∀ id, id ∈ any.node.names.map (·.node.id) ↔
      id ∈ (any.node.walked.flatMap names).map (·.node.id) := by
    intro id
    simp only [List.mem_map, mem_names_iff]
  rw [List.filter_map]
  congr 1
  refine (filter_nodes ?_ ?_).symm
  · intro other hother
    refine decide_eq_true ?_
    rw [hnames]
    intro hname
    exact hparts.2.2 _ (List.mem_map_of_mem hother) _ hname rfl
  · intro other hother
    refine decide_eq_false (not_not_intro ?_)
    rw [hnames]
    exact List.mem_map_of_mem hother

end AnyNode

end EsFront
