/-
The children of a node.

* `Fields.children` — the nodes of all fields, whatever the slots;
* `Node.nodes_mk` — the nodes of a tree are its root and those of the root's
  children, so that a tree can be taken apart child by child;
* `Field.ofList`, `Field.ofSparse` — lists of nodes as fields. The fields of
  every form are made of these and of single nodes (`Fields.exists_two` and its
  like).
-/
import EsFront.Syntax.Node

namespace EsFront

/-- The nodes of a field. -/
def Field.children {arity : Arity} {holds : Capability} : Field arity holds → List AnyNode
  | .one node _ => [⟨_, node⟩]
  | .absent => []
  | .present node _ => [⟨_, node⟩]
  | .nil => []
  | .cons node _ rest => ⟨_, node⟩ :: rest.children
  | .hole rest => rest.children

def Fields.children {slots : List Slot} : Fields slots → List AnyNode
  | .nil => []
  | .cons field rest => field.children ++ rest.children

/-- What holds of a field of no node or one, and of a list whenever it holds of its
rest, holds of every field. -/
theorem Field.induction {holds : Capability} {motive : (arity : Arity) → Field arity holds → Prop}
    (one : ∀ {kind : NodeKind} (node : Node kind) (accepted : holds.accepts kind = true),
      motive .one (.one node accepted))
    (absent : motive .optional .absent)
    (present : ∀ {kind : NodeKind} (node : Node kind) (accepted : holds.accepts kind = true),
      motive .optional (.present node accepted))
    (nil : ∀ holes, motive (.list holes) .nil)
    (cons : ∀ {holes : Bool} {kind : NodeKind} (node : Node kind)
      (accepted : holds.accepts kind = true) (rest : Field (.list holes) holds),
      motive (.list holes) rest → motive (.list holes) (.cons node accepted rest))
    (hole : ∀ rest : Field (.list true) holds,
      motive (.list true) rest → motive (.list true) (.hole rest)) :
    ∀ {arity : Arity} (field : Field arity holds), motive arity field
  | _, .one node accepted => one node accepted
  | _, .absent => absent
  | _, .present node accepted => present node accepted
  | _, .nil => nil _
  | _, .cons node accepted rest =>
    cons node accepted rest (Field.induction one absent present nil cons hole rest)
  | _, .hole rest => hole rest (Field.induction one absent present nil cons hole rest)

theorem Node.entries_any {kind : NodeKind} (place : Option (NodeId × String)) (node : Node kind) :
    (node.entries place).map (·.any) = node.nodes := by
  cases node
  rfl

theorem Field.entries_any {arity : Arity} {holds : Capability} (place : NodeId × String) :
    ∀ field : Field arity holds,
      (field.entries place).map (·.any) = field.children.flatMap (·.node.nodes)
  | .one node _ => by simp [Field.entries, Field.children, Node.entries_any]
  | .absent => rfl
  | .present node _ => by simp [Field.entries, Field.children, Node.entries_any]
  | .nil => rfl
  | .cons node _ rest => by
    simp [Field.entries, Field.children, Node.entries_any, rest.entries_any place]
  | .hole rest => by simp [Field.entries, Field.children, rest.entries_any place]

theorem Fields.entries_any {slots : List Slot} (parent : NodeId) :
    ∀ fields : Fields slots,
      (fields.entries parent).map (·.any) = fields.children.flatMap (·.node.nodes)
  | .nil => rfl
  | .cons field rest => by
    simp [Fields.entries, Fields.children, Field.entries_any, rest.entries_any parent]

/-- The nodes of a tree are its root and the nodes of the root's children. -/
theorem Node.nodes_mk {kind : NodeKind} {slots : List Slot} (data : NodeData)
    (form : Form kind slots) (fields : Fields slots) :
    (Node.mk data form fields).nodes
      = ⟨kind, .mk data form fields⟩ :: fields.children.flatMap (·.node.nodes) := by
  rw [Node.nodes, Node.entries, List.map_cons, Fields.entries_any]

theorem Node.mem_nodes_of_child {kind : NodeKind} {slots : List Slot} {data : NodeData}
    {form : Form kind slots} {fields : Fields slots} {child any : AnyNode}
    (hchild : child ∈ fields.children) (h : any ∈ child.node.nodes) :
    any ∈ (Node.mk data form fields).nodes := by
  rw [Node.nodes_mk]
  exact List.mem_cons_of_mem _ (List.mem_flatMap_of_mem hchild h)

theorem Node.self_mem_nodes {kind : NodeKind} (node : Node kind) : ⟨kind, node⟩ ∈ node.nodes := by
  cases node
  rw [Node.nodes_mk]
  exact List.mem_cons_self

theorem Node.length_nodes_of_child {kind : NodeKind} {slots : List Slot} {data : NodeData}
    {form : Form kind slots} {fields : Fields slots} {child : AnyNode}
    (hchild : child ∈ fields.children) :
    child.node.nodes.length < (Node.mk data form fields).nodes.length := by
  obtain ⟨before, after, hsplit⟩ := List.append_of_mem hchild
  rw [Node.nodes_mk, hsplit]
  simp only [List.flatMap_append, List.flatMap_cons, List.length_cons, List.length_append]
  omega

/-! ### Lists of nodes as fields -/

/-- A list of nodes as a field. -/
def Field.ofList {holds : Capability} : List (Child holds) → Field (.list false) holds
  | [] => .nil
  | child :: rest => .cons child.node child.accepted (ofList rest)

/-- A list of nodes with holes as a field. -/
def Field.ofSparse {holds : Capability} : List (Option (Child holds)) → Field (.list true) holds
  | [] => .nil
  | some child :: rest => .cons child.node child.accepted (ofSparse rest)
  | none :: rest => .hole (ofSparse rest)

theorem Field.exists_one {holds : Capability} (field : Field .one holds) :
    ∃ child : Child holds, field = .one child.node child.accepted := by
  cases field with
  | one node accepted => exact ⟨⟨_, node, accepted⟩, rfl⟩

theorem Field.exists_list {holds : Capability} : ∀ field : Field (.list false) holds,
    ∃ children : List (Child holds), field = .ofList children
  | .nil => ⟨[], rfl⟩
  | .cons node accepted rest => by
    obtain ⟨children, hrest⟩ := Field.exists_list rest
    exact ⟨⟨_, node, accepted⟩ :: children, by rw [hrest, Field.ofList]⟩

theorem Field.exists_sparse {holds : Capability} : ∀ field : Field (.list true) holds,
    ∃ children : List (Option (Child holds)), field = .ofSparse children
  | .nil => ⟨[], rfl⟩
  | .cons node accepted rest => by
    obtain ⟨children, hrest⟩ := Field.exists_sparse rest
    exact ⟨some ⟨_, node, accepted⟩ :: children, by rw [hrest, Field.ofSparse]⟩
  | .hole rest => by
    obtain ⟨children, hrest⟩ := Field.exists_sparse rest
    exact ⟨none :: children, by rw [hrest, Field.ofSparse]⟩

section

variable {first second third : String} {holds holds' holds'' : Capability}
  {role role' role'' : Role}

theorem Fields.exists_one (fields : Fields [.one first holds role]) :
    ∃ a : Child holds, fields = .cons (.one a.node a.accepted) .nil := by
  rcases fields with _ | ⟨a, fields⟩
  cases fields
  obtain ⟨a, rfl⟩ := Field.exists_one a
  exact ⟨a, rfl⟩

theorem Fields.exists_two (fields : Fields [.one first holds role, .one second holds' role']) :
    ∃ (a : Child holds) (b : Child holds'),
      fields = .cons (.one a.node a.accepted) (.cons (.one b.node b.accepted) .nil) := by
  rcases fields with _ | ⟨a, fields⟩
  obtain ⟨a, rfl⟩ := Field.exists_one a
  obtain ⟨b, rfl⟩ := Fields.exists_one fields
  exact ⟨a, b, rfl⟩

theorem Fields.exists_three
    (fields : Fields [.one first holds role, .one second holds' role', .one third holds'' role'']) :
    ∃ (a : Child holds) (b : Child holds') (c : Child holds''),
      fields = .cons (.one a.node a.accepted)
        (.cons (.one b.node b.accepted) (.cons (.one c.node c.accepted) .nil)) := by
  rcases fields with _ | ⟨a, fields⟩
  obtain ⟨a, rfl⟩ := Field.exists_one a
  obtain ⟨b, c, rfl⟩ := Fields.exists_two fields
  exact ⟨a, b, c, rfl⟩

theorem Fields.exists_list (fields : Fields [.many first holds role]) :
    ∃ children : List (Child holds), fields = .cons (.ofList children) .nil := by
  rcases fields with _ | ⟨field, fields⟩
  cases fields
  obtain ⟨children, rfl⟩ := Field.exists_list field
  exact ⟨children, rfl⟩

theorem Fields.exists_one_list (fields : Fields [.one first holds role, .many second holds' role']) :
    ∃ (a : Child holds) (children : List (Child holds')),
      fields = .cons (.one a.node a.accepted) (.cons (.ofList children) .nil) := by
  rcases fields with _ | ⟨a, fields⟩
  obtain ⟨a, rfl⟩ := Field.exists_one a
  obtain ⟨children, rfl⟩ := Fields.exists_list fields
  exact ⟨a, children, rfl⟩

end

theorem Field.children_ofList {holds : Capability} (children : List (Child holds)) :
    (Field.ofList children).children = children.map Child.toAny := by
  induction children with
  | nil => rfl
  | cons child rest ih =>
    rw [Field.ofList, Field.children, ih]
    rfl

theorem Field.view_ofList {ρ : Type} {holds : Capability} (f : AnyNode → ρ)
    (children : List (Child holds)) :
    (Field.ofList children).view f = children.map (fun child => f child.toAny) := by
  induction children with
  | nil => rfl
  | cons child rest ih =>
    rw [Field.ofList, Field.view, ih]
    rfl

theorem Fields.mem_children_ofList {name : String} {holds : Capability} {role : Role}
    {children : List (Child holds)} {child : Child holds} (h : child ∈ children) :
    child.toAny ∈
      (Fields.cons (Field.ofList children) .nil : Fields [.many name holds role]).children := by
  rw [Fields.children, Field.children_ofList, Fields.children, List.append_nil]
  exact List.mem_map_of_mem h

theorem Field.children_ofSparse {holds : Capability} (children : List (Option (Child holds))) :
    (Field.ofSparse children).children = (children.filterMap id).map Child.toAny := by
  induction children with
  | nil => rfl
  | cons child rest ih =>
    cases child with
    | none =>
      rw [Field.ofSparse, Field.children, ih]
      rfl
    | some child =>
      rw [Field.ofSparse, Field.children, ih]
      rfl

section fold

variable {ρ : Type} {holds : Capability}
  (combine : {kind : NodeKind} → {slots : List Slot} →
    NodeData → Form kind slots → Values ρ slots → ρ)

theorem Field.fold_ofList (children : List (Child holds)) :
    (Field.ofList children).fold combine = children.map (·.node.fold combine) := by
  induction children with
  | nil => rfl
  | cons child rest ih =>
    rw [Field.ofList, Field.fold, ih]
    rfl

theorem Field.fold_ofSparse (children : List (Option (Child holds))) :
    (Field.ofSparse children).fold combine = children.map (·.map (·.node.fold combine)) := by
  induction children with
  | nil => rfl
  | cons child rest ih =>
    cases child with
    | none =>
      rw [Field.ofSparse, Field.fold, ih]
      rfl
    | some child =>
      rw [Field.ofSparse, Field.fold, ih]
      rfl

end fold

end EsFront
