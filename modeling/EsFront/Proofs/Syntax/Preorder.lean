/-
The nodes of a tree in pre-order, seen as labels.

What the import gives to a node when it is reached is its label: its kind and
its data. The labels of a tree, a parent before its children, do not depend on
what the nodes are later marked with, so most statements about numbers and
comments are about lists of labels:

* `Node.labels` — the labels of a tree, by recursion over the tree;
* `Node.labels_eq` — they are those of the nodes listed by `Node.nodes`;
* `Node.height` — the greatest number of nodes from a node downwards.

`Child.adopt`, which marks a node with the part it plays, changes neither
(`Node.labels_adopt`, `Node.height_adopt`).
-/
import EsFront.Estree.Import

namespace EsFront

/-- The kind and the data of a node. -/
structure Label where
  kind : NodeKind
  data : NodeData
deriving DecidableEq, Repr

def AnyNode.label (any : AnyNode) : Label := ⟨any.kind, any.node.data⟩

mutual

/-- The labels of a tree, a parent before its children. -/
def Node.labels {kind : NodeKind} : Node kind → List Label
  | .mk data _ fields => ⟨kind, data⟩ :: fields.labels

def Fields.labels {slots : List Slot} : Fields slots → List Label
  | .nil => []
  | .cons field rest => field.labels ++ rest.labels

def Field.labels {arity : Arity} {holds : Capability} : Field arity holds → List Label
  | .one node _ => node.labels
  | .absent => []
  | .present node _ => node.labels
  | .nil => []
  | .cons node _ rest => node.labels ++ rest.labels
  | .hole rest => rest.labels

end

mutual

theorem Node.labels_entries {kind : NodeKind} (place : Option (NodeId × String)) :
    ∀ node : Node kind, (node.entries place).map (·.any.label) = node.labels
  | .mk data form fields => by
    rw [Node.entries, Node.labels, List.map_cons, Fields.labels_entries data.id fields]
    rfl

theorem Fields.labels_entries {slots : List Slot} (parent : NodeId) :
    ∀ fields : Fields slots, (fields.entries parent).map (·.any.label) = fields.labels
  | .nil => by rw [Fields.entries, Fields.labels, List.map_nil]
  | .cons field rest => by
    rw [Fields.entries, Fields.labels, List.map_append, Field.labels_entries _ field,
      Fields.labels_entries parent rest]

theorem Field.labels_entries {arity : Arity} {holds : Capability} (place : NodeId × String) :
    ∀ field : Field arity holds, (field.entries place).map (·.any.label) = field.labels
  | .one node _ => by rw [Field.entries, Field.labels, Node.labels_entries _ node]
  | .absent => by rw [Field.entries, Field.labels, List.map_nil]
  | .present node _ => by rw [Field.entries, Field.labels, Node.labels_entries _ node]
  | .nil => by rw [Field.entries, Field.labels, List.map_nil]
  | .cons node _ rest => by
    rw [Field.entries, Field.labels, List.map_append, Node.labels_entries _ node,
      Field.labels_entries place rest]
  | .hole rest => by rw [Field.entries, Field.labels, Field.labels_entries place rest]

end

/-- The labels of a tree are those of its nodes, in the same order. -/
theorem Node.labels_eq {kind : NodeKind} (node : Node kind) :
    node.nodes.map AnyNode.label = node.labels := by
  rw [Node.nodes, List.map_map]
  exact Node.labels_entries none node

mutual

/-- The greatest number of nodes from a node downwards. -/
def Node.height {kind : NodeKind} : Node kind → Nat
  | .mk _ _ fields => fields.height + 1

def Fields.height {slots : List Slot} : Fields slots → Nat
  | .nil => 0
  | .cons field rest => max field.height rest.height

def Field.height {arity : Arity} {holds : Capability} : Field arity holds → Nat
  | .one node _ => node.height
  | .absent => 0
  | .present node _ => node.height
  | .nil => 0
  | .cons node _ rest => max node.height rest.height
  | .hole rest => rest.height

end

/-! ### Marking a node with its part -/

/-- Marking leaves a node as it is, or marks an identifier as a binder, or
gives a declarator the kind of its declaration. -/
theorem Node.adopt_induction {motive : {kind : NodeKind} → Node kind → Node kind → Prop}
    (same : ∀ {kind : NodeKind} (node : Node kind), motive node node)
    (binder : ∀ (data : NodeData) (name : String) (isBinder : Bool) (info : ResolutionInfo),
      motive (.mk data (.identifier name isBinder info) .nil)
        (.mk data (.identifier name true info) .nil))
    (declarator : ∀ (data : NodeData) (old new : DeclKind) (id : Field .one .identifier)
      (init : Field .optional .expression),
      motive (.mk data (.variableDeclarator old) (.cons id (.cons init .nil)))
        (.mk data (.variableDeclarator new) (.cons id (.cons init .nil))))
    {kind : NodeKind} (role : Role) (node : Node kind) : motive node (node.adopt role) := by
  cases node with
  | mk data form fields =>
    cases role with
    | binder binding =>
      cases form with
      | identifier name isBinder info =>
        cases fields
        exact binder data name isBinder info
      | _ => exact same _
    | declares declKind =>
      cases form with
      | variableDeclarator old =>
        rcases fields with _ | ⟨id, rest⟩
        rcases rest with _ | ⟨init, rest⟩
        cases rest
        exact declarator data old declKind id init
      | _ => exact same _
    | _ => exact same _

section adopt

variable {kind : NodeKind} (role : Role) (node : Node kind)

theorem Node.labels_adopt : (node.adopt role).labels = node.labels := by
  refine Node.adopt_induction (motive := fun old new => new.labels = old.labels)
    (fun _ => rfl) ?_ ?_ role node
  · intro data name isBinder info
    rw [Node.labels, Node.labels]
  · intro data old new id init
    rw [Node.labels, Node.labels, Fields.labels, Fields.labels]
    rfl

theorem Node.height_adopt : (node.adopt role).height = node.height := by
  refine Node.adopt_induction (motive := fun old new => new.height = old.height)
    (fun _ => rfl) ?_ ?_ role node
  · intro data name isBinder info
    rw [Node.height, Node.height]
  · intro data old new id init
    rw [Node.height, Node.height, Fields.height, Fields.height]
    rfl

end adopt

end EsFront
