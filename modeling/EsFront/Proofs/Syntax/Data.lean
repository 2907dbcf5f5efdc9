/-
Changing what nodes carry.

A function on the data of nodes is applied to every node of a tree
(`Node.mapData`). The shape of the tree stays: so do the order of its labels, its
height, and every result that does not see the change.
-/
import EsFront.Proofs.Estree.Imported

namespace EsFront

section mapData

variable (change : NodeData → NodeData)

mutual

/-- The tree with the data of every node changed. -/
def Node.mapData {kind : NodeKind} : Node kind → Node kind
  | .mk data form fields => .mk (change data) form fields.mapData

def Fields.mapData {slots : List Slot} : Fields slots → Fields slots
  | .nil => .nil
  | .cons field rest => .cons field.mapData rest.mapData

def Field.mapData {arity : Arity} {holds : Capability} : Field arity holds → Field arity holds
  | .one node accepted => .one node.mapData accepted
  | .absent => .absent
  | .present node accepted => .present node.mapData accepted
  | .nil => .nil
  | .cons node accepted rest => .cons node.mapData accepted rest.mapData
  | .hole rest => .hole rest.mapData

end

/-- The label with its data changed. -/
def Label.mapData (label : Label) : Label := ⟨label.kind, change label.data⟩

mutual

theorem Node.labels_mapData {kind : NodeKind} : ∀ node : Node kind,
    (node.mapData change).labels = node.labels.map (Label.mapData change)
  | .mk data form fields => by
    rw [Node.mapData, Node.labels, Node.labels, List.map_cons, Fields.labels_mapData fields]
    rfl

theorem Fields.labels_mapData {slots : List Slot} : ∀ fields : Fields slots,
    (fields.mapData change).labels = fields.labels.map (Label.mapData change)
  | .nil => by rw [Fields.mapData, Fields.labels, List.map_nil]
  | .cons field rest => by
    rw [Fields.mapData, Fields.labels, Fields.labels, List.map_append,
      Field.labels_mapData field, Fields.labels_mapData rest]

theorem Field.labels_mapData {arity : Arity} {holds : Capability} : ∀ field : Field arity holds,
    (field.mapData change).labels = field.labels.map (Label.mapData change)
  | .one node _ => by rw [Field.mapData, Field.labels, Field.labels, Node.labels_mapData node]
  | .absent => by rw [Field.mapData, Field.labels, List.map_nil]
  | .present node _ => by rw [Field.mapData, Field.labels, Field.labels, Node.labels_mapData node]
  | .nil => by rw [Field.mapData, Field.labels, List.map_nil]
  | .cons node _ rest => by
    rw [Field.mapData, Field.labels, Field.labels, List.map_append, Node.labels_mapData node,
      Field.labels_mapData rest]
  | .hole rest => by rw [Field.mapData, Field.labels, Field.labels, Field.labels_mapData rest]

end

mutual

theorem Node.height_mapData {kind : NodeKind} : ∀ node : Node kind,
    (node.mapData change).height = node.height
  | .mk data form fields => by
    rw [Node.mapData, Node.height, Node.height, Fields.height_mapData fields]

theorem Fields.height_mapData {slots : List Slot} : ∀ fields : Fields slots,
    (fields.mapData change).height = fields.height
  | .nil => by rw [Fields.mapData]
  | .cons field rest => by
    rw [Fields.mapData, Fields.height, Fields.height, Field.height_mapData field,
      Fields.height_mapData rest]

theorem Field.height_mapData {arity : Arity} {holds : Capability} : ∀ field : Field arity holds,
    (field.mapData change).height = field.height
  | .one node _ => by rw [Field.mapData, Field.height, Field.height, Node.height_mapData node]
  | .absent => by rw [Field.mapData]
  | .present node _ => by rw [Field.mapData, Field.height, Field.height, Node.height_mapData node]
  | .nil => by rw [Field.mapData]
  | .cons node _ rest => by
    rw [Field.mapData, Field.height, Field.height, Node.height_mapData node,
      Field.height_mapData rest]
  | .hole rest => by rw [Field.mapData, Field.height, Field.height, Field.height_mapData rest]

end

end mapData

section fold

variable {ρ : Type}
  {combine : {kind : NodeKind} → {slots : List Slot} →
    NodeData → Form kind slots → Values ρ slots → ρ}
  {change : NodeData → NodeData}

/-- The result for a node does not depend on whether its data are changed. -/
def IgnoresChange (change : NodeData → NodeData)
    (combine : {kind : NodeKind} → {slots : List Slot} →
      NodeData → Form kind slots → Values ρ slots → ρ) : Prop :=
  ∀ {kind : NodeKind} {slots : List Slot} (data : NodeData) (form : Form kind slots)
    (values : Values ρ slots), combine (change data) form values = combine data form values

mutual

/-- A result that does not see the change is the same for both trees. -/
theorem Node.fold_mapData (h : IgnoresChange change combine) {kind : NodeKind} : ∀ node : Node kind,
    (node.mapData change).fold combine = node.fold combine
  | .mk data form fields => by
    rw [Node.mapData, Node.fold, Node.fold, Fields.fold_mapData h fields]
    exact h data form _

theorem Fields.fold_mapData (h : IgnoresChange change combine) {slots : List Slot} :
    ∀ fields : Fields slots, (fields.mapData change).fold combine = fields.fold combine
  | .nil => by rw [Fields.mapData]
  | .cons field rest => by
    rw [Fields.mapData, Fields.fold, Fields.fold, Field.fold_mapData h field,
      Fields.fold_mapData h rest]

theorem Field.fold_mapData (h : IgnoresChange change combine) {arity : Arity} {holds : Capability} :
    ∀ field : Field arity holds, (field.mapData change).fold combine = field.fold combine
  | .one node _ => by rw [Field.mapData, Field.fold, Field.fold, Node.fold_mapData h node]
  | .absent => by rw [Field.mapData]
  | .present node _ => by rw [Field.mapData, Field.fold, Field.fold, Node.fold_mapData h node]
  | .nil => by rw [Field.mapData]
  | .cons node _ rest => by
    rw [Field.mapData, Field.fold, Field.fold, Node.fold_mapData h node, Field.fold_mapData h rest]
  | .hole rest => by rw [Field.mapData, Field.fold, Field.fold, Field.fold_mapData h rest]

end

end fold

section mapData

variable (change other : NodeData → NodeData)

mutual

/-- Two changes are one. -/
theorem Node.mapData_mapData {kind : NodeKind} : ∀ node : Node kind,
    (node.mapData change).mapData other = node.mapData fun data => other (change data)
  | .mk data form fields => by
    rw [Node.mapData, Node.mapData, Node.mapData, Fields.mapData_mapData fields]

theorem Fields.mapData_mapData {slots : List Slot} : ∀ fields : Fields slots,
    (fields.mapData change).mapData other = fields.mapData fun data => other (change data)
  | .nil => by rw [Fields.mapData, Fields.mapData, Fields.mapData]
  | .cons field rest => by
    rw [Fields.mapData, Fields.mapData, Fields.mapData, Field.mapData_mapData field,
      Fields.mapData_mapData rest]

theorem Field.mapData_mapData {arity : Arity} {holds : Capability} : ∀ field : Field arity holds,
    (field.mapData change).mapData other = field.mapData fun data => other (change data)
  | .one node _ => by
    rw [Field.mapData, Field.mapData, Field.mapData, Node.mapData_mapData node]
  | .absent => by rw [Field.mapData, Field.mapData, Field.mapData]
  | .present node _ => by
    rw [Field.mapData, Field.mapData, Field.mapData, Node.mapData_mapData node]
  | .nil => by rw [Field.mapData, Field.mapData, Field.mapData]
  | .cons node _ rest => by
    rw [Field.mapData, Field.mapData, Field.mapData, Node.mapData_mapData node,
      Field.mapData_mapData rest]
  | .hole rest => by
    rw [Field.mapData, Field.mapData, Field.mapData, Field.mapData_mapData rest]

end

end mapData

mutual

theorem Node.mapData_id {kind : NodeKind} : ∀ node : Node kind, node.mapData id = node
  | .mk data form fields => by rw [Node.mapData, Fields.mapData_id fields, id]

theorem Fields.mapData_id {slots : List Slot} : ∀ fields : Fields slots, fields.mapData id = fields
  | .nil => by rw [Fields.mapData]
  | .cons field rest => by rw [Fields.mapData, Field.mapData_id field, Fields.mapData_id rest]

theorem Field.mapData_id {arity : Arity} {holds : Capability} : ∀ field : Field arity holds,
    field.mapData id = field
  | .one node _ => by rw [Field.mapData, Node.mapData_id node]
  | .absent => by rw [Field.mapData]
  | .present node _ => by rw [Field.mapData, Node.mapData_id node]
  | .nil => by rw [Field.mapData]
  | .cons node _ rest => by rw [Field.mapData, Node.mapData_id node, Field.mapData_id rest]
  | .hole rest => by rw [Field.mapData, Field.mapData_id rest]

end

section imported

variable {file : Option String} {change : NodeData → NodeData}

mutual

/-- With the locations as they were, a tree has the shape of imported trees if it had it
before. -/
theorem Node.imported_mapData (h : ∀ data, (change data).loc = data.loc) {kind : NodeKind}
    {role : Role} : ∀ node : Node kind,
      (node.mapData change).Imported file role ↔ node.Imported file role
  | .mk data form fields => by
    rw [Node.mapData, Node.Imported, Node.Imported, h, Fields.imported_mapData h fields]

theorem Fields.imported_mapData (h : ∀ data, (change data).loc = data.loc) {slots : List Slot} :
    ∀ fields : Fields slots, (fields.mapData change).Imported file ↔ fields.Imported file
  | .nil => by rw [Fields.mapData]
  | .cons field rest => by
    rw [Fields.mapData, Fields.Imported, Fields.Imported, Field.imported_mapData h field,
      Fields.imported_mapData h rest]

theorem Field.imported_mapData (h : ∀ data, (change data).loc = data.loc) {arity : Arity}
    {holds : Capability} {role : Role} : ∀ field : Field arity holds,
      (field.mapData change).Imported file role ↔ field.Imported file role
  | .one node _ => by
    rw [Field.mapData, Field.Imported, Field.Imported, Node.imported_mapData h node]
  | .absent => by rw [Field.mapData]
  | .present node _ => by
    rw [Field.mapData, Field.Imported, Field.Imported, Node.imported_mapData h node]
  | .nil => by rw [Field.mapData]
  | .cons node _ rest => by
    rw [Field.mapData, Field.Imported, Field.Imported, Node.imported_mapData h node,
      Field.imported_mapData h rest]
  | .hole rest => by
    rw [Field.mapData, Field.Imported, Field.Imported, Field.imported_mapData h rest]

end

end imported

end EsFront
