/-
The typed tree.

A node of a kind has data, a form of that kind, and the fields that the form's
slots prescribe; a field holds only nodes that its slot accepts. So every
value of these types is a well-formed tree.

* `Node`, `Fields`, `Field` — the tree;
* `AnyNode`, `Child` — a node of some kind, and one that can be used a given
  way (`AnyNode.as`);
* `Values`, `Node.fold` — what one gets by treating every field alike: a
  result for each child, arranged as the slots say;
* `Node.nodes` — all nodes, a parent before its children.
-/
import EsFront.Syntax.Form

namespace EsFront

mutual

/-- A node of the given kind. -/
inductive Node : NodeKind → Type where
  | mk {kind : NodeKind} {slots : List Slot} (data : NodeData) (form : Form kind slots)
      (fields : Fields slots) : Node kind

/-- The fields that a list of slots prescribes. -/
inductive Fields : List Slot → Type where
  | nil : Fields []
  | cons {slot : Slot} {slots : List Slot} (field : Field slot.arity slot.holds)
      (rest : Fields slots) : Fields (slot :: slots)

/-- The nodes of one field. -/
inductive Field : Arity → Capability → Type where
  | one {holds : Capability} {kind : NodeKind} (node : Node kind)
      (accepted : holds.accepts kind = true) : Field .one holds
  | absent {holds : Capability} : Field .optional holds
  | present {holds : Capability} {kind : NodeKind} (node : Node kind)
      (accepted : holds.accepts kind = true) : Field .optional holds
  | nil {holes : Bool} {holds : Capability} : Field (.list holes) holds
  | cons {holes : Bool} {holds : Capability} {kind : NodeKind} (node : Node kind)
      (accepted : holds.accepts kind = true) (rest : Field (.list holes) holds) :
      Field (.list holes) holds
  | hole {holds : Capability} (rest : Field (.list true) holds) : Field (.list true) holds

end

namespace Node

variable {kind : NodeKind}

def data : Node kind → NodeData
  | mk data _ _ => data

def id (node : Node kind) : NodeId := node.data.id

end Node

/-- A node of some kind. -/
structure AnyNode where
  kind : NodeKind
  node : Node kind

/-- A node that can be used the given way. -/
structure Child (holds : Capability) where
  kind : NodeKind
  node : Node kind
  accepted : holds.accepts kind = true

namespace AnyNode

/-- The node for the given use, or the reason why it cannot be used so. -/
def as (holds : Capability) (any : AnyNode) : Except CapabilityError (Child holds) :=
  if accepted : holds.accepts any.kind = true then .ok ⟨any.kind, any.node, accepted⟩
  else .error ⟨any.kind, holds.description⟩

end AnyNode

namespace Child

variable {holds : Capability}

def toAny (child : Child holds) : AnyNode := ⟨child.kind, child.node⟩

end Child

/-! ### Results for every field -/

/-- Results for the nodes of a field of the given arity. -/
@[reducible] def Value (ρ : Type) : Arity → Type
  | .one => ρ
  | .optional => Option ρ
  | .list false => List ρ
  | .list true => List (Option ρ)

/-- Results for the nodes of all fields. -/
@[reducible] def Values (ρ : Type) : List Slot → Type
  | [] => Unit
  | slot :: slots => Value ρ slot.arity × Values ρ slots

namespace Value

variable {ρ : Type}

def nil : (holes : Bool) → Value ρ (.list holes)
  | false => []
  | true => []

def cons : (holes : Bool) → ρ → Value ρ (.list holes) → Value ρ (.list holes)
  | false, r, rest => r :: rest
  | true, r, rest => some r :: rest

end Value

section map

variable {ρ σ : Type} (f : ρ → σ)

/-- Applies `f` to the results of a field. -/
def Value.mapWith : (arity : Arity) → Value ρ arity → Value σ arity
  | .one, r => f r
  | .optional, r => Option.map f r
  | .list false, rs => List.map f rs
  | .list true, rs => List.map (Option.map f) rs

/-- Applies `f` to the results of all fields. -/
def Values.mapWith : (slots : List Slot) → Values ρ slots → Values σ slots
  | [], _ => ()
  | slot :: slots, (v, rest) => (Value.mapWith f slot.arity v, mapWith slots rest)

end map

section view

variable {ρ : Type} (f : AnyNode → ρ)

/-- Applies `f` to every node of a field. -/
def Field.view {arity : Arity} {holds : Capability} : Field arity holds → Value ρ arity
  | .one node _ => f ⟨_, node⟩
  | .absent => none
  | .present node _ => some (f ⟨_, node⟩)
  | .nil => Value.nil _
  | .cons node _ rest => Value.cons _ (f ⟨_, node⟩) rest.view
  | .hole rest => none :: rest.view

/-- Applies `f` to every child. -/
def Fields.view {slots : List Slot} : Fields slots → Values ρ slots
  | .nil => ()
  | .cons field rest => (field.view f, rest.view)

end view

section fold

variable {ρ : Type}
  (combine : {kind : NodeKind} → {slots : List Slot} →
    NodeData → Form kind slots → Values ρ slots → ρ)

mutual

/-- The result of a node from its data, its form and the results of its
children. -/
def Node.fold {kind : NodeKind} : Node kind → ρ
  | .mk data form fields => combine data form fields.fold

/-- The results of all fields. -/
def Fields.fold {slots : List Slot} : Fields slots → Values ρ slots
  | .nil => ()
  | .cons field rest => (field.fold, rest.fold)

/-- The results of the nodes of a field. -/
def Field.fold {arity : Arity} {holds : Capability} : Field arity holds → Value ρ arity
  | .one node _ => node.fold
  | .absent => none
  | .present node _ => some node.fold
  | .nil => Value.nil _
  | .cons node _ rest => Value.cons _ node.fold rest.fold
  | .hole rest => none :: rest.fold

end

end fold

/-! ### All nodes -/

/-- A node of a tree and its place there: the parent's number and the name of
the field, or nothing for the root. -/
structure Entry where
  any : AnyNode
  place : Option (NodeId × String)

mutual

/-- The nodes of a tree, a parent before its children, with their places. -/
def Node.entries {kind : NodeKind} (place : Option (NodeId × String)) : Node kind → List Entry
  | .mk data form fields => ⟨⟨kind, .mk data form fields⟩, place⟩ :: fields.entries data.id

def Fields.entries {slots : List Slot} (parent : NodeId) : Fields slots → List Entry
  | .nil => []
  | @Fields.cons slot _ field rest => field.entries (parent, slot.name) ++ rest.entries parent

def Field.entries {arity : Arity} {holds : Capability} (place : NodeId × String) :
    Field arity holds → List Entry
  | .one node _ => node.entries (some place)
  | .absent => []
  | .present node _ => node.entries (some place)
  | .nil => []
  | .cons node _ rest => node.entries (some place) ++ rest.entries place
  | .hole rest => rest.entries place

end

/-- All nodes of a tree, a parent before its children. -/
def Node.nodes {kind : NodeKind} (node : Node kind) : List AnyNode :=
  (node.entries none).map (·.any)

/-- The data of all nodes, a parent before its children. -/
def Node.allData {kind : NodeKind} (node : Node kind) : List NodeData :=
  node.nodes.map (·.node.data)

/-! ### Equality -/

deriving instance DecidableEq for Form

/-- Whether two forms are the same, whatever their kinds. -/
def Form.same {kind kind' : NodeKind} {slots slots' : List Slot} (form : Form kind slots)
    (other : Form kind' slots') : Bool :=
  if h : kind' = kind ∧ slots' = slots then decide (form = h.1 ▸ h.2 ▸ other) else false

mutual

/-- Whether two nodes are the same, whatever their kinds. -/
def Node.same {kind kind' : NodeKind} : Node kind → Node kind' → Bool
  | .mk data form fields, .mk data' form' fields' =>
    decide (data = data') && form.same form' && fields.same fields'

def Fields.same {slots slots' : List Slot} : Fields slots → Fields slots' → Bool
  | .nil, .nil => true
  | .cons field rest, .cons field' rest' => field.same field' && rest.same rest'
  | _, _ => false

def Field.same {arity arity' : Arity} {holds holds' : Capability} :
    Field arity holds → Field arity' holds' → Bool
  | .one node _, .one node' _ => node.same node'
  | .absent, .absent => true
  | .present node _, .present node' _ => node.same node'
  | .nil, .nil => true
  | .cons node _ rest, .cons node' _ rest' => node.same node' && rest.same rest'
  | .hole rest, .hole rest' => rest.same rest'
  | _, _ => false

end

/-! ### Programs and identifiers -/

/-- A whole program. -/
abbrev Program := Node .program

namespace Program

/-- The doc comments that were not attached to a node. -/
def comments (program : Program) : List Comment :=
  match program with
  | .mk _ form _ => match form with
    | .program comments _ => comments

/-- For each tag the nodes that carry it. -/
def directiveIndex (program : Program) : DirectiveIndex :=
  match program with
  | .mk _ form _ => match form with
    | .program _ index => index

/-- The nodes that carry a directive with the given tag. -/
def nodesWithDirective (program : Program) (tag : String) : List NodeId :=
  (program.directiveIndex.get? tag).getD []

end Program

/-- What an identifier says. -/
structure IdentifierView where
  name : String
  isBinder : Bool
  info : ResolutionInfo
deriving DecidableEq, Repr

/-- The name, mark and resolution of an identifier; nothing for other forms. -/
def Form.identifier? {kind : NodeKind} {slots : List Slot} :
    Form kind slots → Option IdentifierView
  | .identifier name isBinder info => some ⟨name, isBinder, info⟩
  | _ => none

/-- The name, mark and resolution of an identifier; nothing for other nodes. -/
def AnyNode.identifier? : AnyNode → Option IdentifierView
  | ⟨_, .mk _ form _⟩ => form.identifier?

end EsFront
