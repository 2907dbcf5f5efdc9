/-
Properties of folds over a tree.

A property that a node's result has whenever those of the node's children have it
(`Inherited`) is one of every node (`Node.fold_induction`). How a tree is printed is
such a fold, and the property may depend on the node: so what each field accepts is
known of the results in it too.

A part of the result that depends on the same part of the children's results only is a
fold itself (`Node.fold_map`).
-/
import EsFront.Proofs.Print.Written
import EsFront.Proofs.Syntax.Children

namespace EsFront

section induction

variable {ρ : Type}
  {combine : {kind : NodeKind} → {slots : List Slot} →
    NodeData → Form kind slots → Values ρ slots → ρ}
  {P : AnyNode → ρ → Prop}

/-- A result that comes, with the property, from one of the given nodes, and from
one that can be used the given way. -/
def ComesFrom (P : AnyNode → ρ → Prop) (nodes : List AnyNode) (holds : Capability) (r : ρ) : Prop :=
  ∃ any ∈ nodes, holds.accepts any.kind = true ∧ P any r

theorem ComesFrom.mono {nodes more : List AnyNode} {holds : Capability} {r : ρ}
    (h : ComesFrom P nodes holds r) (hsub : nodes ⊆ more) : ComesFrom P more holds r := by
  obtain ⟨any, hany, haccepts, hr⟩ := h
  exact ⟨any, hsub hany, haccepts, hr⟩

/-- A node's result has the property if those of its children have it. -/
def Inherited (combine : {kind : NodeKind} → {slots : List Slot} →
    NodeData → Form kind slots → Values ρ slots → ρ) (P : AnyNode → ρ → Prop) : Prop :=
  ∀ {kind : NodeKind} {slots : List Slot} (data : NodeData) (form : Form kind slots)
    (fields : Fields slots),
    Values.All (fun slot => ComesFrom P fields.children slot.holds) slots (fields.fold combine) →
      P ⟨kind, .mk data form fields⟩ (combine data form (fields.fold combine))

mutual

/-- An inherited property holds of every node. -/
theorem Node.fold_induction (h : Inherited combine P) {kind : NodeKind} : ∀ node : Node kind,
    P ⟨kind, node⟩ (node.fold combine)
  | .mk data form fields => by
    rw [Node.fold]
    exact h data form fields (Fields.fold_induction h fields)

theorem Fields.fold_induction (h : Inherited combine P) {slots : List Slot} :
    ∀ fields : Fields slots,
      Values.All (fun slot => ComesFrom P fields.children slot.holds) slots (fields.fold combine)
  | .nil => trivial
  | .cons field rest => by
    rw [Fields.fold, Fields.children]
    exact ⟨(Field.fold_induction h field).imp fun _ hr => hr.mono (List.subset_append_left _ _),
      (Fields.fold_induction h rest).imp fun _ _ hr => hr.mono (List.subset_append_right _ _)⟩

theorem Field.fold_induction (h : Inherited combine P) {arity : Arity} {holds : Capability} :
    ∀ field : Field arity holds,
      Value.All (ComesFrom P field.children holds) arity (field.fold combine)
  | .one node accepted => by
    rw [Field.fold, Field.children]
    exact ⟨_, List.mem_singleton_self _, accepted, Node.fold_induction h node⟩
  | .absent => by
    rw [Field.fold]
    intro r hr
    cases hr
  | .present node accepted => by
    rw [Field.fold, Field.children]
    intro r hr
    cases hr
    exact ⟨_, List.mem_singleton_self _, accepted, Node.fold_induction h node⟩
  | .nil => by
    rw [Field.fold]
    exact Value.all_nil _
  | .cons node accepted rest => by
    rw [Field.fold, Field.children]
    exact Value.all_cons _ _ ⟨_, List.mem_cons_self, accepted, Node.fold_induction h node⟩
      ((Field.fold_induction h rest).imp fun _ hr => hr.mono (List.subset_cons_self _ _))
  | .hole rest => by
    rw [Field.fold, Field.children]
    intro r hr
    -- a hole is no result
    exact Field.fold_induction h rest r
      ((List.mem_cons.mp hr).resolve_left (Option.some_ne_none r))

end

end induction

/-- What is known of a slot may be used for the results in it. -/
theorem Values.All.imp_mem {ρ : Type} {P Q : Slot → ρ → Prop} {slots : List Slot}
    {values : Values ρ slots} (hall : Values.All P slots values)
    (h : ∀ slot ∈ slots, ∀ r, P slot r → Q slot r) : Values.All Q slots values := by
  induction slots with
  | nil => trivial
  | cons slot slots ih =>
    exact ⟨hall.1.imp (h slot List.mem_cons_self),
      ih hall.2 fun slot hslot => h slot (List.mem_cons_of_mem _ hslot)⟩

section map

variable {ρ σ : Type} {f : ρ → σ}
  {combine : {kind : NodeKind} → {slots : List Slot} →
    NodeData → Form kind slots → Values ρ slots → ρ}
  {combine' : {kind : NodeKind} → {slots : List Slot} →
    NodeData → Form kind slots → Values σ slots → σ}

/-- `f` takes the results that `combine` makes to those that `combine'` makes. -/
def Carries (f : ρ → σ)
    (combine : {kind : NodeKind} → {slots : List Slot} →
      NodeData → Form kind slots → Values ρ slots → ρ)
    (combine' : {kind : NodeKind} → {slots : List Slot} →
      NodeData → Form kind slots → Values σ slots → σ) : Prop :=
  ∀ {kind : NodeKind} {slots : List Slot} (data : NodeData) (form : Form kind slots)
    (values : Values ρ slots),
    f (combine data form values) = combine' data form (Values.mapWith f slots values)

theorem Value.mapWith_cons (holes : Bool) (r : ρ) (v : Value ρ (.list holes)) :
    Value.mapWith f (.list holes) (Value.cons holes r v)
      = Value.cons holes (f r) (Value.mapWith f (.list holes) v) := by
  cases holes <;> rfl

theorem Value.mapWith_mapWith {τ : Type} (f : ρ → σ) (g : σ → τ) :
    ∀ (arity : Arity) (v : Value ρ arity),
      Value.mapWith g arity (Value.mapWith f arity v) = Value.mapWith (g ∘ f) arity v
  | .one, _ => rfl
  | .optional, _ => Option.map_map g f _
  | .list false, _ => List.map_map
  | .list true, _ => by simp [Value.mapWith, Function.comp_def, Option.map_map]

theorem Values.mapWith_mapWith {τ : Type} (f : ρ → σ) (g : σ → τ) :
    ∀ (slots : List Slot) (values : Values ρ slots),
      Values.mapWith g slots (Values.mapWith f slots values) = Values.mapWith (g ∘ f) slots values
  | [], _ => rfl
  | slot :: slots, (v, rest) => by
    rw [Values.mapWith, Values.mapWith, Values.mapWith, Value.mapWith_mapWith f g slot.arity v,
      Values.mapWith_mapWith f g slots rest]

mutual

theorem Node.fold_map (h : Carries f combine combine') {kind : NodeKind} :
    ∀ node : Node kind, f (node.fold combine) = node.fold combine'
  | .mk data form fields => by
    rw [Node.fold, Node.fold, h, Fields.fold_map h fields]

theorem Fields.fold_map (h : Carries f combine combine') {slots : List Slot} :
    ∀ fields : Fields slots,
      Values.mapWith f slots (fields.fold combine) = fields.fold combine'
  | .nil => rfl
  | .cons field rest => by
    rw [Fields.fold, Fields.fold, Values.mapWith, Field.fold_map h field, Fields.fold_map h rest]

theorem Field.fold_map (h : Carries f combine combine') {arity : Arity} {holds : Capability} :
    ∀ field : Field arity holds,
      Value.mapWith f arity (field.fold combine) = field.fold combine'
  | .one node _ => by
    rw [Field.fold, Field.fold, Value.mapWith, Node.fold_map h node]
  | .absent => by
    rw [Field.fold, Field.fold]
    rfl
  | .present node _ => by
    rw [Field.fold, Field.fold, Value.mapWith, Option.map_some, Node.fold_map h node]
  | @Field.nil holes _ => by
    rw [Field.fold, Field.fold]
    cases holes <;> rfl
  | .cons node _ rest => by
    rw [Field.fold, Field.fold, Value.mapWith_cons, Node.fold_map h node, Field.fold_map h rest]
  | .hole rest => by
    rw [Field.fold, Field.fold, ← Field.fold_map h rest]
    rfl

end

end map

end EsFront
