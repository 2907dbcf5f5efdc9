/-
Two imports in lockstep.

How a node reads its fields does not depend on what the import keeps as its state, nor on
the data that the nodes below get. Let two imports be compared by a relation that is kept
along the way steps are put together (`Lockstep`). If the second reads every child as the
first does, but for a change of the data of nodes, then so it reads all fields
(`Lockstep.fields`) and whole nodes (`Lockstep.nodeOfKind`).
-/
import EsFront.Proofs.Syntax.Data

namespace EsFront

/-! ### Changing the data of what is read -/

section mapData

variable (change : NodeData → NodeData)

/-- The node with the data in its tree changed. -/
def AnyNode.mapData (any : AnyNode) : AnyNode := ⟨any.kind, any.node.mapData change⟩

/-- The child with the data in its tree changed. -/
def Child.mapData {holds : Capability} (child : Child holds) : Child holds :=
  ⟨child.kind, child.node.mapData change, child.accepted⟩

/-- The mark of a node does not depend on its data. -/
theorem Node.mapData_adopt {kind : NodeKind} (role : Role) (node : Node kind) :
    (node.mapData change).adopt role = (node.adopt role).mapData change := by
  cases node with
  | mk data form fields =>
    cases role with
    | binder binding =>
      cases form with
      | identifier name isBinder info =>
        cases fields
        rfl
      | _ => rfl
    | declares declKind =>
      cases form with
      | variableDeclarator old =>
        rcases fields with _ | ⟨id, rest⟩
        rcases rest with _ | ⟨init, rest⟩
        cases rest
        rfl
      | _ => rfl
    | _ => rfl

end mapData

namespace Import

/-! ### Checks on what has been read -/

section checks

variable {change : NodeData → NodeData}

theorem use_mapData (holds : Capability) (role : Role) (any : AnyNode) :
    use holds role (any.mapData change) = (use holds role any).map (Child.mapData change) := by
  obtain ⟨kind, node⟩ := any
  unfold use AnyNode.as AnyNode.mapData
  dsimp only
  by_cases haccepts : holds.accepts kind = true
  · rw [dif_pos haccepts, dif_pos haccepts]
    exact congrArg (fun node => Except.ok (⟨kind, node, haccepts⟩ : Child holds))
      (Node.mapData_adopt change role node)
  · rw [dif_neg haccepts, dif_neg haccepts]
    rfl

theorem useAll_mapData (kind : NodeKind) (holes : Bool) (holds : Capability) (role : Role)
    (field : String) (entries : List (Option AnyNode)) :
    useAll kind holes holds role field (entries.map (Option.map (AnyNode.mapData change)))
      = (useAll kind holes holds role field entries).map (Field.mapData change) := by
  induction entries with
  | nil => rw [List.map_nil, useAll]; rfl
  | cons entry entries ih =>
    rw [List.map_cons]
    cases entry with
    | none =>
      cases holes with
      | false => rfl
      | true =>
        rw [Option.map_none, useAll.eq_2, useAll.eq_2, ih]
        cases useAll kind true holds role field entries <;> rfl
    | some any =>
      rw [Option.map_some, useAll.eq_4, useAll.eq_4, use_mapData, ih]
      cases use holds role any with
      | error e => rfl
      | ok first => cases useAll kind holes holds role field entries <;> rfl

theorem any_isNone_mapData (entries : List (Option AnyNode)) :
    (entries.map (Option.map (AnyNode.mapData change))).any Option.isNone
      = entries.any Option.isNone := by
  rw [List.any_map]
  congr 1
  funext entry
  cases entry <;> rfl

theorem list_mapData (kind : NodeKind) (holes : Bool) (holds : Capability) (role : Role)
    (field : String) (entries : List (Option AnyNode)) :
    list kind holes holds role field (entries.map (Option.map (AnyNode.mapData change)))
      = (list kind holes holds role field entries).map (Field.mapData change) := by
  rw [list, list, any_isNone_mapData, useAll_mapData]
  split <;> rfl

end checks

end Import

/-! ### Lockstep -/

/-- A relation of steps of two imports: `Follows f first second` says that `second` does
what `first` does, and that `f` takes what the first gives to what the second gives. It is
kept along the way steps are put together. -/
structure Lockstep (m n : Type → Type) [Monad m] [Monad n] where
  Follows : {α β : Type} → (α → β) → ExceptT ImportError m α → ExceptT ImportError n β → Prop
  pure : ∀ {α β : Type} (f : α → β) (a : α), Follows f (pure a) (pure (f a))
  throw : ∀ {α β : Type} (f : α → β) (e : ImportError), Follows f (throw e) (throw e)
  bind : ∀ {α β γ δ : Type} {f : α → β} {g : γ → δ} {first : ExceptT ImportError m α}
    {second : ExceptT ImportError n β} {next : α → ExceptT ImportError m γ}
    {next' : β → ExceptT ImportError n δ}, Follows f first second →
      (∀ a, Follows g (next a) (next' (f a))) → Follows g (first >>= next) (second >>= next')

namespace Lockstep

variable {m n : Type → Type} [Monad m] [Monad n] (lockstep : Lockstep m n)
  {change : NodeData → NodeData}

/-- A check that does not touch the state. -/
theorem check {α β : Type} {f : α → β} {result : Except ImportError α}
    {result' : Except ImportError β} (h : result' = result.map f) :
    lockstep.Follows f (liftM result) (liftM result') := by
  subst h
  cases result with
  | error e => exact lockstep.throw f e
  | ok a => exact lockstep.pure f a

theorem same_check {α : Type} (result : Except ImportError α) :
    lockstep.Follows id (liftM result) (liftM result) :=
  lockstep.check (by cases result <;> rfl)

section fields

variable {child : Json → ExceptT ImportError m AnyNode} {child' : Json → ExceptT ImportError n AnyNode}
  (hchild : ∀ raw, lockstep.Follows (AnyNode.mapData change) (child raw) (child' raw))
  (kind : NodeKind)

include hchild

theorem nodeIn (field : String) (value : Json) :
    lockstep.Follows (AnyNode.mapData change) (Import.nodeIn child kind field value)
      (Import.nodeIn child' kind field value) := by
  rw [Import.nodeIn, Import.nodeIn]
  cases value.nodeTag? with
  | none => exact lockstep.throw _ _
  | some tag => exact hchild value

theorem items (field : String) (values : List Json) :
    lockstep.Follows (List.map (Option.map (AnyNode.mapData change)))
      (Import.items child kind field values) (Import.items child' kind field values) := by
  induction values with
  | nil => exact lockstep.pure _ []
  | cons value values ih =>
    by_cases hnull : value = .null
    · subst hnull
      rw [Import.items.eq_2, Import.items.eq_2]
      exact lockstep.bind ih fun rest => lockstep.pure _ (none :: rest)
    · rw [Import.items.eq_3 _ _ _ _ _ hnull, Import.items.eq_3 _ _ _ _ _ hnull]
      exact lockstep.bind (lockstep.nodeIn hchild kind field value) fun first =>
        lockstep.bind ih fun rest => lockstep.pure _ (some first :: rest)

theorem itemsOf (raw : Json) (field : String) :
    lockstep.Follows (List.map (Option.map (AnyNode.mapData change)))
      (Import.itemsOf child kind raw field) (Import.itemsOf child' kind raw field) := by
  rw [Import.itemsOf, Import.itemsOf]
  split
  · exact lockstep.throw _ _
  · exact lockstep.throw _ _
  · exact lockstep.items hchild kind field _
  · exact lockstep.throw _ _

/-- A node that is read, used and put into its field. -/
theorem placed (name : String) (value : Json) (holds : Capability) (role : Role) {arity : Arity}
    {place : Child holds → Field arity holds}
    (hplace : ∀ used, place (Child.mapData change used) = (place used).mapData change) :
    lockstep.Follows (Field.mapData change)
      (do
        let used ← liftM (Import.use holds role (← Import.nodeIn child kind name value))
        return place used)
      (do
        let used ← liftM (Import.use holds role (← Import.nodeIn child' kind name value))
        return place used) := by
  refine lockstep.bind (lockstep.nodeIn hchild kind name value) fun any => ?_
  refine lockstep.bind (lockstep.check (Import.use_mapData holds role any)) fun used => ?_
  rw [hplace]
  exact lockstep.pure _ (place used)

theorem fromPlural (raw : Json) (field : String) (holds : Capability) (role : Role) :
    lockstep.Follows (Field.mapData change) (Import.fromPlural child kind raw field holds role)
      (Import.fromPlural child' kind raw field holds role) := by
  rw [Import.fromPlural, Import.fromPlural]
  cases Import.pluralName? kind field with
  | none => exact lockstep.pure _ Field.absent
  | some plural =>
    dsimp only
    split
    · exact lockstep.pure _ Field.absent
    · refine lockstep.bind (lockstep.itemsOf hchild kind raw plural) fun entries => ?_
      rw [Import.any_isNone_mapData]
      split
      · exact lockstep.throw _ _
      · -- the list is empty, has one node, or is too long
        rcases entries with _ | ⟨_ | any, _ | ⟨other, rest⟩⟩
        · exact lockstep.pure _ Field.absent
        · exact lockstep.pure _ Field.absent
        · exact lockstep.throw _ _
        · exact lockstep.bind (lockstep.check (Import.use_mapData holds role any)) fun used =>
            lockstep.pure _ (Field.present used.node used.accepted)
        · exact lockstep.throw _ _

theorem field (raw : Json) (slot : Slot) :
    lockstep.Follows (Field.mapData change) (Import.field child kind raw slot)
      (Import.field child' kind raw slot) := by
  obtain ⟨name, arity, holds, role⟩ := slot
  cases arity with
  | one =>
    rw [Import.field.eq_1, Import.field.eq_1]
    split
    · exact lockstep.throw _ _
    · exact lockstep.throw _ _
    · exact lockstep.placed hchild kind name _ holds role fun _ => rfl
  | optional =>
    rw [Import.field.eq_2, Import.field.eq_2]
    split
    · exact lockstep.fromPlural hchild kind raw name holds role
    · exact lockstep.fromPlural hchild kind raw name holds role
    · exact lockstep.placed hchild kind name _ holds role fun _ => rfl
  | list holes =>
    rw [Import.field.eq_3, Import.field.eq_3]
    split
    · exact lockstep.pure _ Field.nil
    · exact lockstep.bind (lockstep.itemsOf hchild kind raw name) fun entries =>
        lockstep.check (Import.list_mapData kind holes holds role name entries)

theorem fields (raw : Json) (slots : List Slot) :
    lockstep.Follows (Fields.mapData change) (Import.fields child kind raw slots)
      (Import.fields child' kind raw slots) := by
  induction slots with
  | nil => exact lockstep.pure _ Fields.nil
  | cons slot slots ih =>
    rw [Import.fields, Import.fields]
    exact lockstep.bind (lockstep.field hchild kind raw slot) fun first =>
      lockstep.bind ih fun rest => lockstep.pure _ (Fields.cons first rest)

end fields

/-- If what a node takes when it is reached follows, so does the whole node. -/
theorem nodeOfKind [MonadStateOf ImportState m] [MonadStateOf ImportState n]
    {file : Option String} {child : Json → ExceptT ImportError m AnyNode}
    {child' : Json → ExceptT ImportError n AnyNode}
    (hchild : ∀ raw, lockstep.Follows (AnyNode.mapData change) (child raw) (child' raw))
    (htake : ∀ kind raw, lockstep.Follows change (Import.takeData file kind raw)
      (Import.takeData file kind raw)) (kind : NodeKind) (raw : Json) :
    lockstep.Follows (AnyNode.mapData change) (Import.nodeOfKind file child kind raw)
      (Import.nodeOfKind file child' kind raw) := by
  rw [Import.nodeOfKind, Import.nodeOfKind]
  refine lockstep.bind (htake kind raw) fun data => ?_
  refine lockstep.bind (lockstep.same_check _) fun ⟨slots, form⟩ => ?_
  refine lockstep.bind (lockstep.fields hchild kind raw slots) fun fields => ?_
  refine lockstep.bind (lockstep.same_check _) fun _ => ?_
  exact lockstep.pure _ (AnyNode.mk kind (.mk data form fields))

end Lockstep

end EsFront
