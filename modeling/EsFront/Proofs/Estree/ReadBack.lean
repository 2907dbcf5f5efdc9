/-
Reading exported nodes.

A node that the import could have made is read back from its own value, when
its labels are what the nodes get that are reached from the present state:
`Import.node_back`. The proof follows the fields. What is read first is the
node without the marks that it gets from its parent; these are put back when
it is used.
-/
import EsFront.Proofs.Estree.Members

namespace EsFront

theorem NodeKind.ofTag?_tag (kind : NodeKind) : ofTag? kind.tag = some kind := by
  cases kind <;> rfl

theorem Node.nodeTag?_toEstree {kind : NodeKind} (node : Node kind) :
    node.toEstree.nodeTag? = some kind.tag := by
  cases node with
  | mk data form fields => exact Export.nodeTag?_object data form _

/-- The values of the entries of a list, `null` for a hole. -/
def Field.entryValues {holes : Bool} {holds : Capability} : Field (.list holes) holds → List Json
  | .nil => []
  | .cons node _ rest => node.toEstree :: rest.entryValues
  | .hole rest => .null :: rest.entryValues

theorem Export.fieldValue_dense {holds : Capability} :
    ∀ field : Field (.list false) holds,
      fieldValue (.list false) (field.fold Export.object) = .array field.entryValues
  | .nil => by rw [Field.fold, Field.entryValues]; rfl
  | .cons node _ rest => by
    have ih := Export.fieldValue_dense rest
    rw [fieldValue, Json.array.injEq] at ih ⊢
    rw [Field.fold, Field.entryValues, ← ih]
    rfl

theorem Export.fieldValue_sparse {holds : Capability} :
    ∀ field : Field (.list true) holds,
      fieldValue (.list true) (field.fold Export.object) = .array field.entryValues
  | .nil => by rw [Field.fold, Field.entryValues]; rfl
  | .cons node _ rest => by
    have ih := Export.fieldValue_sparse rest
    rw [fieldValue, Json.array.injEq] at ih ⊢
    rw [Field.fold, Field.entryValues, ← ih]
    rfl
  | .hole rest => by
    have ih := Export.fieldValue_sparse rest
    rw [fieldValue, Json.array.injEq] at ih ⊢
    rw [Field.fold, Field.entryValues, ← ih]
    rfl

theorem Export.fieldValue_list {holes : Bool} {holds : Capability}
    (field : Field (.list holes) holds) :
    fieldValue (.list holes) (field.fold Export.object) = .array field.entryValues := by
  cases holes with
  | false => exact fieldValue_dense field
  | true => exact fieldValue_sparse field

/-- List fields whose nodes are written alike have the same entries. -/
theorem Field.entryValues_congr {holes : Bool} {holds : Capability}
    {field other : Field (.list holes) holds}
    (h : field.fold Export.object = other.fold Export.object) :
    field.entryValues = other.entryValues := by
  have hvalue := Export.fieldValue_list field
  rw [h, Export.fieldValue_list, Json.array.injEq] at hvalue
  exact hvalue.symm

namespace Import

variable {file : Option String} {levels : Nat} {child : Json → Import AnyNode} {kind : NodeKind}

/-- Children are read back from their own values, up to their marks. -/
def ReadsBack (file : Option String) (levels : Nat) (child : Json → Import AnyNode) : Prop :=
  ∀ {kind : NodeKind} {role : Role} {node : Node kind} {s s' : ImportState},
    node.Imported file role → node.height ≤ levels → Reached s node.labels s' →
      ∃ first : Node kind, Gives (child node.toEstree) s ⟨kind, first⟩ s' ∧
        first.adopt role = node

theorem nodeIn_back {name : String} {childKind : NodeKind} (node : Node childKind) {any : AnyNode}
    {s s' : ImportState} (h : Gives (child node.toEstree) s any s') :
    Gives (nodeIn child kind name node.toEstree) s any s' := by
  rw [nodeIn, node.nodeTag?_toEstree]
  exact h

theorem use_back {holds : Capability} {role : Role} {childKind : NodeKind} (first : Node childKind)
    (accepted : holds.accepts childKind = true) :
    use holds role ⟨childKind, first⟩ = .ok ⟨childKind, first.adopt role, accepted⟩ := by
  rw [use, AnyNode.as, dif_pos accepted]
  rfl

/-- The value of a node is no `null`, so it is an entry and not a hole. -/
theorem items_node {name : String} {childKind : NodeKind} (node : Node childKind)
    (values : List Json) :
    items child kind name (node.toEstree :: values) = (do
      let first ← nodeIn child kind name node.toEstree
      return some first :: (← items child kind name values)) := by
  cases node with
  | mk data form fields =>
    refine items.eq_3 _ _ _ _ _ ?_
    intro hnull
    cases hnull

theorem items_back (hchild : ReadsBack file levels child) (kind : NodeKind) (name : String)
    {holds : Capability} {role : Role} {holes : Bool} {s' : ImportState} :
    ∀ (field : Field (.list holes) holds) {s : ImportState}, field.Imported file role →
      field.height ≤ levels → Reached s field.labels s' →
      ∃ entries, Gives (items child kind name field.entryValues) s entries s' ∧
        useAll kind holes holds role name entries = .ok field ∧
        (holes = false → entries.any Option.isNone = false)
  | .nil, s, _, _, hreached => by
    rw [Field.labels] at hreached
    cases hreached
    rw [Field.entryValues, items]
    exact ⟨[], gives_pure.mpr ⟨rfl, rfl⟩, rfl, fun _ => rfl⟩
  | .cons node accepted rest, s, himported, hheight, hreached => by
    rw [Field.Imported] at himported
    rw [Field.height, Nat.max_le] at hheight
    rw [Field.labels] at hreached
    obtain ⟨t, hnode, hrest⟩ := hreached.of_append
    obtain ⟨first, hfirst, hadopt⟩ := hchild himported.1 hheight.1 hnode
    obtain ⟨entries, hentries, huse, hholes⟩ :=
      items_back hchild kind name rest himported.2 hheight.2 hrest
    refine ⟨some ⟨_, first⟩ :: entries, ?_, ?_, hholes⟩
    · rw [Field.entryValues, items_node]
      refine gives_bind.mpr ⟨_, _, nodeIn_back node hfirst, ?_⟩
      exact gives_bind.mpr ⟨_, _, hentries, gives_pure.mpr ⟨rfl, rfl⟩⟩
    · rw [useAll, use_back first accepted, huse, hadopt]
      rfl
  | .hole rest, s, himported, hheight, hreached => by
    rw [Field.Imported] at himported
    rw [Field.height] at hheight
    rw [Field.labels] at hreached
    obtain ⟨entries, hentries, huse, -⟩ :=
      items_back hchild kind name rest himported hheight hreached
    refine ⟨none :: entries, ?_, ?_, ?_⟩
    · rw [Field.entryValues, items.eq_2]
      exact gives_bind.mpr ⟨_, _, hentries, gives_pure.mpr ⟨rfl, rfl⟩⟩
    · rw [useAll, huse]
      rfl
    · intro hfalse
      cases hfalse

/-- A list field is read back from the array of its entries. -/
theorem list_back (hchild : ReadsBack file levels child) (kind : NodeKind) {holds : Capability}
    {role : Role} {name : String} {holes : Bool} {raw : Json} {field : Field (.list holes) holds}
    {s s' : ImportState} (hget : raw.get? name = some (.array field.entryValues))
    (himported : field.Imported file role) (hheight : field.height ≤ levels)
    (hreached : Reached s field.labels s') :
    ∃ entries, Gives (itemsOf child kind raw name) s entries s' ∧
      list kind holes holds role name entries = .ok field := by
  obtain ⟨entries, hentries, huse, hholes⟩ :=
    items_back hchild kind name field himported hheight hreached
  refine ⟨entries, ?_, ?_⟩
  · rw [itemsOf, hget]
    exact hentries
  · have hchecked : (!holes && entries.any Option.isNone) = false := by
      cases holes with
      | false => exact hholes rfl
      | true => rfl
    rw [list, hchecked]
    exact huse

theorem placed_back (hchild : ReadsBack file levels child) {name : String} {holds : Capability}
    {role : Role} {childKind : NodeKind} {node : Node childKind} {arity : Arity}
    (accepted : holds.accepts childKind = true) {place : Child holds → Field arity holds}
    {s s' : ImportState} (himported : node.Imported file role) (hheight : node.height ≤ levels)
    (hreached : Reached s node.labels s') :
    Gives (do
      let any ← nodeIn child kind name node.toEstree
      let used ← (liftM (use holds role any) : Import (Child holds))
      return place used) s (place ⟨childKind, node, accepted⟩) s' := by
  obtain ⟨first, hfirst, hadopt⟩ := hchild himported hheight hreached
  refine gives_bind.mpr ⟨_, _, nodeIn_back node hfirst, ?_⟩
  refine gives_bind.mpr ⟨_, _, gives_liftM.mpr ⟨use_back first accepted, rfl⟩, ?_⟩
  rw [hadopt]
  exact gives_pure.mpr ⟨rfl, rfl⟩

/-- A field is read back from a value that holds it under its name, and
nothing under its plural name. -/
theorem field_back (hchild : ReadsBack file levels child) {raw : Json}
    (hplural : ∀ {name plural : String}, pluralName? kind name = some plural →
      raw.isAbsent plural = true) {slot : Slot}
    {found : Field slot.arity slot.holds} {s s' : ImportState}
    (hget : raw.get? slot.name
      = some (Export.fieldValue slot.arity (found.fold Export.object)))
    (himported : found.Imported file slot.role) (hheight : found.height ≤ levels)
    (hreached : Reached s found.labels s') : Gives (field child kind raw slot) s found s' := by
  obtain ⟨name, arity, holds, role⟩ := slot
  dsimp only at found hget himported
  cases found with
  | one node accepted =>
    rw [Field.Imported] at himported
    rw [Field.height] at hheight
    rw [Field.labels] at hreached
    rw [Field.fold] at hget
    rw [field.eq_1, hget]
    cases node with
    | mk data form fields => exact placed_back hchild accepted himported hheight hreached
  | absent =>
    rw [Field.labels] at hreached
    cases hreached
    rw [Field.fold] at hget
    rw [field.eq_2, hget]
    change Gives (fromPlural child kind raw name holds role) s .absent s
    rw [fromPlural]
    split
    · exact gives_pure.mpr ⟨rfl, rfl⟩
    · rename_i plural hname
      rw [if_pos (hplural hname)]
      exact gives_pure.mpr ⟨rfl, rfl⟩
  | present node accepted =>
    rw [Field.Imported] at himported
    rw [Field.height] at hheight
    rw [Field.labels] at hreached
    rw [Field.fold] at hget
    rw [field.eq_2, hget]
    cases node with
    | mk data form fields => exact placed_back hchild accepted himported hheight hreached
  | _ =>
    rw [Export.fieldValue_list] at hget
    have hthere : raw.isAbsent name = false := by
      rw [Json.isAbsent, hget]
      rfl
    obtain ⟨entries, hentries, hlist⟩ :=
      list_back hchild kind hget himported hheight hreached
    rw [field.eq_3, hthere, Bool.and_false, if_neg Bool.false_ne_true]
    exact gives_bind.mpr ⟨_, _, hentries, gives_liftM.mpr ⟨hlist, rfl⟩⟩

theorem fields_back (hchild : ReadsBack file levels child) {raw : Json}
    (hplural : ∀ {name plural : String}, pluralName? kind name = some plural →
      raw.isAbsent plural = true) {s' : ImportState} :
    ∀ {slots : List Slot} {found : Fields slots} {s : ImportState},
      Export.Holds raw slots (found.fold Export.object) → found.Imported file →
      found.height ≤ levels → Reached s found.labels s' →
        Gives (fields child kind raw slots) s found s' := by
  intro slots
  induction slots with
  | nil =>
    intro found s _ _ _ hreached
    cases found
    rw [Fields.labels] at hreached
    cases hreached
    exact gives_pure.mpr ⟨rfl, rfl⟩
  | cons slot slots ih =>
    intro found s hholds himported hheight hreached
    cases found with
    | cons first rest =>
      rw [Fields.fold] at hholds
      rw [Fields.Imported] at himported
      rw [Fields.height, Nat.max_le] at hheight
      rw [Fields.labels] at hreached
      obtain ⟨t, hfirst, hrest⟩ := hreached.of_append
      refine gives_bind.mpr ⟨first, t,
        field_back hchild hplural hholds.1 himported.1 hheight.1 hfirst, ?_⟩
      refine gives_bind.mpr ⟨rest, s', ih hholds.2 himported.2 hheight.2 hrest, ?_⟩
      exact gives_pure.mpr ⟨rfl, rfl⟩

/-! ### Nodes -/

/-- Every imported node comes from one without marks, whose fields are the
same up to the role they are given. -/
theorem exists_bare {role : Role} {slots : List Slot} (data : NodeData) (form : Form kind slots)
    (found : Fields slots) (hform : form.Imported role) (hfound : found.Imported file) :
    ∃ (slots' : List Slot) (bareForm : Form kind slots') (bare : Fields slots'),
      form.bare = ⟨slots', bareForm⟩ ∧
      (bare.Imported file ∧ bare.height = found.height ∧ bare.labels = found.labels) ∧
      (∀ raw, Export.Holds raw slots (found.fold Export.object) →
        Export.Holds raw slots' (bare.fold Export.object)) ∧
      (Node.mk data bareForm bare).adopt role = .mk data form found := by
  cases form with
  -- only names and declarators carry what their role says
  | identifier name isBinder info =>
    obtain ⟨rfl, rfl⟩ := hform
    cases found
    refine ⟨_, .identifier name false .unresolved, .nil, rfl, ⟨hfound, rfl, rfl⟩, fun _ h => h, ?_⟩
    cases role <;> rfl
  | variableDeclarator declKind =>
    cases hform
    rcases found with _ | ⟨id, rest⟩
    rcases rest with _ | ⟨init, rest⟩
    cases rest
    rw [Fields.Imported, Fields.Imported] at hfound
    refine ⟨_, .variableDeclarator .var, .cons id (.cons init .nil), rfl, ⟨?_, ?_, ?_⟩, ?_, ?_⟩
    · rw [Fields.Imported, Fields.Imported]
      refine ⟨Field.imported_congr ?_ ?_ id hfound.1, hfound.2⟩ <;> rfl
    · rw [Fields.height, Fields.height]
      rfl
    · rw [Fields.labels, Fields.labels]
      rfl
    · intro raw h
      rw [Fields.fold] at h ⊢
      exact h
    · cases role <;> rfl
  | _ =>
    refine ⟨_, _, found, rfl, ⟨hfound, rfl, rfl⟩, fun _ h => h, ?_⟩
    cases role <;> rfl

theorem nodeOfKind_back (hchild : ReadsBack file levels child) {role : Role} {node : Node kind}
    {s s' : ImportState} (himported : node.Imported file role) (hheight : node.height ≤ levels + 1)
    (hreached : Reached s node.labels s') :
    ∃ first : Node kind, Gives (nodeOfKind file child kind node.toEstree) s ⟨kind, first⟩ s' ∧
      first.adopt role = node := by
  cases node with
  | mk data form found =>
    rw [Node.Imported] at himported
    rw [Node.height, Nat.add_le_add_iff_right] at hheight
    rw [Node.labels] at hreached
    obtain ⟨hform, hloc, hfound⟩ := himported
    obtain ⟨slots', bareForm, bare, hbareForm, ⟨hbare, hbareHeight, hbareLabels⟩, hholds, hadopt⟩ :=
      exists_bare data form found hform hfound
    cases hreached with
    | cons hdata hrest =>
      rename_i t
      refine ⟨.mk data bareForm bare, ?_, hadopt⟩
      have hvalue : (Node.mk data form found).toEstree
          = Export.object data form (found.fold Export.object) := rfl
      rw [hvalue]
      refine gives_bind.mpr ⟨data, t, takeData_gives.mpr ?_, ?_⟩
      · rw [Export.location?_object data form _ hloc, Export.range?_object]
        exact hdata
      refine gives_bind.mpr ⟨⟨slots', bareForm⟩, t, gives_liftM.mpr ⟨?_, rfl⟩, ?_⟩
      · rw [attributes_object data form _ hform, hbareForm]
      refine gives_bind.mpr ⟨bare, s', ?_, ?_⟩
      · refine fields_back hchild (isAbsent_plural data form _) ?_ hbare ?_ ?_
        · exact hholds _ (Export.holds_object data form _)
        · rw [hbareHeight]
          exact hheight
        · rw [hbareLabels]
          exact hrest
      refine gives_bind.mpr ⟨(), s', gives_liftM.mpr ⟨lateCheck_object data form _, rfl⟩, ?_⟩
      exact gives_pure.mpr ⟨rfl, rfl⟩

/-- A node that the import could have made is read back from its own value, if
enough levels are allowed. -/
theorem node_back : ∀ levels, ReadsBack file levels (node file levels) := by
  intro levels
  induction levels with
  | zero =>
    intro kind role node s s' _ hheight _
    cases node with
    | mk data form found =>
      rw [Node.height] at hheight
      exact absurd hheight (Nat.not_succ_le_zero _)
  | succ levels ih =>
    intro kind role node s s' himported hheight hreached
    obtain ⟨first, hfirst, hadopt⟩ := nodeOfKind_back ih himported hheight hreached
    have hkind : kindOf file node.toEstree = .ok kind := by
      rw [kindOf, node.nodeTag?_toEstree, Option.getD_some, NodeKind.ofTag?_tag]
    exact ⟨first, gives_bind.mpr ⟨kind, s, gives_liftM.mpr ⟨hkind, rfl⟩, hfirst⟩, hadopt⟩

end Import

end EsFront
