/-
What the import makes of a value.

The import reaches the nodes of a tree in pre-order, and what a node gets when
it is reached depends on the state alone (`ImportState.reach`). Besides, the
forms it makes are of a special shape: names are marked as binders exactly
where binders stand, declarators have the kind of their declaration, and
nothing is resolved (`Form.Imported`). Main statements:

* `Import.node_gives` — a node that is read is of that shape, no higher than
  the levels allowed, and its labels are reached one after the other;
* `Import.program_gives` — the same for a whole program, with what happens to
  its comments before and after.
-/
import EsFront.Proofs.Estree.Step
import EsFront.Proofs.Syntax.Preorder

namespace EsFront

/-! ### Reaching nodes -/

/-- The comments that a node of the given kind and location claims. -/
def CommentIndex.claimFor (index : CommentIndex) (kind : NodeKind) (loc : Option SourceLocation) :
    List Comment × CommentIndex :=
  match loc with
  | some loc => if kind.acceptsComments then index.claim loc.start.line else ([], index)
  | none => ([], index)

/-- What a node gets when it is reached, and the state it leaves: the next
number, the comments it claims, and their directives. -/
def ImportState.reach (state : ImportState) (kind : NodeKind) (loc : Option SourceLocation)
    (range : Option TextRange) : NodeData × ImportState :=
  let claimed := state.comments.claimFor kind loc
  let recorded := claimed.2.record state.nextId claimed.1
  (⟨state.nextId, loc, range, claimed.1, recorded.1⟩, ⟨state.nextId + 1, recorded.2⟩)

theorem ImportState.place_of_reach {s t : ImportState} {kind : NodeKind}
    {loc : Option SourceLocation} {range : Option TextRange} {data : NodeData}
    (h : s.reach kind loc range = (data, t)) : data.loc = loc ∧ data.range = range := by
  have hdata : data = (s.reach kind loc range).1 := by rw [h]
  rw [hdata]
  exact ⟨rfl, rfl⟩

/-- Nodes with the given labels are reached one after the other. -/
inductive Reached : ImportState → List Label → ImportState → Prop where
  | nil {s : ImportState} : Reached s [] s
  | cons {s t s' : ImportState} {label : Label} {rest : List Label}
      (first : s.reach label.kind label.data.loc label.data.range = (label.data, t))
      (others : Reached t rest s') : Reached s (label :: rest) s'

theorem Reached.append {s t s' : ImportState} {first rest : List Label}
    (hfirst : Reached s first t) (hrest : Reached t rest s') : Reached s (first ++ rest) s' := by
  induction hfirst with
  | nil => exact hrest
  | cons h _ ih => exact .cons h (ih hrest)

theorem Reached.of_append {s s' : ImportState} {rest : List Label} :
    ∀ {first : List Label}, Reached s (first ++ rest) s' →
      ∃ t, Reached s first t ∧ Reached t rest s' := by
  intro first
  induction first generalizing s with
  | nil =>
    intro h
    exact ⟨s, .nil, h⟩
  | cons label first ih =>
    intro h
    cases h with
    | cons hlabel hothers =>
      obtain ⟨t, hfirst, hrest⟩ := ih hothers
      exact ⟨t, .cons hlabel hfirst, hrest⟩

/-! ### The shape of imported trees -/

/-- Whether nodes with this role are marked as binders. -/
def Role.isBinder : Role → Bool
  | .binder _ => true
  | .child | .name | .key _ | .body | .declares _ => false

/-- The kind that declarators with this role take over. -/
def Role.declKind : Role → DeclKind
  | .declares kind => kind
  | .child | .name | .key _ | .binder _ | .body => .var

/-- The forms that the import makes of nodes with the given role. -/
def Form.Imported {kind : NodeKind} {slots : List Slot} (role : Role) : Form kind slots → Prop
  | .program .. => False
  | .variableDeclaration declKind =>
    declKind = .var ∨ declKind = .lexical ∨ declKind = .const
  | .variableDeclarator declKind => declKind = role.declKind
  | .identifier _ isBinder info => isBinder = role.isBinder ∧ info = .unresolved
  | .literal value raw => value = .null → raw.bind Json.splitRegExp? = none
  | _ => True

/-- The location names the given file, if one is given. -/
def SourceLocation.IsIn (file : Option String) (loc : SourceLocation) : Prop :=
  ∀ name, file = some name → loc.source = some name

section imported

variable (file : Option String)

mutual

/-- Every node of the tree has a form that the import makes, and locations in
the given file. -/
def Node.Imported {kind : NodeKind} (role : Role) : Node kind → Prop
  | .mk data form fields =>
    form.Imported role ∧ (∀ loc, data.loc = some loc → loc.IsIn file) ∧ fields.Imported

def Fields.Imported {slots : List Slot} : Fields slots → Prop
  | .nil => True
  | @Fields.cons slot _ field rest => field.Imported slot.role ∧ rest.Imported

def Field.Imported {arity : Arity} {holds : Capability} (role : Role) :
    Field arity holds → Prop
  | .one node _ => node.Imported role
  | .absent => True
  | .present node _ => node.Imported role
  | .nil => True
  | .cons node _ rest => node.Imported role ∧ rest.Imported role
  | .hole rest => rest.Imported role

end

end imported

/-- Of a role only these two things matter. -/
theorem Form.imported_congr {kind : NodeKind} {slots : List Slot} {role other : Role}
    (hbinder : role.isBinder = other.isBinder) (hkind : role.declKind = other.declKind)
    (form : Form kind slots) (h : form.Imported role) : form.Imported other := by
  cases form with
  | variableDeclarator declKind => exact h.trans hkind
  | identifier name isBinder info => exact ⟨h.1.trans hbinder, h.2⟩
  | _ => exact h

theorem Node.imported_congr {file : Option String} {kind : NodeKind} {role other : Role}
    (hbinder : role.isBinder = other.isBinder) (hkind : role.declKind = other.declKind)
    {node : Node kind} (h : node.Imported file role) : node.Imported file other := by
  cases node with
  | mk data form fields =>
    rw [Node.Imported] at h ⊢
    exact ⟨form.imported_congr hbinder hkind h.1, h.2⟩

theorem Field.imported_congr {file : Option String} {role other : Role}
    (hbinder : role.isBinder = other.isBinder) (hkind : role.declKind = other.declKind)
    {arity : Arity} {holds : Capability} :
    ∀ field : Field arity holds, field.Imported file role → field.Imported file other
  | .one _ _, h => Node.imported_congr hbinder hkind h
  | .absent, _ => trivial
  | .present _ _, h => Node.imported_congr hbinder hkind h
  | .nil, _ => trivial
  | .cons _ _ rest, h =>
    ⟨Node.imported_congr hbinder hkind h.1, Field.imported_congr hbinder hkind rest h.2⟩
  | .hole rest, h => Field.imported_congr hbinder hkind rest h

/-- A node with no role of its own, marked with a role, has the shape that the
role asks for. -/
theorem Node.imported_adopt {file : Option String} {kind : NodeKind} (role : Role)
    {node : Node kind} (h : node.Imported file .child) : (node.adopt role).Imported file role := by
  cases node with
  | mk data form fields =>
    -- only two pairs of role and form are changed; all others keep their form
    cases role with
    | binder binding =>
      cases form with
      | identifier name isBinder info =>
        cases fields
        rw [Node.Imported] at h
        change Node.Imported file _ (.mk data (.identifier name true info) .nil)
        rw [Node.Imported]
        exact ⟨⟨rfl, h.1.2⟩, h.2⟩
      | _ => exact h
    | declares declKind =>
      cases form with
      | variableDeclarator old =>
        rcases fields with _ | ⟨id, rest⟩
        rcases rest with _ | ⟨init, rest⟩
        cases rest
        rw [Node.Imported, Fields.Imported, Fields.Imported] at h
        change Node.Imported file _
          (.mk data (.variableDeclarator declKind) (.cons id (.cons init .nil)))
        rw [Node.Imported, Fields.Imported, Fields.Imported]
        refine ⟨rfl, h.2.1, Field.imported_congr ?_ ?_ id h.2.2.1, h.2.2.2⟩ <;> rfl
      | _ => exact h
    | _ => exact Node.imported_congr rfl rfl h

namespace Import

/-! ### Attributes -/

/-- A literal that is read as `null` has no text that reads as a regular
expression. -/
theorem literalValue_null {raw : Json} (h : raw.literalValue = .ok .null) :
    (raw.text? "raw").bind Json.splitRegExp? = none := by
  rcases htext : (raw.text? "raw").bind Json.splitRegExp? with _ | ⟨pattern, flags⟩
  · rfl
  · exfalso
    unfold Json.literalValue at h
    split at h
    · cases h
    · rw [htext] at h
      dsimp only at h
      split at h <;> cases h

theorem declarationKind_ok {raw : Json} {declKind : DeclKind}
    (h : declarationKind raw = .ok declKind) :
    declKind = .var ∨ declKind = .lexical ∨ declKind = .const := by
  unfold declarationKind at h
  split at h
  · rename_i found hfound
    cases h
    obtain ⟨keyword, -, hkeyword⟩ := Option.bind_eq_some_iff.mp hfound
    have hmem := List.mem_of_find?_eq_some hkeyword
    simpa using hmem
  · cases h

theorem attributes_ok {kind : NodeKind} {raw : Json} {slots : List Slot} {form : Form kind slots}
    (h : attributes kind raw = .ok ⟨slots, form⟩) : form.Imported .child := by
  cases form with
  | program comments index => cases h
  | variableDeclaration declKind =>
    obtain ⟨found, hfound, hform⟩ := bind_eq_ok.mp h
    cases hform
    exact declarationKind_ok hfound
  | variableDeclarator declKind =>
    cases h
    rfl
  | identifier name isBinder info =>
    rw [attributes] at h
    split at h
    · cases h
      exact ⟨rfl, rfl⟩
    · cases h
  | literal value text =>
    obtain ⟨found, hfound, hform⟩ := bind_eq_ok.mp h
    cases hform
    rintro rfl
    exact literalValue_null hfound
  | _ => trivial

/-- The data of a node that is read are what it gets when it is reached. -/
theorem takeData_gives {file : Option String} {kind : NodeKind} {raw : Json} {data : NodeData}
    {s s' : ImportState} :
    Gives (takeData file kind raw) s data s' ↔
      s.reach kind (raw.location? file) raw.range? = (data, s') := by
  have hrun : (takeData file kind raw : Import NodeData).run.run s
      = (.ok (s.reach kind (raw.location? file) raw.range?).1,
          (s.reach kind (raw.location? file) raw.range?).2) := by
    unfold takeData ImportState.reach CommentIndex.claimFor
    cases raw.location? file with
    | none => rfl
    | some loc => cases kind.acceptsComments <;> rfl
  rw [Gives, hrun]
  constructor
  · intro h
    cases h
    rfl
  · intro h
    rw [h]

/-! ### Fields -/

/-- The labels of the entries of a list, from first to last. -/
def entryLabels (entries : List (Option AnyNode)) : List Label :=
  entries.flatMap fun
    | some any => any.node.labels
    | none => []

/-- A node that is used is the node itself, marked with its role. -/
theorem use_ok {holds : Capability} {role : Role} {any : AnyNode} {found : Child holds}
    (h : use holds role any = .ok found) :
    ∃ accepted, found = ⟨any.kind, any.node.adopt role, accepted⟩ := by
  unfold use AnyNode.as at h
  by_cases hacc : holds.accepts any.kind = true
  · rw [dif_pos hacc] at h
    cases h
    exact ⟨hacc, rfl⟩
  · rw [dif_neg hacc] at h
    cases h

section fields

variable {file : Option String} {levels : Nat} {child : Json → Import AnyNode} {kind : NodeKind}

/-- A node that was read and is not marked yet: it has the shape of imported
trees and at most the given height. -/
def Fits (file : Option String) (levels : Nat) (any : AnyNode) : Prop :=
  any.node.Imported file .child ∧ any.node.height ≤ levels

/-- Children are read as they should be: what comes out fits, and its nodes
are reached in pre-order. -/
def Reads (file : Option String) (levels : Nat) (child : Json → Import AnyNode) : Prop :=
  ∀ {raw : Json} {s s' : ImportState} {any : AnyNode}, Gives (child raw) s any s' →
    Fits file levels any ∧ Reached s any.node.labels s'

theorem nodeIn_gives {name : String} {value : Json} {any : AnyNode} {s s' : ImportState}
    (h : Gives (nodeIn child kind name value) s any s') : Gives (child value) s any s' := by
  unfold nodeIn at h
  split at h
  · exact absurd h gives_throw
  · exact h

theorem items_gives (hchild : Reads file levels child) {name : String} {s' : ImportState} :
    ∀ {values : List Json} {entries : List (Option AnyNode)} {s : ImportState},
      Gives (items child kind name values) s entries s' →
        (∀ any, some any ∈ entries → Fits file levels any) ∧ Reached s (entryLabels entries) s' := by
  intro values
  induction values with
  | nil =>
    intro entries s h
    obtain ⟨rfl, rfl⟩ := gives_pure.mp h
    exact ⟨fun any hany => absurd hany List.not_mem_nil, .nil⟩
  | cons value rest ih =>
    intro entries s h
    by_cases hnull : value = .null
    · subst hnull
      rw [items.eq_2] at h
      obtain ⟨others, t, hrest, hlast⟩ := gives_bind.mp h
      obtain ⟨rfl, rfl⟩ := gives_pure.mp hlast
      obtain ⟨hfits, hreached⟩ := ih hrest
      refine ⟨fun any hany => ?_, hreached⟩
      rcases List.mem_cons.mp hany with hnone | hmem
      · cases hnone
      · exact hfits any hmem
    · rw [items.eq_3 _ _ _ _ _ hnull] at h
      obtain ⟨first, t, hfirst, h⟩ := gives_bind.mp h
      obtain ⟨others, t', hrest, hlast⟩ := gives_bind.mp h
      obtain ⟨rfl, rfl⟩ := gives_pure.mp hlast
      obtain ⟨hfirstFits, hfirstReached⟩ := hchild (nodeIn_gives hfirst)
      obtain ⟨hfits, hreached⟩ := ih hrest
      refine ⟨fun any hany => ?_, hfirstReached.append hreached⟩
      rcases List.mem_cons.mp hany with hsome | hmem
      · cases hsome
        exact hfirstFits
      · exact hfits any hmem

theorem itemsOf_gives (hchild : Reads file levels child) {raw : Json} {name : String}
    {entries : List (Option AnyNode)} {s s' : ImportState}
    (h : Gives (itemsOf child kind raw name) s entries s') :
    (∀ any, some any ∈ entries → Fits file levels any) ∧ Reached s (entryLabels entries) s' := by
  unfold itemsOf at h
  split at h
  · exact absurd h gives_throw
  · exact absurd h gives_throw
  · exact items_gives hchild h
  · exact absurd h gives_throw

/-- What is read of a node stays when it is marked. -/
theorem Fits.adopt {any : AnyNode} (h : Fits file levels any) (role : Role) :
    (any.node.adopt role).Imported file role ∧ (any.node.adopt role).height ≤ levels := by
  refine ⟨Node.imported_adopt role h.1, ?_⟩
  rw [Node.height_adopt]
  exact h.2

theorem useAll_ok {holes : Bool} {holds : Capability} {role : Role} {name : String} :
    ∀ {entries : List (Option AnyNode)} {found : Field (.list holes) holds},
      useAll kind holes holds role name entries = .ok found →
      (∀ any, some any ∈ entries → Fits file levels any) →
        (found.Imported file role ∧ found.height ≤ levels) ∧ found.labels = entryLabels entries := by
  intro entries
  induction entries with
  | nil =>
    intro found h _
    cases h
    exact ⟨⟨trivial, Nat.zero_le _⟩, by rw [Field.labels]; rfl⟩
  | cons entry rest ih =>
    intro found h hfits
    have hrestFits : ∀ any, some any ∈ rest → Fits file levels any :=
      fun any hany => hfits any (List.mem_cons_of_mem _ hany)
    cases entry with
    | none =>
      cases holes with
      | false => cases h
      | true =>
        obtain ⟨others, hrest, hfound⟩ := bind_eq_ok.mp h
        cases hfound
        obtain ⟨hothers, hlabels⟩ := ih hrest hrestFits
        rw [Field.Imported, Field.height, Field.labels]
        exact ⟨hothers, hlabels⟩
    | some any =>
      obtain ⟨first, hfirst, h⟩ := bind_eq_ok.mp h
      obtain ⟨others, hrest, hfound⟩ := bind_eq_ok.mp h
      cases hfound
      obtain ⟨accepted, rfl⟩ := use_ok hfirst
      obtain ⟨hothers, hlabels⟩ := ih hrest hrestFits
      have hadopt := (hfits any List.mem_cons_self).adopt role
      rw [Field.Imported, Field.height, Field.labels, Node.labels_adopt, hlabels]
      exact ⟨⟨⟨hadopt.1, hothers.1⟩, Nat.max_le.mpr ⟨hadopt.2, hothers.2⟩⟩, rfl⟩

theorem list_ok {holes : Bool} {holds : Capability} {role : Role} {name : String}
    {entries : List (Option AnyNode)} {found : Field (.list holes) holds}
    (h : list kind holes holds role name entries = .ok found)
    (hfits : ∀ any, some any ∈ entries → Fits file levels any) :
    (found.Imported file role ∧ found.height ≤ levels) ∧ found.labels = entryLabels entries := by
  unfold list at h
  split at h
  · cases h
  · exact useAll_ok h hfits

/-- A node that is read, used and put into its field. -/
theorem placed_gives (hchild : Reads file levels child) {name : String} {value : Json}
    {holds : Capability} {role : Role} {arity : Arity}
    {place : Child holds → Field arity holds} {found : Field arity holds} {s s' : ImportState}
    (h : Gives (do
      let any ← nodeIn child kind name value
      let used ← (liftM (use holds role any) : Import (Child holds))
      return place used) s found s') :
    ∃ used : Child holds, found = place used ∧
      (used.node.Imported file role ∧ used.node.height ≤ levels) ∧
        Reached s used.node.labels s' := by
  obtain ⟨any, t, hany, h⟩ := gives_bind.mp h
  obtain ⟨used, t', hlift, hlast⟩ := gives_bind.mp h
  obtain ⟨hused, rfl⟩ := gives_liftM.mp hlift
  obtain ⟨rfl, rfl⟩ := gives_pure.mp hlast
  obtain ⟨accepted, rfl⟩ := use_ok hused
  obtain ⟨hfits, hreached⟩ := hchild (nodeIn_gives hany)
  refine ⟨_, rfl, hfits.adopt role, ?_⟩
  rw [Node.labels_adopt]
  exact hreached

theorem fromPlural_gives (hchild : Reads file levels child) {raw : Json} {name : String}
    {holds : Capability} {role : Role} {found : Field .optional holds} {s s' : ImportState}
    (h : Gives (fromPlural child kind raw name holds role) s found s') :
    (found.Imported file role ∧ found.height ≤ levels) ∧ Reached s found.labels s' := by
  have habsent : ∀ {s s' : ImportState}, Gives (pure .absent) s found s' →
      (found.Imported file role ∧ found.height ≤ levels) ∧ Reached s found.labels s' := by
    intro s s' h
    obtain ⟨rfl, rfl⟩ := gives_pure.mp h
    rw [Field.labels]
    exact ⟨⟨trivial, Nat.zero_le _⟩, .nil⟩
  unfold fromPlural at h
  split at h
  · exact habsent h
  · rename_i plural _
    by_cases hplural : raw.isAbsent plural = true
    · rw [if_pos hplural] at h
      exact habsent h
    · rw [if_neg hplural] at h
      obtain ⟨entries, t, hentries, hrest⟩ := gives_bind.mp h
      obtain ⟨hfits, hreached⟩ := itemsOf_gives hchild hentries
      rcases gives_ite.mp hrest with ⟨-, hthrow⟩ | ⟨hholes, hmatch⟩
      · exact absurd hthrow gives_throw
      · -- a hole was refused, so the list is empty, has one node, or is too long
        rcases entries with _ | ⟨_ | any, _ | ⟨other, rest⟩⟩
        · obtain ⟨rfl, rfl⟩ := gives_pure.mp hmatch
          rw [Field.labels]
          exact ⟨⟨trivial, Nat.zero_le _⟩, hreached⟩
        · exact absurd rfl hholes
        · exact absurd rfl hholes
        · obtain ⟨used, t₁, hlift, hlast⟩ := gives_bind.mp hmatch
          obtain ⟨hused, rfl⟩ := gives_liftM.mp hlift
          obtain ⟨rfl, rfl⟩ := gives_pure.mp hlast
          obtain ⟨accepted, rfl⟩ := use_ok hused
          have hlabels : (any.node.adopt role).labels = entryLabels [some any] := by
            rw [Node.labels_adopt, entryLabels, List.flatMap_cons, List.flatMap_nil,
              List.append_nil]
          rw [Field.Imported, Field.height, Field.labels, hlabels]
          exact ⟨(hfits any List.mem_cons_self).adopt role, hreached⟩
        · exact absurd hmatch gives_throw

theorem field_gives (hchild : Reads file levels child) {raw : Json} {slot : Slot}
    {found : Field slot.arity slot.holds} {s s' : ImportState}
    (h : Gives (field child kind raw slot) s found s') :
    (found.Imported file slot.role ∧ found.height ≤ levels) ∧ Reached s found.labels s' := by
  obtain ⟨name, arity, holds, role⟩ := slot
  cases arity with
  | one =>
    rw [field.eq_1] at h
    split at h
    · exact absurd h gives_throw
    · exact absurd h gives_throw
    · obtain ⟨used, rfl, hfits, hreached⟩ := placed_gives hchild h
      rw [Field.Imported, Field.height, Field.labels]
      exact ⟨hfits, hreached⟩
  | optional =>
    rw [field.eq_2] at h
    split at h
    · exact fromPlural_gives hchild h
    · exact fromPlural_gives hchild h
    · obtain ⟨used, rfl, hfits, hreached⟩ := placed_gives hchild h
      rw [Field.Imported, Field.height, Field.labels]
      exact ⟨hfits, hreached⟩
  | list holes =>
    rw [field.eq_3] at h
    rcases gives_ite.mp h with ⟨-, h⟩ | ⟨-, h⟩
    · obtain ⟨rfl, rfl⟩ := gives_pure.mp h
      rw [Field.labels]
      exact ⟨⟨trivial, Nat.zero_le _⟩, .nil⟩
    · obtain ⟨entries, t, hentries, hlift⟩ := gives_bind.mp h
      obtain ⟨hlist, rfl⟩ := gives_liftM.mp hlift
      obtain ⟨hfits, hreached⟩ := itemsOf_gives hchild hentries
      obtain ⟨hfound, hlabels⟩ := list_ok hlist hfits
      rw [hlabels]
      exact ⟨hfound, hreached⟩

theorem fields_gives (hchild : Reads file levels child) {raw : Json} {s' : ImportState} :
    ∀ {slots : List Slot} {found : Fields slots} {s : ImportState},
      Gives (fields child kind raw slots) s found s' →
        (found.Imported file ∧ found.height ≤ levels) ∧ Reached s found.labels s' := by
  intro slots
  induction slots with
  | nil =>
    intro found s h
    obtain ⟨rfl, rfl⟩ := gives_pure.mp h
    rw [Fields.labels]
    exact ⟨⟨trivial, Nat.zero_le _⟩, .nil⟩
  | cons slot slots ih =>
    intro found s h
    obtain ⟨first, t, hfirst, h⟩ := gives_bind.mp h
    obtain ⟨others, t', hothers, hlast⟩ := gives_bind.mp h
    obtain ⟨rfl, rfl⟩ := gives_pure.mp hlast
    obtain ⟨hfirstFits, hfirstReached⟩ := field_gives hchild hfirst
    obtain ⟨hfits, hreached⟩ := ih hothers
    rw [Fields.Imported, Fields.height, Fields.labels]
    exact ⟨⟨⟨hfirstFits.1, hfits.1⟩, Nat.max_le.mpr ⟨hfirstFits.2, hfits.2⟩⟩,
      hfirstReached.append hreached⟩

end fields

/-! ### Nodes -/

theorem location?_isIn {raw : Json} {file : Option String} {loc : SourceLocation}
    (h : raw.location? file = some loc) : loc.IsIn file := by
  rintro name rfl
  simp only [Json.location?, Option.bind_eq_bind, Option.pure_def, Option.bind_eq_some_iff,
    Option.some.injEq] at h
  obtain ⟨_, -, _, -, _, -, rfl⟩ := h
  rfl

theorem nodeOfKind_gives {file : Option String} {levels : Nat} {child : Json → Import AnyNode}
    (hchild : Reads file levels child) {kind : NodeKind} {raw : Json} {any : AnyNode}
    {s s' : ImportState} (h : Gives (nodeOfKind file child kind raw) s any s') :
    Fits file (levels + 1) any ∧ Reached s any.node.labels s' := by
  obtain ⟨data, t, hdata, h₁⟩ := gives_bind.mp h
  obtain ⟨⟨slots, form⟩, t₁, hlift, h₂⟩ := gives_bind.mp h₁
  obtain ⟨hform, rfl⟩ := gives_liftM.mp hlift
  obtain ⟨found, t₂, hfields, h₃⟩ := gives_bind.mp h₂
  obtain ⟨u, t₃, hlate, hlast⟩ := gives_bind.mp h₃
  obtain ⟨-, rfl⟩ := gives_liftM.mp hlate
  obtain ⟨rfl, rfl⟩ := gives_pure.mp hlast
  have hreach := takeData_gives.mp hdata
  obtain ⟨hloc, hrange⟩ := ImportState.place_of_reach hreach
  obtain ⟨hfits, hreached⟩ := fields_gives hchild hfields
  unfold Fits
  dsimp only
  rw [Node.Imported, Node.height, Node.labels]
  refine ⟨⟨⟨attributes_ok hform, fun loc h => ?_, hfits.1⟩, Nat.succ_le_succ hfits.2⟩, ?_⟩
  · rw [hloc] at h
    exact location?_isIn h
  · refine .cons ?_ hreached
    dsimp only
    rw [hloc, hrange]
    exact hreach

/-- A node that is read has the shape of imported trees and at most as many
levels as were allowed, and its nodes are reached in pre-order. -/
theorem node_gives {file : Option String} : ∀ levels, Reads file levels (node file levels) := by
  intro levels
  induction levels with
  | zero =>
    intro raw s s' any h
    obtain ⟨kind, t, -, hthrow⟩ := gives_bind.mp h
    exact absurd hthrow gives_throw
  | succ levels ih =>
    intro raw s s' any h
    obtain ⟨kind, t, hlift, hnode⟩ := gives_bind.mp h
    obtain ⟨-, rfl⟩ := gives_liftM.mp hlift
    exact nodeOfKind_gives ih hnode

/-! ### Programs -/

/-- The program whose statements have all been read: what comments are left
belong to it. -/
def finish (data : NodeData) (state : ImportState) (body : Field (.list false) .statement) :
    Program :=
  let rest := state.comments.takeRest
  let recorded := rest.2.record data.id rest.1
  .mk { data with directives := recorded.1 } (.program rest.1 recorded.2.directives)
    (.cons body .nil)

theorem indexComments_gives {found : List Comment} {u : Unit} {s s' : ImportState} :
    Gives (indexComments found) s u s' ↔
      ∃ index, s.comments.add found = (index, none) ∧ s' = { s with comments := index } := by
  unfold indexComments
  rw [gives_bind]
  constructor
  · rintro ⟨state, t, hget, h⟩
    obtain ⟨rfl, rfl⟩ := gives_get.mp hget
    rcases hadd : t.comments.add found with ⟨index, failed⟩
    rw [hadd] at h
    obtain ⟨v, t', hset, hlast⟩ := gives_bind.mp h
    cases failed with
    | none =>
      obtain ⟨-, rfl⟩ := gives_pure.mp hlast
      exact ⟨index, rfl, gives_set.mp hset⟩
    | some text => exact absurd hlast gives_throw
  · rintro ⟨index, hadd, rfl⟩
    refine ⟨s, s, gives_get.mpr ⟨rfl, rfl⟩, ?_⟩
    rw [hadd]
    exact gives_bind.mpr ⟨(), _, gives_set.mpr rfl, gives_pure.mpr ⟨rfl, rfl⟩⟩

/-- A whole program is read step by step: its own data, its comments, its
statements, and what is left. -/
theorem program_gives {file : Option String} {raw : Json} {p : Program} {s : ImportState} :
    (∃ s', Gives (program file raw) s p s') ↔
      raw.nodeTag? = some NodeKind.program.tag ∧
      ∃ data t cs index entries t' body,
        s.reach .program (raw.location? file) raw.range? = (data, t) ∧
        comments file raw = .ok cs ∧
        t.comments.add cs = (index, none) ∧
        Gives (itemsOf (node file depthLimit) .program raw (statementsName raw))
          { t with comments := index } entries t' ∧
        list .program false .statement .child (statementsName raw) entries = .ok body ∧
        p = finish data t' body := by
  unfold program
  constructor
  · rintro ⟨s', h⟩
    by_cases htag : raw.nodeTag? = some NodeKind.program.tag
    · refine ⟨htag, ?_⟩
      rw [if_neg (fun hne => hne htag)] at h
      -- one step after the other, each from the state of the one before
      obtain ⟨data, t, hdata, h₂⟩ := gives_bind.mp h
      obtain ⟨cs, t₁, hlift, h₃⟩ := gives_bind.mp h₂
      obtain ⟨hcs, rfl⟩ := gives_liftM.mp hlift
      obtain ⟨w, t₂, hindex, h₄⟩ := gives_bind.mp h₃
      obtain ⟨index, hadd, rfl⟩ := indexComments_gives.mp hindex
      obtain ⟨entries, t', hentries, h₅⟩ := gives_bind.mp h₄
      obtain ⟨body, t₃, hlift, h₆⟩ := gives_bind.mp h₅
      obtain ⟨hbody, rfl⟩ := gives_liftM.mp hlift
      obtain ⟨state, t₄, hget, h₇⟩ := gives_bind.mp h₆
      obtain ⟨rfl, rfl⟩ := gives_get.mp hget
      obtain ⟨x, t₅, hset, hlast⟩ := gives_bind.mp h₇
      obtain ⟨rfl, -⟩ := gives_pure.mp hlast
      exact ⟨data, _, cs, index, entries, _, body, takeData_gives.mp hdata, hcs, hadd, hentries,
        hbody, rfl⟩
    · rw [if_pos htag] at h
      obtain ⟨v, t, hthrow, -⟩ := gives_bind.mp h
      exact absurd hthrow gives_throw
  · rintro ⟨htag, data, t, cs, index, entries, t', body, hdata, hcs, hadd, hentries, hbody, rfl⟩
    refine ⟨⟨t'.nextId, (t'.comments.takeRest.2.record data.id t'.comments.takeRest.1).2⟩, ?_⟩
    rw [if_neg (fun hne => hne htag)]
    refine gives_bind.mpr ⟨_, _, takeData_gives.mpr hdata, ?_⟩
    refine gives_bind.mpr ⟨_, _, gives_liftM.mpr ⟨hcs, rfl⟩, ?_⟩
    refine gives_bind.mpr ⟨(), _, indexComments_gives.mpr ⟨index, hadd, rfl⟩, ?_⟩
    refine gives_bind.mpr ⟨_, _, hentries, ?_⟩
    refine gives_bind.mpr ⟨_, _, gives_liftM.mpr ⟨hbody, rfl⟩, ?_⟩
    refine gives_bind.mpr ⟨_, _, gives_get.mpr ⟨rfl, rfl⟩, ?_⟩
    refine gives_bind.mpr ⟨(), _, gives_set.mpr rfl, ?_⟩
    exact gives_pure.mpr ⟨rfl, rfl⟩

end Import

theorem importProgram_eq_ok {raw : Json} {file : Option String} {p : Program} :
    importProgram raw file = .ok p ↔ ∃ s', Import.Gives (Import.program file raw) .start p s' := by
  unfold importProgram Import.Gives
  constructor
  · intro h
    exact ⟨_, Prod.ext h rfl⟩
  · rintro ⟨s', h⟩
    rw [h]

/-- An imported program: its doc comments were put into an empty index, its
nodes were reached after it, and what comments are left belong to it. -/
theorem importProgram_ok {raw : Json} {file : Option String} {p : Program}
    (h : importProgram raw file = .ok p) :
    ∃ found index t' body,
      Import.comments file raw = .ok found ∧
      CommentIndex.empty.add found = (index, none) ∧
      Reached ⟨1, index⟩ body.labels t' ∧
      (body.Imported file .child ∧ body.height ≤ Import.depthLimit) ∧
      p = Import.finish ⟨0, raw.location? file, raw.range?, [], []⟩ t' body := by
  obtain ⟨s', hgives⟩ := importProgram_eq_ok.mp h
  obtain ⟨-, data, t, found, index, entries, t', body, hdata, hfound, hadd, hentries, hbody, rfl⟩ :=
    Import.program_gives.mp ⟨s', hgives⟩
  have hstart : ImportState.start.reach .program (raw.location? file) raw.range?
      = (⟨0, raw.location? file, raw.range?, [], []⟩, .mk 1 .empty) := by
    cases raw.location? file <;> rfl
  rw [hstart, Prod.mk.injEq] at hdata
  obtain ⟨rfl, rfl⟩ := hdata
  obtain ⟨hfits, hreached⟩ := Import.itemsOf_gives (Import.node_gives _) hentries
  obtain ⟨himported, hlabels⟩ := Import.list_ok hbody hfits
  rw [← hlabels] at hreached
  exact ⟨found, index, t', body, hfound, hadd, hreached, himported, rfl⟩

theorem importProgram_of_toOption {raw : Json} {file : Option String} {p : Program}
    (h : (importProgram raw file).toOption = some p) : importProgram raw file = .ok p := by
  cases himport : importProgram raw file with
  | error e =>
    rw [himport] at h
    cases h
  | ok q =>
    rw [himport] at h
    cases h
    rfl

end EsFront
