/-
The members of exported objects.

A node is written as an object with its tag, its place, its attributes and its
fields. No two of these members have the same name, so each is found again
under its own:

* `Export.location?_object`, `Export.range?_object` — the place;
* `Import.attributes_object` — the attributes, up to the marks that a node
  gets from its parent (`SomeForm.bare`);
* `Export.holds_object` — the fields.
-/
import EsFront.Estree.Export
import EsFront.Proofs.Estree.Imported

namespace EsFront

/-! ### Looking members up -/

theorem Json.lookup_append (key : String) (first rest : List (String × Json)) :
    lookup key (first ++ rest) = (lookup key rest).or (lookup key first) := by
  induction first with
  | nil =>
    rw [List.nil_append, lookup, Option.or_none]
  | cons member first ih =>
    obtain ⟨k, v⟩ := member
    rw [List.cons_append, lookup, lookup, ih]
    cases lookup key rest with
    | none => rfl
    | some later => rfl

theorem Json.lookup_eq_none {key : String} :
    ∀ {members : List (String × Json)}, key ∉ members.map (·.1) → lookup key members = none := by
  intro members
  induction members with
  | nil =>
    intro _
    rfl
  | cons member members ih =>
    intro h
    rw [List.map_cons, List.mem_cons, not_or] at h
    rw [lookup, ih h.2]
    exact if_neg (fun heq => h.1 heq.symm)

namespace Export

variable {kind : NodeKind} {slots : List Slot}

theorem names_fieldMembers : ∀ (slots : List Slot) (values : Values Json slots),
    (fieldMembers slots values).map (·.1) = slots.map (·.name) := by
  intro slots
  induction slots with
  | nil =>
    intro values
    rfl
  | cons slot slots ih =>
    rintro ⟨value, rest⟩
    rw [fieldMembers, List.map_cons, List.map_cons, ih]

theorem lookup_place {key : String} (hloc : key ≠ "loc") (hrange : key ≠ "range")
    (loc : Option SourceLocation) (range : Option TextRange) :
    Json.lookup key (place loc range) = none := by
  refine Json.lookup_eq_none ?_
  unfold place optionalMember
  cases loc <;> cases range <;> simp [hloc, hrange]

/-- A name that is no field, tag or place is looked up among the attributes. -/
theorem get?_object {key : String} (htype : key ≠ "type") (hloc : key ≠ "loc")
    (hrange : key ≠ "range") (data : NodeData) (form : Form kind slots)
    (values : Values Json slots) (hslots : key ∉ slots.map (·.name)) :
    (object data form values).get? key = Json.lookup key (attributes form) := by
  have hfields : Json.lookup key (fieldMembers slots values) = none := by
    refine Json.lookup_eq_none ?_
    rw [names_fieldMembers]
    exact hslots
  unfold object Json.get?
  dsimp only
  rw [Json.lookup_append, hfields, Option.none_or, List.cons_append, Json.lookup,
    Json.lookup_append, lookup_place hloc hrange, Option.or_none]
  cases Json.lookup key (attributes form) with
  | none => exact if_neg (fun h => htype h.symm)
  | some value => rfl

/-! ### Tag and place -/

/-- No field has the name of the tag or of the place. -/
theorem slots_reserved (form : Form kind slots) :
    ∀ key ∈ ["type", "loc", "range"], key ∉ slots.map (·.name) := by
  cases form <;> simp

/-- No attribute has the name of the tag or of the place. -/
theorem attributes_reserved (form : Form kind slots) :
    ∀ key ∈ ["type", "loc", "range"], key ∉ (attributes form).map (·.1) := by
  cases form with
  | literal value raw => cases value <;> cases raw <;> simp [attributes, literal, optionalMember]
  | _ => simp [attributes]

theorem lookup_reserved {key : String} (hkey : key ∈ ["type", "loc", "range"])
    (form : Form kind slots) (values : Values Json slots) (front : List (String × Json)) :
    Json.lookup key (front ++ attributes form ++ fieldMembers slots values)
      = Json.lookup key front := by
  have hfields : Json.lookup key (fieldMembers slots values) = none := by
    refine Json.lookup_eq_none ?_
    rw [names_fieldMembers]
    exact slots_reserved form key hkey
  have hattributes : Json.lookup key (attributes form) = none :=
    Json.lookup_eq_none (attributes_reserved form key hkey)
  rw [Json.lookup_append, hfields, Option.none_or, Json.lookup_append, hattributes,
    Option.none_or]

theorem nodeTag?_object (data : NodeData) (form : Form kind slots) (values : Values Json slots) :
    (object data form values).nodeTag? = some kind.tag := by
  have hget : (object data form values).get? "type" = some (.string kind.tag) := by
    unfold object Json.get?
    dsimp only
    rw [lookup_reserved (by decide), Json.lookup, lookup_place (by decide) (by decide)]
    rfl
  rw [Json.nodeTag?, Json.text?, hget]
  rfl

theorem lookup_place_loc (loc : Option SourceLocation) (r : Option TextRange) :
    Json.lookup "loc" (place loc r) = loc.map location := by
  cases loc <;> cases r <;> rfl

theorem lookup_place_range (loc : Option SourceLocation) (r : Option TextRange) :
    Json.lookup "range" (place loc r) = r.map range := by
  cases loc <;> cases r <;> rfl

theorem word?_nat (n : UInt32) : (Json.nat n.toNat).word? = some n := by
  rw [Json.nat, Json.word?, Json.asNatural?, Option.map_some]
  congr 1
  exact UInt32.ofNat_toNat

theorem position?_position (p : Position) : (position p).position? = some p := by
  have hline : (position p).get? "line" = some (.nat p.line.toNat) := rfl
  have hcolumn : (position p).get? "column" = some (.nat p.column.toNat) := rfl
  rw [Json.position?, hline, hcolumn]
  simp only [Option.bind_some, word?_nat, Option.pure_def, Option.bind_eq_bind]

/-- A location that names the file is read back. -/
theorem location?_of_get? {raw : Json} {file : Option String} {loc : Option SourceLocation}
    (hget : raw.get? "loc" = loc.map location) (hfile : ∀ l, loc = some l → l.IsIn file) :
    raw.location? file = loc := by
  rw [Json.location?, hget]
  cases loc with
  | none => rfl
  | some loc =>
    have hstart : (location loc).get? "start" = some (position loc.start) := by
      rw [location]
      cases loc.source <;> rfl
    have hstop : (location loc).get? "end" = some (position loc.stop) := by
      rw [location]
      cases loc.source <;> rfl
    have hsource : (location loc).text? "source" = loc.source := by
      rw [location]
      cases loc.source <;> rfl
    simp only [Option.map_some, Option.bind_eq_bind, Option.bind_some, hstart, hstop, hsource,
      position?_position, Option.pure_def, Option.some.injEq]
    cases file with
    | none => rfl
    | some name =>
      have hname : loc.source = some name := hfile loc rfl name rfl
      exact congrArg (fun source => (⟨source, loc.start, loc.stop⟩ : SourceLocation)) hname.symm

theorem range?_of_get? {raw : Json} {r : Option TextRange}
    (hget : raw.get? "range" = r.map range) : raw.range? = r := by
  rw [Json.range?, hget]
  cases r with
  | none => rfl
  | some r =>
    change (do return (⟨← (Json.nat r.start.toNat).word?, ← (Json.nat r.stop.toNat).word?⟩ : TextRange))
      = some r
    rw [word?_nat, word?_nat]
    rfl

/-- The place of a node is written under its two names. -/
theorem get?_place {key : String} (hkey : key = "loc" ∨ key = "range") (data : NodeData)
    (form : Form kind slots) (values : Values Json slots) :
    (object data form values).get? key = Json.lookup key (place data.loc data.range) := by
  have hmem : key ∈ ["type", "loc", "range"] := by
    rcases hkey with rfl | rfl <;> decide
  have hne : ¬ "type" = key := by
    rcases hkey with rfl | rfl <;> decide
  unfold object Json.get?
  dsimp only
  rw [lookup_reserved hmem, Json.lookup]
  cases Json.lookup key (place data.loc data.range) with
  | none => exact if_neg hne
  | some value => rfl

theorem location?_object {file : Option String} (data : NodeData) (form : Form kind slots)
    (values : Values Json slots) (hfile : ∀ l, data.loc = some l → l.IsIn file) :
    (object data form values).location? file = data.loc := by
  refine location?_of_get? ?_ hfile
  rw [get?_place (.inl rfl), lookup_place_loc]

theorem range?_object (data : NodeData) (form : Form kind slots) (values : Values Json slots) :
    (object data form values).range? = data.range := by
  refine range?_of_get? ?_
  rw [get?_place (.inr rfl), lookup_place_range]

/-! ### Fields -/

/-- The value has the given fields under the names of their slots. -/
def Holds (raw : Json) : (slots : List Slot) → Values Json slots → Prop
  | [], _ => True
  | slot :: slots, (value, rest) =>
    raw.get? slot.name = some (fieldValue slot.arity value) ∧ Holds raw slots rest

/-- Fields with different names are found under their names, whatever members
stand in front of them. -/
theorem holds_fieldMembers : ∀ (slots : List Slot) (values : Values Json slots)
    (front : List (String × Json)), (slots.map (·.name)).Nodup →
      Holds (.object (front ++ fieldMembers slots values)) slots values := by
  intro slots
  induction slots with
  | nil =>
    intro values front _
    trivial
  | cons slot slots ih =>
    rintro ⟨value, rest⟩ front hnames
    rw [List.map_cons, List.nodup_cons] at hnames
    rw [fieldMembers]
    constructor
    · have hrest : Json.lookup slot.name (fieldMembers slots rest) = none := by
        refine Json.lookup_eq_none ?_
        rw [names_fieldMembers]
        exact hnames.1
      rw [Json.get?, Json.lookup_append, Json.lookup, hrest, if_pos rfl]
      rfl
    · have hmove : front ++ (slot.name, fieldValue slot.arity value) :: fieldMembers slots rest
          = (front ++ [(slot.name, fieldValue slot.arity value)]) ++ fieldMembers slots rest := by
        rw [List.append_assoc]
        rfl
      rw [hmove]
      exact ih rest _ hnames.2

/-- The fields of a form have different names. -/
theorem slots_nodup (form : Form kind slots) : (slots.map (·.name)).Nodup := by
  cases form <;> simp

theorem holds_object (data : NodeData) (form : Form kind slots) (values : Values Json slots) :
    Holds (object data form values) slots values :=
  holds_fieldMembers slots values _ (slots_nodup form)

/-! ### Attributes -/

/-- The value and the text of a literal are read back, unless the text of a
`null` reads as a regular expression. -/
theorem literalValue_of_get? {raw : Json} {value : LiteralValue} {text : Option String}
    (hget : ∀ key ∈ ["regex", "value", "raw"],
      raw.get? key = Json.lookup key (literal value ++ optionalMember "raw" .string text))
    (hnull : value = .null → text.bind Json.splitRegExp? = none) :
    raw.literalValue = .ok value ∧ raw.text? "raw" = text := by
  have hregex := hget "regex" (by decide)
  have hvalue := hget "value" (by decide)
  have hraw := hget "raw" (by decide)
  have htext : raw.text? "raw" = text := by
    rw [Json.text?, hraw]
    cases value <;> cases text <;> rfl
  refine ⟨?_, htext⟩
  rw [Json.literalValue, hregex, hvalue, htext]
  cases value with
  | null =>
    rw [hnull rfl]
    cases text <;> rfl
  | boolean b => cases text <;> rfl
  | number d => cases text <;> rfl
  | string s => cases text <;> rfl
  | regExp pattern flags => cases text <;> rfl

end Export

/-- The form of a node before it is marked with the part it plays. -/
def Form.bare {kind : NodeKind} {slots : List Slot} : Form kind slots → SomeForm kind
  | .identifier name _ _ => ⟨_, .identifier name false .unresolved⟩
  | .variableDeclarator _ => ⟨_, .variableDeclarator .var⟩
  | form => ⟨_, form⟩

namespace Import

variable {kind : NodeKind} {slots : List Slot}

/-- The attributes of an imported form are read back, up to the marks that the
node gets from its parent. -/
theorem attributes_object {role : Role} (data : NodeData) (form : Form kind slots)
    (values : Values Json slots) (h : form.Imported role) :
    attributes kind (Export.object data form values) = .ok form.bare := by
  have hget : ∀ key ∉ ["type", "loc", "range"], key ∉ slots.map (·.name) →
      (Export.object data form values).get? key = Json.lookup key (Export.attributes form) := by
    intro key hkey hslots
    simp only [List.mem_cons, List.not_mem_nil, or_false, not_or] at hkey
    exact Export.get?_object hkey.1 hkey.2.1 hkey.2.2 data form values hslots
  have htext : ∀ key ∉ ["type", "loc", "range"], key ∉ slots.map (·.name) →
      (Export.object data form values).text? key
        = (Json.lookup key (Export.attributes form)).bind Json.asString? := by
    intro key hkey hslots
    rw [Json.text?, hget key hkey hslots]
  -- from here on only these two facts about the object matter
  generalize Export.object data form values = raw at *
  cases form with
  | program comments index => exact h.elim
  | forInStatement =>
    rw [attributes, Json.flag, hget "each" (by simp) (by simp)]
    rfl
  | variableDeclaration declKind =>
    rw [attributes, declarationKind, htext "kind" (by simp) (by simp)]
    rcases h with rfl | rfl | rfl <;> rfl
  | functionDeclaration generator =>
    rw [attributes, plainFunction, Json.flag, Json.flag, Json.flag,
      hget "defaults" (by simp) (by simp), hget "async" (by simp) (by simp),
      hget "expression" (by simp) (by simp), hget "generator" (by simp) (by simp)]
    rfl
  | functionExpression generator =>
    rw [attributes, plainFunction, Json.flag, Json.flag, Json.flag,
      hget "defaults" (by simp) (by simp), hget "async" (by simp) (by simp),
      hget "expression" (by simp) (by simp), hget "generator" (by simp) (by simp)]
    rfl
  | identifier name isBinder info =>
    rw [attributes, htext "name" (by simp) (by simp)]
    rfl
  | literal value text =>
    have hmembers : ∀ key ∈ ["regex", "value", "raw"],
        raw.get? key
          = Json.lookup key (Export.literal value ++ Export.optionalMember "raw" .string text) := by
      intro key hkey
      refine hget key ?_ List.not_mem_nil
      revert key
      decide
    obtain ⟨hvalue, hraw⟩ := Export.literalValue_of_get? hmembers h
    rw [attributes, hvalue, hraw]
    rfl
  | unaryExpression op =>
    rw [attributes, operator, htext "operator" (by simp) (by simp)]
    cases op <;> rfl
  | updateExpression op before =>
    rw [attributes, operator, htext "operator" (by simp) (by simp), Json.flag,
      hget "prefix" (by simp) (by simp)]
    cases op <;> rfl
  | binaryExpression op =>
    rw [attributes, operator, htext "operator" (by simp) (by simp)]
    cases op <;> rfl
  | logicalExpression op =>
    rw [attributes, operator, htext "operator" (by simp) (by simp)]
    cases op <;> rfl
  | assignmentExpression op =>
    rw [attributes, operator, htext "operator" (by simp) (by simp)]
    cases op <;> rfl
  | memberExpression computed =>
    rw [attributes, Json.flag, hget "computed" (by simp) (by simp)]
    rfl
  | property kind computed shorthand =>
    rw [attributes, htext "kind" (by simp) (by simp), Json.flag, Json.flag,
      hget "computed" (by simp) (by simp), hget "shorthand" (by simp) (by simp)]
    cases kind <;> rfl
  | catchClause =>
    rw [attributes, Json.isAbsent, hget "guard" (by simp) (by simp)]
    rfl
  | _ => rfl

/-- What is checked after the fields holds of an exported node. -/
theorem lateCheck_object (data : NodeData) (form : Form kind slots) (values : Values Json slots) :
    lateCheck kind (Export.object data form values) = .ok () := by
  cases form with
  | property propertyKind computed shorthand =>
    have hkind : (Export.object data (.property propertyKind computed shorthand) values).text? "kind"
        = some propertyKind.text := by
      rw [Json.text?, Export.get?_object (by decide) (by decide) (by decide) _ _ _ (by simp)]
      rfl
    unfold lateCheck
    rw [hkind]
    cases propertyKind <;> rfl
  | _ => rfl

/-- An exported node has no field under a plural name. -/
theorem isAbsent_plural (data : NodeData) (form : Form kind slots) (values : Values Json slots)
    {name plural : String} (h : pluralName? kind name = some plural) :
    (Export.object data form values).isAbsent plural = true := by
  unfold pluralName? at h
  split at h
  · cases h
    cases form with
    | tryStatement =>
      rw [Json.isAbsent,
        Export.get?_object (by decide) (by decide) (by decide) _ _ _ (by simp)]
      rfl
  · cases h

end Import

end EsFront
