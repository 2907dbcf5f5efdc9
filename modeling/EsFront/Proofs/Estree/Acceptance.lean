/-
What the import accepts.

The import reads a value from the program down, with a state that changes at
every node; whether it succeeds depends on the value alone. A step succeeds
(`Import.Succeeds`) by the laws of steps that give a result, and a reader of
nodes that succeeds on exactly the good values (`Import.Judges`) gives a reader
of fields that does so too:

* `Import.attributes_isOk`, `Import.Judges.field_succeeds` — the attributes and
  one field of a node;
* `Import.node_judges` — a node with all that is below it;
* `importProgram_isOk_iff` — the import accepts exactly the programs of the
  grammar.
-/
import EsFront.Proofs.Comments.Claim
import EsFront.Proofs.Comments.Reading
import EsFront.Proofs.Estree.Grammar
import Mathlib.Data.List.Forall2

namespace EsFront

namespace Import

/-! ### Attributes -/

/-- A member of a vocabulary is found by its text. -/
theorem find?_vocabulary {ω : Type} {text : ω → String} {all : List ω} (hall : ∀ op, op ∈ all)
    (found : String) : (∃ op, all.find? (text · = found) = some op) ↔ ∃ op, found = text op := by
  rw [← Option.isSome_iff_exists, List.find?_isSome]
  constructor
  · rintro ⟨op, -, htext⟩
    exact ⟨op, (of_decide_eq_true htext).symm⟩
  · rintro ⟨op, rfl⟩
    exact ⟨op, hall op, decide_eq_true rfl⟩

theorem operator_isOk {ω : Type} {ofText? : String → Option ω} {text : ω → String}
    (htexts : ∀ found, (∃ op, ofText? found = some op) ↔ ∃ op, found = text op)
    (kind : NodeKind) (raw : Json) :
    (∃ op, operator kind ofText? raw = .ok op) ↔
      ∃ op, raw.text? "operator" = some (text op) := by
  unfold operator
  cases raw.text? "operator" with
  | none => simp
  | some found =>
    simp only [Option.some.injEq]
    rw [← htexts found]
    cases ofText? found <;> simp

theorem plainFunction_isOk (kind : NodeKind) (raw : Json) :
    (∃ passed, plainFunction kind raw = .ok passed) ↔ raw.IsPlainFunction := by
  unfold plainFunction Json.IsPlainFunction
  simp only [← Json.bind_asArray?]
  cases (raw.get? "defaults").bind Json.asArray? with
  | none => cases raw.flag "async" <;> cases raw.flag "expression" <;> simp
  | some values =>
    cases raw.flag "async" <;> cases raw.flag "expression" <;> simp [Json.isNull_iff]

theorem declarationKind_isOk (raw : Json) :
    (∃ kind, declarationKind raw = .ok kind) ↔
      ∃ kind ∈ [DeclKind.var, .lexical, .const], raw.text? "kind" = some kind.text := by
  unfold declarationKind
  cases raw.text? "kind" with
  | none => simp
  | some keyword =>
    rw [Option.bind_some, DeclKind.ofKeyword?]
    cases hfound : [DeclKind.var, .lexical, .const].find? (·.text = keyword) with
    | none =>
      rw [List.find?_eq_none] at hfound
      simp only [reduceCtorEq, exists_false, Option.some.injEq, false_iff]
      rintro ⟨kind, hkind, rfl⟩
      exact hfound kind hkind (decide_eq_true rfl)
    | some kind =>
      have htext := List.find?_some hfound
      simp only [Except.ok.injEq, exists_eq', Option.some.injEq, true_iff]
      exact ⟨kind, List.mem_of_find?_eq_some hfound, (of_decide_eq_true htext).symm⟩

theorem literalValue_isOk (raw : Json) :
    (∃ value, raw.literalValue = .ok value) ↔ raw.IsLiteral := by
  have hwritten : raw.IsWrittenRegExp ↔
      ∃ split, (raw.text? "raw").bind Json.splitRegExp? = some split := by
    rw [← Option.isSome_iff_exists, Json.IsWrittenRegExp]
    cases raw.text? "raw" with
    | none => simp
    | some text =>
      rw [Option.bind_some, Json.splitRegExp?_isSome]
      simp
  unfold Json.literalValue Json.IsLiteral
  rw [hwritten]
  split
  · rename_i members hregex
    simp [hregex]
  · rename_i hregex
    have hno : ¬ ∃ members, raw.get? "regex" = some (.object members) :=
      fun ⟨members, h⟩ => hregex members h
    simp only [hno, false_or]
    -- what is left depends on the value, and on the text where that is an object
    rcases hvalue : raw.get? "value" with _ | value
    · rcases (raw.text? "raw").bind Json.splitRegExp? with _ | split <;> simp
    · cases value with
      | null => rcases (raw.text? "raw").bind Json.splitRegExp? with _ | split <;> simp
      | object members => rcases (raw.text? "raw").bind Json.splitRegExp? with _ | split <;> simp
      | _ => simp

/-- The kind of a property, if it has one, is one of three. -/
theorem lateCheck_property (raw : Json) :
    lateCheck .property raw = .ok () ↔
      ∀ text, raw.text? "kind" = some text → ∃ kind : PropertyKind, kind.text = text := by
  unfold lateCheck
  cases raw.text? "kind" with
  | none => simp
  | some text =>
    have htext : (∃ kind, PropertyKind.ofText? text = some kind) ↔
        ∃ kind : PropertyKind, text = kind.text :=
      find?_vocabulary (fun kind => by cases kind <;> decide) text
    simp only [Option.some.injEq, forall_eq', eq_comm (b := text)]
    rw [← htext]
    cases PropertyKind.ofText? text <;> simp

/-- A form that is built from what a check gives is there when the check
succeeds. -/
theorem map_isOk {α β : Type} {check : Except ImportError α} {build : α → β} :
    (∃ b, (do let a ← check; return build a) = Except.ok b) ↔ ∃ a, check = .ok a := by
  cases check <;> simp [bind, Except.bind, pure, Except.pure]

/-- Attributes are read, and pass what is checked later, exactly when they are
allowed. -/
theorem attributes_isOk (kind : NodeKind) (raw : Json) :
    ((∃ form, attributes kind raw = .ok form) ∧ lateCheck kind raw = .ok ()) ↔
      kind ≠ .program ∧ kind.Allows raw := by
  cases kind with
  | program => simp [attributes]
  | identifier =>
    simp only [attributes, lateCheck, NodeKind.Allows]
    cases raw.text? "name" <;> simp
  | literal =>
    simp only [attributes, lateCheck, NodeKind.Allows, map_isOk, literalValue_isOk]
    simp
  | functionDeclaration | functionExpression =>
    simp only [attributes, lateCheck, NodeKind.Allows, map_isOk, plainFunction_isOk]
    simp
  | variableDeclaration =>
    simp only [attributes, lateCheck, NodeKind.Allows, map_isOk, declarationKind_isOk]
    simp
  | property =>
    -- the only attribute that is checked after the fields
    simp only [lateCheck_property, NodeKind.Allows]
    simp [attributes]
  | forInStatement =>
    simp only [attributes, lateCheck, NodeKind.Allows]
    cases raw.flag "each" <;> simp
  | catchClause =>
    simp only [attributes, lateCheck, NodeKind.Allows]
    cases raw.isAbsent "guard" <;> simp
  | unaryExpression | updateExpression | binaryExpression | logicalExpression
  | assignmentExpression =>
    simp only [attributes, lateCheck, NodeKind.Allows, map_isOk, ne_eq, reduceCtorEq,
      not_false_eq_true, true_and, and_true]
    exact operator_isOk (find?_vocabulary fun op => by cases op <;> decide) _ raw
  | _ => simp [attributes, lateCheck, NodeKind.Allows]

/-! ### Steps that succeed -/

section steps

variable {α β : Type} {s : ImportState}

/-- The step is not refused. -/
def Succeeds (step : Import α) (s : ImportState) : Prop := ∃ a s', Gives step s a s'

theorem succeeds_pure (a : α) : Succeeds (pure a) s := ⟨a, s, gives_pure.mpr ⟨rfl, rfl⟩⟩

theorem not_succeeds_throw {e : ImportError} : ¬ Succeeds (throw e : Import α) s :=
  fun ⟨_, _, h⟩ => gives_throw h

theorem succeeds_liftM {check : Except ImportError α} :
    Succeeds (liftM check) s ↔ ∃ a, check = .ok a := by
  constructor
  · rintro ⟨a, s', h⟩
    exact ⟨a, (gives_liftM.mp h).1⟩
  · rintro ⟨a, h⟩
    exact ⟨a, s, gives_liftM.mpr ⟨h, rfl⟩⟩

theorem succeeds_bind {step : Import α} {next : α → Import β} :
    Succeeds (step >>= next) s ↔ ∃ a t, Gives step s a t ∧ Succeeds (next a) t := by
  constructor
  · rintro ⟨b, s', h⟩
    obtain ⟨a, t, hstep, hnext⟩ := gives_bind.mp h
    exact ⟨a, t, hstep, b, s', hnext⟩
  · rintro ⟨a, t, hstep, b, s', hnext⟩
    exact ⟨b, s', gives_bind.mpr ⟨a, t, hstep, hnext⟩⟩

/-- When what comes next does not depend on what was given, both have to
succeed. -/
theorem succeeds_bind_iff {step : Import α} {next : α → Import β} {P : Prop}
    (h : ∀ a t, Gives step s a t → (Succeeds (next a) t ↔ P)) :
    Succeeds (step >>= next) s ↔ Succeeds step s ∧ P := by
  rw [succeeds_bind]
  constructor
  · rintro ⟨a, t, hstep, hnext⟩
    exact ⟨⟨a, t, hstep⟩, (h a t hstep).mp hnext⟩
  · rintro ⟨⟨a, t, hstep⟩, hP⟩
    exact ⟨a, t, hstep, (h a t hstep).mpr hP⟩

/-- What is made of the result in the end does not matter. -/
theorem succeeds_bind_pure {step : Import α} {f : α → β} :
    Succeeds (step >>= fun a => pure (f a)) s ↔ Succeeds step s :=
  (succeeds_bind_iff fun _ _ _ => iff_true_intro (succeeds_pure _)).trans (and_iff_left trivial)

end steps

/-! ### Fields -/

section fields

variable {child : Json → Import AnyNode} {good : Json → Prop} {kind : NodeKind}
  {s s' : ImportState}

/-- Reading succeeds on the good values, whatever was read before, and gives a
node of the kind that the value has. -/
structure Judges (child : Json → Import AnyNode) (good : Json → Prop) : Prop where
  succeeds_iff : ∀ {raw : Json} {s : ImportState}, Succeeds (child raw) s ↔ good raw
  hasKind : ∀ {raw : Json} {s s' : ImportState} {any : AnyNode},
    Gives (child raw) s any s' → raw.HasKind any.kind

theorem Judges.nodeIn (h : Judges child good) (kind : NodeKind) (name : String) :
    Judges (nodeIn child kind name) good where
  succeeds_iff := by
    intro raw s
    unfold Import.nodeIn
    cases htag : raw.nodeTag? with
    | some tag => exact h.succeeds_iff
    | none =>
      refine ⟨fun hthrow => absurd hthrow not_succeeds_throw, fun hgood => ?_⟩
      obtain ⟨any, s', hany⟩ := h.succeeds_iff (s := s).mpr hgood
      have hkind : raw.nodeTag? = some any.kind.tag := h.hasKind hany
      rw [htag] at hkind
      cases hkind
  hasKind := fun hgives => h.hasKind (nodeIn_gives hgives)

/-- What the import makes of an entry: a hole of `null`, and a node of the kind
that the value has. -/
def Matches (value : Json) : Option AnyNode → Prop
  | none => value = .null
  | some any => value ≠ .null ∧ value.HasKind any.kind

theorem Judges.items_succeeds (h : Judges child good) (name : String) :
    ∀ {values : List Json} {s : ImportState},
      Succeeds (items child kind name values) s ↔ ∀ value ∈ values, value ≠ .null → good value := by
  intro values
  induction values with
  | nil =>
    intro s
    rw [items]
    simp [succeeds_pure]
  | cons value rest ih =>
    intro s
    rw [List.forall_mem_cons]
    by_cases hnull : value = .null
    · subst hnull
      rw [items.eq_2, succeeds_bind_pure, ih]
      simp
    · rw [items.eq_3 _ _ _ _ _ hnull]
      rw [succeeds_bind_iff fun a t _ => succeeds_bind_pure.trans ih]
      rw [(h.nodeIn kind name).succeeds_iff]
      simp [hnull]

theorem Judges.items_matches (h : Judges child good) (name : String) :
    ∀ {values : List Json} {entries : List (Option AnyNode)} {s : ImportState},
      Gives (items child kind name values) s entries s' → List.Forall₂ Matches values entries := by
  intro values
  induction values with
  | nil =>
    intro entries s hgives
    rw [items] at hgives
    obtain ⟨rfl, -⟩ := gives_pure.mp hgives
    exact .nil
  | cons value rest ih =>
    intro entries s hgives
    by_cases hnull : value = .null
    · subst hnull
      rw [items.eq_2] at hgives
      obtain ⟨others, t, hothers, hlast⟩ := gives_bind.mp hgives
      obtain ⟨rfl, rfl⟩ := gives_pure.mp hlast
      exact .cons rfl (ih hothers)
    · rw [items.eq_3 _ _ _ _ _ hnull] at hgives
      obtain ⟨first, t, hfirst, hgives⟩ := gives_bind.mp hgives
      obtain ⟨others, t', hothers, hlast⟩ := gives_bind.mp hgives
      obtain ⟨rfl, rfl⟩ := gives_pure.mp hlast
      exact .cons ⟨hnull, (h.nodeIn kind name).hasKind hfirst⟩ (ih hothers)

theorem Judges.itemsOf_succeeds (h : Judges child good) {raw : Json} (name : String) :
    Succeeds (itemsOf child kind raw name) s ↔
      ∃ items, raw.get? name = some (.array items) ∧ ∀ value ∈ raw.entries name, good value := by
  unfold itemsOf
  -- the value is missing, `null`, a list, or something else
  split
  · rename_i hget
    simp [not_succeeds_throw, hget]
  · rename_i hget
    simp [not_succeeds_throw, hget]
  · rename_i values hget
    rw [h.items_succeeds, hget]
    simp [Json.mem_entries hget]
  · rename_i other _ hother hget
    have hno : ∀ items, other ≠ .array items := fun items heq => hother items heq
    simp [not_succeeds_throw, hget, hno]

theorem Judges.itemsOf_matches (h : Judges child good) {raw : Json} {name : String}
    {entries : List (Option AnyNode)} (hgives : Gives (itemsOf child kind raw name) s entries s') :
    ∃ items, raw.get? name = some (.array items) ∧ List.Forall₂ Matches items entries := by
  unfold itemsOf at hgives
  split at hgives
  · exact absurd hgives gives_throw
  · exact absurd hgives gives_throw
  · rename_i values hget
    exact ⟨values, hget, h.items_matches name hgives⟩
  · exact absurd hgives gives_throw

/-- Whether a value can be used a given way can be told from the node that was
made of it. -/
theorem canBe_iff {value : Json} (holds : Capability) (h : value.HasKind kind) :
    value.CanBe holds ↔ holds.accepts kind = true := by
  constructor
  · rintro ⟨other, hother, haccepts⟩
    rwa [h.unique hother]
  · intro haccepts
    exact ⟨kind, h, haccepts⟩

theorem use_isOk {holds : Capability} {role : Role} {any : AnyNode} :
    (∃ found, use holds role any = .ok found) ↔ holds.accepts any.kind = true := by
  unfold use AnyNode.as
  by_cases haccepts : holds.accepts any.kind = true
  · rw [dif_pos haccepts]
    simp [haccepts]
  · rw [dif_neg haccepts]
    simp [haccepts]

/-- What a list field asks of its entries can be told from the values. -/
theorem useAll_isOk {holes : Bool} {holds : Capability} {role : Role} {name : String}
    {values : List Json} {entries : List (Option AnyNode)}
    (h : List.Forall₂ Matches values entries) :
    (∃ found, useAll kind holes holds role name entries = .ok found) ↔
      (holes = false → .null ∉ values) ∧ ∀ value ∈ values, value ≠ .null → value.CanBe holds := by
  induction h with
  | nil => simp [useAll]
  | @cons value entry values entries hfirst _ ih =>
    rw [List.forall_mem_cons]
    cases entry with
    | none =>
      have hnull : value = .null := hfirst
      subst hnull
      cases holes with
      | false => simp [useAll]
      | true =>
        -- a hole asks nothing of its value
        rw [useAll.eq_2, map_isOk, ih]
        simp
    | some any =>
      have hcan := canBe_iff holds hfirst.2
      have hsplit : (∃ found, useAll kind holes holds role name (some any :: entries) = .ok found) ↔
          (∃ used, use holds role any = .ok used) ∧
            ∃ found, useAll kind holes holds role name entries = .ok found := by
        rw [useAll.eq_4]
        constructor
        · rintro ⟨found, hfound⟩
          obtain ⟨used, hused, hrest⟩ := bind_eq_ok.mp hfound
          obtain ⟨rest, hrest, -⟩ := bind_eq_ok.mp hrest
          exact ⟨⟨used, hused⟩, rest, hrest⟩
        · rintro ⟨⟨used, hused⟩, rest, hrest⟩
          exact ⟨_, bind_eq_ok.mpr ⟨used, hused, bind_eq_ok.mpr ⟨rest, hrest, rfl⟩⟩⟩
      rw [hsplit, use_isOk, ih, ← hcan]
      have hne : Json.null ≠ value := hfirst.1.symm
      simp only [List.mem_cons, hne, false_or, hfirst.1, ne_eq, not_false_eq_true, true_implies]
      exact and_left_comm

/-- The holes among the entries are the `null` values. -/
theorem any_isNone_iff {values : List Json} {entries : List (Option AnyNode)}
    (h : List.Forall₂ Matches values entries) :
    entries.any Option.isNone = true ↔ .null ∈ values := by
  induction h with
  | nil => simp
  | @cons value entry values entries hfirst _ ih =>
    rw [List.any_cons, Bool.or_eq_true, ih, List.mem_cons]
    cases entry with
    | none => simp [show value = .null from hfirst]
    | some any => simp [hfirst.1.symm]

theorem list_isOk {holes : Bool} {holds : Capability} {role : Role} {name : String}
    {values : List Json} {entries : List (Option AnyNode)}
    (h : List.Forall₂ Matches values entries) :
    (∃ found, list kind holes holds role name entries = .ok found) ↔
      (holes = false → .null ∉ values) ∧ ∀ value ∈ values, value ≠ .null → value.CanBe holds := by
  unfold list
  by_cases hholes : (!holes && entries.any Option.isNone) = true
  · rw [if_pos hholes]
    rw [Bool.and_eq_true, Bool.not_eq_true', any_isNone_iff h] at hholes
    simp [hholes.1, hholes.2]
  · rw [if_neg hholes]
    exact useAll_isOk h

/-- A list field is read exactly when its entries are good, can be used as it
asks, and leave no hole where none may be. -/
theorem Judges.list_succeeds (h : Judges child good) {raw : Json} {name : String} {holes : Bool}
    {holds : Capability} {role : Role} :
    Succeeds (do
      let entries ← itemsOf child kind raw name
      (liftM (list kind holes holds role name entries) : Import (Field (.list holes) holds))) s ↔
      (∃ items, raw.get? name = some (.array items) ∧ (holes = false → .null ∉ items)) ∧
        ∀ value ∈ raw.entries name, value.CanBe holds ∧ good value := by
  have hchecked : ∀ entries t, Gives (itemsOf child kind raw name) s entries t →
      (Succeeds
        (liftM (list kind holes holds role name entries) : Import (Field (.list holes) holds)) t ↔
        (∃ items, raw.get? name = some (.array items) ∧ (holes = false → .null ∉ items)) ∧
          ∀ value ∈ raw.entries name, value.CanBe holds) := by
    intro entries t hgives
    obtain ⟨items, hget, hmatches⟩ := h.itemsOf_matches hgives
    rw [succeeds_liftM, list_isOk hmatches]
    simp only [hget, Option.some.injEq, Json.array.injEq, exists_eq_left', Json.mem_entries hget,
      and_imp]
  rw [succeeds_bind_iff hchecked, h.itemsOf_succeeds]
  constructor
  · rintro ⟨⟨items, -, hgood⟩, hlist, hcan⟩
    exact ⟨hlist, fun value hvalue => ⟨hcan value hvalue, hgood value hvalue⟩⟩
  · rintro ⟨⟨items, hget, hholes⟩, hnodes⟩
    exact ⟨⟨items, hget, fun value hvalue => (hnodes value hvalue).2⟩, ⟨items, hget, hholes⟩,
      fun value hvalue => (hnodes value hvalue).1⟩

/-- A node is read, used and put into its field exactly when it is good and can
be used as the field asks. -/
theorem Judges.placed_succeeds (h : Judges child good) {name : String} {value : Json}
    {holds : Capability} {role : Role} {arity : Arity} {place : Child holds → Field arity holds} :
    Succeeds (do
      let any ← Import.nodeIn child kind name value
      let used ← (liftM (use holds role any) : Import (Child holds))
      return place used) s ↔ value.CanBe holds ∧ good value := by
  have hused : ∀ any t, Gives (Import.nodeIn child kind name value) s any t →
      (Succeeds (do
        let used ← (liftM (use holds role any) : Import (Child holds))
        return place used) t ↔ value.CanBe holds) := by
    intro any t hgives
    rw [succeeds_bind_pure, succeeds_liftM, use_isOk]
    exact (canBe_iff holds ((h.nodeIn kind name).hasKind hgives)).symm
  rw [succeeds_bind_iff hused, (h.nodeIn kind name).succeeds_iff]
  exact and_comm

/-- The field as the grammar describes it. -/
def partOf (kind : NodeKind) (slot : Slot) : Part :=
  match slot.arity with
  | .one => .required slot.name slot.holds
  | .optional =>
    match pluralName? kind slot.name with
    | some plural => .optionalOrListed slot.name plural slot.holds
    | none => .optional slot.name slot.holds
  | .list false =>
    if mayBeMissing kind slot.name then .manyOrNone slot.name slot.holds
    else .many slot.name slot.holds
  | .list true => .sparse slot.name slot.holds

/-- A field given under its plural name is read exactly when the list is empty
or has one node for the field. -/
theorem Judges.fromPlural_succeeds (h : Judges child good) {raw : Json} {name plural : String}
    {holds : Capability} {role : Role} (hplural : pluralName? kind name = some plural) :
    Succeeds (fromPlural child kind raw name holds role) s ↔
      (raw.isAbsent plural = false → ∃ items, raw.HasList plural items ∧ items.length ≤ 1) ∧
        ∀ value ∈ raw.entries plural, value.CanBe holds ∧ good value := by
  unfold fromPlural
  rw [hplural]
  dsimp only
  by_cases habsent : raw.isAbsent plural = true
  · rw [if_pos habsent, Json.entries_of_isAbsent habsent]
    simp [succeeds_pure, habsent]
  · rw [if_neg habsent]
    refine (succeeds_bind_iff (P := (∃ items, raw.HasList plural items ∧ items.length ≤ 1) ∧
      ∀ value ∈ raw.entries plural, value.CanBe holds) fun entries t hgives => ?_).trans ?_
    · obtain ⟨items, hget, hmatches⟩ := h.itemsOf_matches hgives
      have hlist : ∀ {items'}, raw.HasList plural items' ↔ items' = items ∧ .null ∉ items := by
        intro items'
        rw [Json.HasList, hget, Option.some.injEq, Json.array.injEq, eq_comm]
        exact and_congr_right fun heq => by rw [heq]
      simp only [hlist, and_assoc, exists_eq_left, Json.mem_entries hget]
      by_cases hholes : entries.any Option.isNone = true
      · rw [if_pos hholes]
        simp [not_succeeds_throw, (any_isNone_iff hmatches).mp hholes]
      · have hnull : .null ∉ items := fun hmem => hholes ((any_isNone_iff hmatches).mpr hmem)
        rw [if_neg hholes]
        -- without holes the list is empty, has one node, or is too long
        cases hmatches with
        | nil => simp [succeeds_pure]
        | @cons value entry values entries hfirst hrest =>
          cases hrest with
          | nil =>
            cases entry with
            | none => exact absurd rfl hholes
            | some any =>
              rw [succeeds_bind_pure, succeeds_liftM, use_isOk, ← canBe_iff holds hfirst.2]
              simp [hfirst.1, hfirst.1.symm]
          | cons _ _ => simp [not_succeeds_throw]
    · rw [h.itemsOf_succeeds, (Bool.not_eq_true _).mp habsent]
      constructor
      · rintro ⟨⟨items, -, hgood⟩, hlist, hcan⟩
        exact ⟨fun _ => hlist, fun value hvalue => ⟨hcan value hvalue, hgood value hvalue⟩⟩
      · rintro ⟨hlist, hnodes⟩
        obtain ⟨items, hitems, hone⟩ := hlist rfl
        exact ⟨⟨items, hitems.1, fun value hvalue => (hnodes value hvalue).2⟩,
          ⟨items, hitems, hone⟩, fun value hvalue => (hnodes value hvalue).1⟩

/-- What a field asks of a node: it has the right shape, and its nodes are good
and can be used as it asks. -/
def Keeps (good : Json → Prop) (raw : Json) (part : Part) : Prop :=
  part.Shaped raw ∧ ∀ value ∈ part.nodes raw, value.CanBe part.holds ∧ good value

/-- A value under the name of a single node is missing or is read as a node. -/
theorem field_of_given? {raw : Json} {name : String} {holds : Capability} {role : Role} :
    field child kind raw ⟨name, .one, holds, role⟩ =
        (match raw.given? name with
        | none => throw (.missingField kind name)
        | some value => do
          let found ← liftM (use holds role (← nodeIn child kind name value))
          return .one found.node found.accepted) ∧
      field child kind raw ⟨name, .optional, holds, role⟩ =
        (match raw.given? name with
        | none => fromPlural child kind raw name holds role
        | some value => do
          let found ← liftM (use holds role (← nodeIn child kind name value))
          return .present found.node found.accepted) := by
  rw [field.eq_1, field.eq_2, Json.given?]
  cases raw.get? name with
  | none => exact ⟨rfl, rfl⟩
  | some value => cases value <;> exact ⟨rfl, rfl⟩

theorem Judges.field_one (h : Judges child good) {raw : Json} {name : String} {holds : Capability}
    {role : Role} :
    Succeeds (field child kind raw ⟨name, .one, holds, role⟩) s ↔
      Keeps good raw (.required name holds) := by
  rw [field_of_given?.1]
  simp only [Keeps, Part.Shaped, Part.nodes, Part.holds, ← Bool.not_eq_true, Json.isAbsent_iff]
  cases raw.given? name with
  | none => simp [not_succeeds_throw]
  | some value =>
    dsimp only
    rw [h.placed_succeeds]
    simp

theorem Judges.field_optional (h : Judges child good) {raw : Json} {name : String}
    {holds : Capability} {role : Role} :
    Succeeds (field child kind raw ⟨name, .optional, holds, role⟩) s ↔
      Keeps good raw (partOf kind ⟨name, .optional, holds, role⟩) := by
  rw [field_of_given?.2]
  cases hplural : pluralName? kind name with
  | none =>
    simp only [Keeps, partOf, hplural, Part.Shaped, Part.nodes, Part.holds, true_and]
    cases raw.given? name with
    | none => simp [fromPlural, hplural, succeeds_pure]
    | some value =>
      dsimp only
      rw [h.placed_succeeds]
      simp
  | some plural =>
    simp only [Keeps, partOf, hplural, Part.Shaped, Part.nodes, Part.holds, Json.isAbsent_iff]
    cases raw.given? name with
    | none =>
      dsimp only
      rw [h.fromPlural_succeeds hplural]
      simp
    | some value =>
      dsimp only
      rw [h.placed_succeeds]
      simp

/-- Only lists without holes may be missing. -/
theorem Judges.field_list (h : Judges child good) {raw : Json} {name : String} {holes : Bool}
    {holds : Capability} {role : Role} (hsparse : holes = true → mayBeMissing kind name = false) :
    Succeeds (field child kind raw ⟨name, .list holes, holds, role⟩) s ↔
      Keeps good raw (partOf kind ⟨name, .list holes, holds, role⟩) := by
  rw [field.eq_3]
  cases holes with
  | true =>
    rw [hsparse rfl, if_neg (by simp), h.list_succeeds]
    simp [Keeps, partOf, Part.Shaped, Part.nodes, Part.holds]
  | false =>
    by_cases hmay : mayBeMissing kind name = true
    · simp only [Keeps, partOf, hmay, if_true, Part.Shaped, Part.nodes, Part.holds, Bool.true_and]
      by_cases habsent : raw.isAbsent name = true
      · rw [if_pos habsent, habsent, Json.entries_of_isAbsent habsent]
        simp [succeeds_pure]
      · rw [if_neg habsent, h.list_succeeds, (Bool.not_eq_true _).mp habsent]
        simp [Json.HasList]
    · simp only [Keeps, partOf, hmay, Part.Shaped, Part.nodes, Part.holds, Bool.false_and,
        Bool.false_eq_true, if_false]
      rw [h.list_succeeds]
      simp [Json.HasList]

/-- A field is read exactly when the node keeps what it asks. -/
theorem Judges.field_succeeds (h : Judges child good) {raw : Json} {slot : Slot}
    (hsparse : slot.arity = .list true → mayBeMissing kind slot.name = false) :
    Succeeds (field child kind raw slot) s ↔ Keeps good raw (partOf kind slot) := by
  obtain ⟨name, arity, holds, role⟩ := slot
  cases arity with
  | one => exact h.field_one
  | optional => exact h.field_optional
  | list holes => exact h.field_list fun hholes => hsparse (congrArg Arity.list hholes)

theorem Judges.fields_succeeds (h : Judges child good) {raw : Json} :
    ∀ {slots : List Slot} {s : ImportState},
      (∀ slot ∈ slots, slot.arity = .list true → mayBeMissing kind slot.name = false) →
        (Succeeds (fields child kind raw slots) s ↔
          ∀ part ∈ slots.map (partOf kind), Keeps good raw part) := by
  intro slots
  induction slots with
  | nil =>
    intro s _
    rw [fields]
    simp [succeeds_pure]
  | cons slot slots ih =>
    intro s hsparse
    obtain ⟨hfirst, hrest⟩ := List.forall_mem_cons.mp hsparse
    have hothers : ∀ first t, Gives (field child kind raw slot) s first t →
        (Succeeds (do return Fields.cons first (← fields child kind raw slots)) t ↔
          ∀ part ∈ slots.map (partOf kind), Keeps good raw part) := by
      intro first t _
      rw [succeeds_bind_pure]
      exact ih hrest
    rw [fields, succeeds_bind_iff hothers, h.field_succeeds hfirst, List.map_cons,
      List.forall_mem_cons]

end fields

/-- The fields of a form are those that the grammar gives its kind. -/
theorem map_partOf {kind : NodeKind} {slots : List Slot} (form : Form kind slots)
    (hkind : kind ≠ .program) : slots.map (partOf kind) = kind.parts := by
  cases form with
  | program => exact absurd rfl hkind
  | _ => rfl

theorem sparse_not_missing {kind : NodeKind} {slots : List Slot} (form : Form kind slots) :
    ∀ slot ∈ slots, slot.arity = .list true → mayBeMissing kind slot.name = false := by
  cases form <;> simp [mayBeMissing]

/-! ### Nodes -/

theorem kindOf_eq_ok {file : Option String} {raw : Json} {kind : NodeKind} :
    kindOf file raw = .ok kind ↔ raw.HasKind kind := by
  unfold kindOf Json.HasKind
  cases raw.nodeTag? with
  | none => simp [show NodeKind.ofTag? "" = none by decide]
  | some tag =>
    rw [Option.some.injEq, ← NodeKind.ofTag?_eq_some]
    cases hfound : NodeKind.ofTag? tag <;> simp [hfound]

/-- A node that is in order, as are the nodes below it, on at most the given
number of levels. -/
def NodeWithin : Nat → Json → Prop
  | 0, _ => False
  | n + 1, raw =>
    ∃ kind, raw.HasKind kind ∧ kind ≠ .program ∧ kind.Allows raw ∧
      ∀ part ∈ kind.parts, Keeps (NodeWithin n) raw part

theorem nodeOfKind_succeeds {file : Option String} {child : Json → Import AnyNode}
    {good : Json → Prop} (h : Judges child good) {kind : NodeKind} {raw : Json} {s : ImportState} :
    Succeeds (nodeOfKind file child kind raw) s ↔
      kind ≠ .program ∧ kind.Allows raw ∧ ∀ part ∈ kind.parts, Keeps good raw part := by
  -- the attributes are checked in part before the fields and in part after
  have hrest : ∀ {slots : List Slot} {form : Form kind slots} {data : NodeData} {t : ImportState},
      Succeeds (do
        let fields ← fields child kind raw slots
        liftM (lateCheck kind raw)
        return (⟨kind, .mk data form fields⟩ : AnyNode)) t ↔
      (∀ part ∈ slots.map (partOf kind), Keeps good raw part) ∧ lateCheck kind raw = .ok () := by
    intro slots form data t
    rw [← h.fields_succeeds (s := t) (sparse_not_missing form)]
    refine succeeds_bind_iff fun found t' _ => ?_
    rw [succeeds_bind_pure, succeeds_liftM]
    exact ⟨fun ⟨_, hlate⟩ => hlate, fun hlate => ⟨(), hlate⟩⟩
  constructor
  · intro hnode
    obtain ⟨data, t, -, hnode⟩ := succeeds_bind.mp hnode
    obtain ⟨⟨slots, form⟩, t', hlift, hnode⟩ := succeeds_bind.mp hnode
    obtain ⟨hfields, hlate⟩ := hrest.mp hnode
    obtain ⟨hne, hallows⟩ :=
      (attributes_isOk kind raw).mp ⟨⟨_, (gives_liftM.mp hlift).1⟩, hlate⟩
    rw [map_partOf form hne] at hfields
    exact ⟨hne, hallows, hfields⟩
  · rintro ⟨hne, hallows, hparts⟩
    obtain ⟨⟨⟨slots, form⟩, hform⟩, hlate⟩ := (attributes_isOk kind raw).mpr ⟨hne, hallows⟩
    rw [← map_partOf form hne] at hparts
    exact succeeds_bind.mpr ⟨_, _, takeData_gives.mpr rfl,
      succeeds_bind.mpr ⟨_, _, gives_liftM.mpr ⟨hform, rfl⟩, hrest.mpr ⟨hparts, hlate⟩⟩⟩

theorem nodeOfKind_kind {file : Option String} {child : Json → Import AnyNode} {kind : NodeKind}
    {raw : Json} {any : AnyNode} {s s' : ImportState}
    (h : Gives (nodeOfKind file child kind raw) s any s') : any.kind = kind := by
  obtain ⟨data, t, -, h⟩ := gives_bind.mp h
  obtain ⟨⟨slots, form⟩, t₁, -, h⟩ := gives_bind.mp h
  obtain ⟨found, t₂, -, h⟩ := gives_bind.mp h
  obtain ⟨u, t₃, -, h⟩ := gives_bind.mp h
  obtain ⟨rfl, -⟩ := gives_pure.mp h
  rfl

/-- Reading a node succeeds, whatever was read before, exactly when it and the
nodes below are in order on the levels allowed. -/
theorem node_judges (file : Option String) :
    ∀ levels, Judges (node file levels) (NodeWithin levels) := by
  intro levels
  induction levels with
  | zero =>
    -- the kind is still looked at, but every node is refused
    refine ⟨?_, ?_⟩
    · intro raw s
      refine ⟨fun h => ?_, fun h => absurd h id⟩
      obtain ⟨kind, t, -, hthrow⟩ := succeeds_bind.mp h
      exact not_succeeds_throw hthrow
    · intro raw s s' any h
      obtain ⟨kind, t, -, hthrow⟩ := gives_bind.mp h
      exact absurd hthrow gives_throw
  | succ levels ih =>
    refine ⟨?_, ?_⟩
    · intro raw s
      rw [node, succeeds_bind, NodeWithin]
      constructor
      · rintro ⟨kind, t, hlift, hnode⟩
        obtain ⟨hkind, rfl⟩ := gives_liftM.mp hlift
        exact ⟨kind, kindOf_eq_ok.mp hkind, (nodeOfKind_succeeds ih).mp hnode⟩
      · rintro ⟨kind, hkind, hnode⟩
        exact ⟨kind, s, gives_liftM.mpr ⟨kindOf_eq_ok.mpr hkind, rfl⟩,
          (nodeOfKind_succeeds ih).mpr hnode⟩
    · intro raw s s' any h
      obtain ⟨kind, t, hlift, hnode⟩ := gives_bind.mp h
      obtain ⟨hkind, rfl⟩ := gives_liftM.mp hlift
      rw [nodeOfKind_kind hnode]
      exact kindOf_eq_ok.mp hkind

/-- The nodes below a value are in order on so many levels exactly when each
is, wherever it is reached, and none is reached deeper. -/
theorem nodeWithin_iff {n : Nat} {raw : Json} :
    NodeWithin n raw ↔ ∀ level value, raw.OnLevel level value → value.IsNode ∧ level ≤ n := by
  induction n generalizing raw with
  | zero =>
    refine ⟨fun h => absurd h id, fun h => ?_⟩
    exact absurd (h 1 raw (.root raw)).2 (Nat.not_succ_le_zero 0)
  | succ n ih =>
    constructor
    · rintro ⟨kind, hkind, hne, hallows, hparts⟩ level value hvalue
      cases hvalue with
      | root =>
        refine ⟨⟨kind, hkind, hne, hallows, fun part hpart => ?_⟩, Nat.succ_le_succ n.zero_le⟩
        obtain ⟨hshaped, hnodes⟩ := hparts part hpart
        exact ⟨hshaped, fun value hvalue => (hnodes value hvalue).1⟩
      | inside hchild hvalue =>
        obtain ⟨other, hother, part, hpart, hmem⟩ := hchild
        -- a value has one kind, so the child is in a field that was checked
        obtain rfl := hkind.unique hother
        have hwithin := ((hparts part hpart).2 _ hmem).2
        obtain ⟨hnode, hlevel⟩ := ih.mp hwithin _ _ hvalue
        exact ⟨hnode, Nat.succ_le_succ hlevel⟩
    · intro h
      obtain ⟨kind, hkind, hne, hallows, hparts⟩ := (h 1 raw (.root raw)).1
      refine ⟨kind, hkind, hne, hallows, fun part hpart => ?_⟩
      obtain ⟨hshaped, hnodes⟩ := hparts part hpart
      refine ⟨hshaped, fun child hmem => ⟨hnodes child hmem, ih.mpr ?_⟩⟩
      intro level value hvalue
      obtain ⟨hnode, hlevel⟩ := h _ _ (.inside ⟨kind, hkind, part, hpart, hmem⟩ hvalue)
      exact ⟨hnode, Nat.le_of_succ_le_succ hlevel⟩

/-! ### Programs -/

/-- Results of a check on every value of a list. -/
theorem mapM_isOk {α β : Type} {check : α → Except ImportError β} {P : β → Prop}
    {values : List α} : (∃ found, values.mapM check = .ok found ∧ ∀ b ∈ found, P b) ↔
      ∀ value ∈ values, ∃ b, check value = .ok b ∧ P b := by
  simp only [mapM_eq_ok_iff]
  induction values with
  | nil => simp
  | cons value rest ih =>
    rw [List.forall_mem_cons, ← ih]
    simp only [List.forall₂_cons_left_iff]
    constructor
    · rintro ⟨_, ⟨first, others, hfirst, hothers, rfl⟩, hP⟩
      obtain ⟨hfirstP, hothersP⟩ := List.forall_mem_cons.mp hP
      exact ⟨⟨first, hfirst, hfirstP⟩, others, hothers, hothersP⟩
    · rintro ⟨⟨first, hfirst, hfirstP⟩, others, hothers, hothersP⟩
      exact ⟨first :: others, ⟨first, others, hfirst, hothers, rfl⟩,
        List.forall_mem_cons.mpr ⟨hfirstP, hothersP⟩⟩

/-- Whether there is a location does not depend on the file. -/
theorem location?_isSome (raw : Json) (file : Option String) :
    (raw.location? file).isSome = (raw.location? none).isSome := by
  unfold Json.location?
  cases raw.get? "loc" with
  | none => rfl
  | some loc =>
    cases hstart : (loc.get? "start").bind Json.position? with
    | none => simp [hstart]
    | some start => cases hstop : (loc.get? "end").bind Json.position? <;> simp [hstart, hstop]

/-- A comment is read, and has a line if it needs one, exactly when it is in
order. -/
theorem comment_isOk {file : Option String} {raw : Json} :
    (∃ c, comment file raw = .ok c ∧ (c.isDoc = true → c.endLine?.isSome = true)) ↔
      raw.IsComment := by
  simp only [comment_eq_ok_iff]
  constructor
  · rintro ⟨c, hread, hline⟩
    refine ⟨⟨c.kind, hread.kind⟩, c.value, hread.value, fun hdoc => ?_⟩
    have hsome := hline (decide_eq_true hdoc)
    rwa [Comment.endLine?, Option.isSome_map, hread.loc, location?_isSome] at hsome
  · rintro ⟨⟨kind, hkind⟩, value, hvalue, hloc⟩
    refine ⟨⟨kind, value, raw.location? file, raw.range?⟩, ⟨hkind, hvalue, rfl, rfl⟩,
      fun hdoc => ?_⟩
    rw [Comment.endLine?, Option.isSome_map, location?_isSome]
    exact hloc (of_decide_eq_true hdoc)

/-- The comments of a program are read and put into the index exactly when all
are in order. -/
theorem comments_isOk {file : Option String} {raw : Json} {index : CommentIndex} :
    (∃ found index', comments file raw = .ok found ∧ index.add found = (index', none)) ↔
      ∀ items, raw.get? "comments" = some (.array items) → ∀ item ∈ items, item.IsComment := by
  simp only [exists_and_left, CommentIndex.add_eq_none_iff, ← Json.bind_asArray?]
  unfold comments
  cases (raw.get? "comments").bind Json.asArray? with
  | none => simp
  | some values =>
    dsimp only
    rw [mapM_isOk]
    simp only [comment_isOk, Option.some.injEq, forall_eq']

theorem hasStatements_iff {raw : Json} {items : List Json} :
    raw.HasStatements items ↔ raw.get? (statementsName raw) = some (.array items) := by
  unfold Json.HasStatements statementsName
  by_cases h : raw.isAbsent "body" = true ∧ raw.isAbsent "elements" = false
  · rw [if_pos h, if_pos (by simp [h])]
  · rw [if_neg h, if_neg (by simpa using h)]

theorem hasStatements_unique {raw : Json} {items others : List Json} (h : raw.HasStatements items)
    (h' : raw.HasStatements others) : items = others := by
  rw [hasStatements_iff] at h h'
  exact Json.array.inj (Option.some.inj (h.symm.trans h'))

/-- The statements of a program are read exactly when they are there and in
order. -/
theorem statements_succeeds {file : Option String} {levels : Nat} {raw : Json} {s : ImportState} :
    (∃ entries t body,
      Gives (itemsOf (node file levels) .program raw (statementsName raw)) s entries t ∧
        list .program false .statement .child (statementsName raw) entries = .ok body) ↔
      ∃ items, raw.HasStatements items ∧
        ∀ item ∈ items, item.CanBe .statement ∧ NodeWithin levels item := by
  have hsteps : (∃ entries t body,
      Gives (itemsOf (node file levels) .program raw (statementsName raw)) s entries t ∧
        list .program false .statement .child (statementsName raw) entries = .ok body) ↔
      Succeeds (do
        let entries ← itemsOf (node file levels) .program raw (statementsName raw)
        (liftM (list .program false .statement .child (statementsName raw) entries) :
          Import (Field (.list false) .statement))) s := by
    simp only [succeeds_bind, succeeds_liftM, exists_and_left]
  rw [hsteps, (node_judges file levels).list_succeeds]
  simp only [hasStatements_iff]
  constructor
  · rintro ⟨⟨items, hget, hholes⟩, hnodes⟩
    refine ⟨items, hget, fun item hitem => hnodes item ?_⟩
    exact (Json.mem_entries hget).mpr ⟨hitem, fun hnull => hholes trivial (hnull ▸ hitem)⟩
  · rintro ⟨items, hget, hitems⟩
    refine ⟨⟨items, hget, fun _ hnull => (hitems _ hnull).1.ne_null rfl⟩, fun item hitem => ?_⟩
    exact hitems item ((Json.mem_entries hget).mp hitem).1

/-- A whole program is read exactly when its tag is right and its comments and
statements are in order. -/
theorem importProgram_isOk {raw : Json} {file : Option String} :
    (∃ p, importProgram raw file = .ok p) ↔
      raw.HasKind .program ∧
        (∀ items, raw.get? "comments" = some (.array items) → ∀ item ∈ items, item.IsComment) ∧
        ∃ items, raw.HasStatements items ∧
          ∀ item ∈ items, item.CanBe .statement ∧ NodeWithin depthLimit item := by
  simp only [importProgram_eq_ok, program_gives]
  constructor
  · rintro ⟨p, htag, data, t, cs, index, entries, t', body, hdata, hcs, hadd, hentries, hbody, -⟩
    exact ⟨htag, comments_isOk.mp ⟨cs, index, hcs, hadd⟩,
      statements_succeeds.mp ⟨entries, t', body, hentries, hbody⟩⟩
  · rintro ⟨htag, hcomments, hstatements⟩
    obtain ⟨cs, index, hcs, hadd⟩ := comments_isOk.mpr hcomments
    obtain ⟨entries, t', body, hentries, hbody⟩ := statements_succeeds.mpr hstatements
    exact ⟨_, htag, _, _, cs, index, entries, t', body, rfl, hcs, hadd, hentries, hbody, rfl⟩

end Import

/-- The import accepts exactly the programs of the grammar, whatever file they
are said to come from. -/
theorem importProgram_isOk_iff (raw : Json) (file : Option String) :
    (∃ p, importProgram raw file = .ok p) ↔ raw.IsProgram := by
  rw [Import.importProgram_isOk]
  constructor
  · rintro ⟨htag, hcomments, items, hitems, hnodes⟩
    have hbelow : ∀ n value, raw.Below n value → value.IsNode ∧ n ≤ 1000 := by
      rintro n value ⟨items', hitems', item, hitem, hvalue⟩
      obtain rfl := Import.hasStatements_unique hitems hitems'
      exact Import.nodeWithin_iff.mp (hnodes item hitem).2 n value hvalue
    exact ⟨htag, hcomments, ⟨items, hitems, fun item hitem => (hnodes item hitem).1⟩,
      fun n value h => (hbelow n value h).1, fun n value h => (hbelow n value h).2⟩
  · intro h
    obtain ⟨items, hitems, hcan⟩ := h.statements
    refine ⟨h.tag, h.comments, items, hitems, fun item hitem => ⟨hcan item hitem, ?_⟩⟩
    rw [Import.nodeWithin_iff]
    intro n value hvalue
    have hbelow : raw.Below n value := ⟨items, hitems, item, hitem, hvalue⟩
    exact ⟨h.nodes n value hbelow, h.levels n value hbelow⟩

/-! ### Values at the edge of the grammar -/

/-- A program of one statement. -/
def programOf (statement : Json) : Json :=
  .object [("type", .string "Program"), ("body", .array [statement])]

/-- A statement of one expression. -/
def statementOf (expression : Json) : Json :=
  .object [("type", .string "ExpressionStatement"), ("expression", expression)]

/-- A literal with a list for a value, which is marked as a regular
expression. -/
def markedList : Json :=
  .object [("type", .string "Literal"), ("value", .array []), ("regex", .object [])]

/-- A property whose kind is no text. -/
def flaggedProperty : Json :=
  .object [("type", .string "Property"), ("key", .object [("type", .string "ThisExpression")]),
    ("value", .object [("type", .string "ThisExpression")]), ("kind", .bool true)]

/-- An object with one property. -/
def objectOf (property : Json) : Json :=
  .object [("type", .string "ObjectExpression"), ("properties", .array [property])]

def emptyBlock : Json := .object [("type", .string "BlockStatement"), ("body", .array [])]

def emptyCatch : Json :=
  .object [("type", .string "CatchClause"),
    ("param", .object [("type", .string "Identifier"), ("name", .string "x")]),
    ("body", emptyBlock)]

/-- A statement with one catch clause, and with two in a list besides. -/
def handledTwice : Json :=
  .object [("type", .string "TryStatement"), ("block", emptyBlock), ("handler", emptyCatch),
    ("handlers", .array [emptyCatch, emptyCatch])]

/-- An identifier whose name is no text. -/
def flaggedName : Json := .object [("type", .string "Identifier"), ("name", .bool true)]

/-- The import accepts a program in which the value is reached. -/
def AcceptedIn (raw value : Json) : Prop :=
  (∃ p, importProgram raw none = .ok p) ∧ ∃ n, raw.Below n value

theorem hasChild_statementOf {expression : Json} (h : expression ≠ .null) :
    (statementOf expression).HasChild expression := by
  refine ⟨.expressionStatement, rfl, _, List.mem_singleton_self _, ?_⟩
  have hgiven : (statementOf expression).given? "expression" = some expression :=
    Json.given?_eq_some.mpr ⟨rfl, h⟩
  rw [Part.nodes, hgiven]
  exact List.mem_singleton_self expression

theorem acceptedIn_programOf {statement value : Json} {n : Nat}
    (h : (importProgram (programOf statement) none).toOption.isSome = true)
    (hvalue : statement.OnLevel n value) : AcceptedIn (programOf statement) value := by
  obtain ⟨p, hp⟩ := Option.isSome_iff_exists.mp h
  exact ⟨⟨p, importProgram_of_toOption hp⟩, n, [statement], rfl, statement,
    List.mem_singleton_self _, hvalue⟩

/-- A literal may have a list for a value, a property may have a kind from no
table, and a statement may have several handlers in a list, where these are not
looked at: the literal is marked as a regular expression, the kind is no text,
or there is a handler besides. A name that is there but is no text is refused. -/
theorem importProgram_overlooks :
    (AcceptedIn (programOf (statementOf markedList)) markedList ∧
      markedList.HasKind .literal ∧ markedList.get? "value" = some (.array [])) ∧
    (AcceptedIn (programOf (statementOf (objectOf flaggedProperty))) flaggedProperty ∧
      flaggedProperty.HasKind .property ∧ flaggedProperty.isAbsent "kind" = false ∧
      ∀ kind : PropertyKind, flaggedProperty.get? "kind" ≠ some (.string kind.text)) ∧
    (AcceptedIn (programOf handledTwice) handledTwice ∧ handledTwice.HasKind .tryStatement ∧
      handledTwice.get? "handlers" = some (.array [emptyCatch, emptyCatch])) ∧
    flaggedName.isAbsent "name" = false ∧
      ¬ ∃ p, importProgram (programOf (statementOf flaggedName)) none = .ok p := by
  refine ⟨⟨acceptedIn_programOf (n := 2) (by decide +kernel) ?_, rfl, rfl⟩,
    ⟨acceptedIn_programOf (n := 3) (by decide +kernel) ?_, rfl, rfl, ?_⟩,
    ⟨acceptedIn_programOf (by decide +kernel) (.root _), rfl, rfl⟩, rfl, ?_⟩
  · exact .inside (hasChild_statementOf Json.noConfusion) (.root markedList)
  · have hproperty : (objectOf flaggedProperty).HasChild flaggedProperty :=
      ⟨.objectExpression, rfl, _, List.mem_singleton_self _, List.mem_singleton_self _⟩
    exact .inside (hasChild_statementOf Json.noConfusion)
      (.inside hproperty (.root flaggedProperty))
  · intro kind h
    cases h
  · rintro ⟨p, hp⟩
    have hnone :
        (importProgram (programOf (statementOf flaggedName)) none).toOption.isNone = true := by
      decide +kernel
    rw [hp] at hnone
    cases hnone

end EsFront
