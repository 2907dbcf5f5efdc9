/-
The comments among the pieces of a printed node.

A printed node writes the comments of its children in the order of its fields:
in places for statements those in front of the child too, elsewhere only those
inside it. It does so at every level of indentation, in the head of a loop, and
as an accessor (`Printed.Steady`). Main statement: `written_layout` — the same
for every form, with one exception: the key of a property is left out when its
value stands for both (`Form.standsForKey`).
-/
import Mathlib.Data.List.Basic
import EsFront.Print.Layout

namespace EsFront

/-- The comment that a piece is, if it is one. -/
def Piece.comment? : Piece → Option Comment
  | comment c => some c
  | text _ | opening _ | closing _ | operator _ | line _ => none

/-- The comments among pieces, in order. -/
def written (pieces : List Piece) : List Comment := pieces.filterMap Piece.comment?

/-! ### Pieces -/

section pieces

variable (pieces : List Piece)

@[simp]
theorem written_nil : written [] = [] := rfl

@[simp]
theorem written_append (more : List Piece) :
    written (pieces ++ more) = written pieces ++ written more := List.filterMap_append

@[simp]
theorem written_text (s : String) : written (.text s :: pieces) = written pieces := rfl

@[simp]
theorem written_operator (op : BinaryOperator) :
    written (.operator op :: pieces) = written pieces := rfl

@[simp]
theorem written_line (level : Nat) : written (.line level :: pieces) = written pieces := rfl

@[simp]
theorem written_comment (c : Comment) : written (.comment c :: pieces) = c :: written pieces := rfl

@[simp]
theorem written_flatMap {α : Type} (f : α → List Piece) (as : List α) :
    written (as.flatMap f) = as.flatMap fun a => written (f a) := List.filterMap_flatMap

/-- Comments on lines of their own. -/
theorem written_leading (comments : List Comment) (level : Nat) :
    written (comments.flatMap fun c => [.comment c, .line level]) = comments := by
  simp

@[simp]
theorem written_enclosed (bracket : Bracket) :
    written (enclosed bracket pieces) = written pieces := by
  change written (pieces ++ [.closing bracket]) = _
  rw [written_append]
  exact List.append_nil _

@[simp]
theorem written_parenthesized : written (parenthesized pieces) = written pieces :=
  written_enclosed _ _

/-- What stands between the parts holds no comments. -/
theorem written_intercalate {separator : List Piece} (h : written separator = [])
    (parts : List (List Piece)) :
    written (separator.intercalate parts) = parts.flatMap written := by
  induction parts with
  | nil => rfl
  | cons part parts ih =>
    cases parts with
    | nil => simp
    | cons next parts =>
      rw [List.intercalate_cons_cons, written_append, written_append, h, ih, List.append_nil]
      rfl

@[simp]
theorem written_commaSeparated (parts : List (List Piece)) :
    written (commaSeparated parts) = parts.flatMap written := written_intercalate rfl parts

end pieces

/-! ### Printed nodes -/

namespace Printed

/-- The comments inside a printed node. -/
def inner (p : Printed) : List Comment := written (p.pieces 0)

/-- A printed node writes the same comments at every level and in every place,
and a mere name writes none. -/
structure Steady (p : Printed) : Prop where
  pieces : ∀ level, written (p.pieces level) = p.inner
  inHead : ∀ head, p.inHead? = some head → ∀ level, written (head level) = p.inner
  accessor : ∀ tail, p.accessor? = some tail → ∀ level, written (tail level) = p.inner
  identifier : p.isIdentifier = true → p.inner = [] ∧ p.accessor? = none

variable {p : Printed}

namespace Steady

theorem written_operand (h : p.Steady) (least : Precedence) (level : Nat) :
    written (p.operand least level) = p.inner := by
  unfold operand
  split
  · rw [written_parenthesized, h.pieces]
  · exact h.pieces level

theorem written_withoutIn (h : p.Steady) (least : Precedence) (level : Nat) :
    written (p.withoutIn least level) = p.inner := by
  unfold withoutIn
  split
  · rw [written_parenthesized, h.pieces]
  · exact h.written_operand least level

theorem written_inHead (h : p.Steady) (level : Nat) : written (p.inHead level) = p.inner := by
  unfold Printed.inHead
  split
  · rename_i head hhead
    exact h.inHead head hhead level
  · exact h.written_withoutIn _ level

theorem written_statement (h : p.Steady) (level : Nat) :
    written (p.statement level) = p.comments ++ p.inner := by
  rw [statement, written_append, h.pieces, written_leading]

end Steady

section lists

variable {ps : List Printed} (h : ∀ p ∈ ps, p.Steady)
include h

theorem written_lines (level : Nat) :
    written (lines ps level) = ps.flatMap fun p => p.comments ++ p.inner := by
  rw [lines, written_flatMap]
  refine List.flatMap_congr fun p hp => ?_
  rw [written_line, (h p hp).written_statement]

theorem written_arguments (level : Nat) :
    written (arguments ps level) = ps.flatMap inner := by
  rw [arguments, written_parenthesized, written_commaSeparated, List.flatMap_map]
  exact List.flatMap_congr fun p hp => (h p hp).written_operand _ level

theorem written_pieces (level : Nat) :
    (ps.map fun p => p.pieces level).flatMap written = ps.flatMap inner := by
  rw [List.flatMap_map]
  exact List.flatMap_congr fun p hp => (h p hp).pieces level

end lists

theorem written_afterBlank {o : Option Printed} (h : ∀ p ∈ o, p.Steady) (level : Nat) :
    written (afterBlank o level) = o.toList.flatMap inner := by
  cases o with
  | none => rfl
  | some p => simp [afterBlank, (h p rfl).pieces]

end Printed

/-! ### Results of fields -/

section values

variable {ρ : Type}

/-- A property of the results of all nodes of a field. -/
def Value.All (P : ρ → Prop) : (arity : Arity) → Value ρ arity → Prop
  | .one, r => P r
  | .optional, r => ∀ x ∈ r, P x
  | .list false, rs => ∀ r ∈ rs, P r
  | .list true, rs => ∀ r, some r ∈ rs → P r

/-- A property of the results of all children. -/
def Values.All (P : Slot → ρ → Prop) : (slots : List Slot) → Values ρ slots → Prop
  | [], _ => True
  | slot :: slots, (v, rest) => Value.All (P slot) slot.arity v ∧ All P slots rest

theorem Value.All.imp {P Q : ρ → Prop} (h : ∀ r, P r → Q r) :
    ∀ {arity : Arity} {v : Value ρ arity}, Value.All P arity v → Value.All Q arity v := by
  intro arity v hall
  match arity, v, hall with
  | .one, _, hall => exact h _ hall
  | .optional, _, hall => exact fun r hr => h r (hall r hr)
  | .list false, _, hall => exact fun r hr => h r (hall r hr)
  | .list true, _, hall => exact fun r hr => h r (hall r hr)

theorem Values.All.imp {P Q : Slot → ρ → Prop} (h : ∀ slot r, P slot r → Q slot r) :
    ∀ {slots : List Slot} {values : Values ρ slots},
      Values.All P slots values → Values.All Q slots values := by
  intro slots
  induction slots with
  | nil => exact fun _ => trivial
  | cons slot slots ih => exact fun hall => ⟨hall.1.imp (h slot), ih hall.2⟩

/-- What is collected from the results of a field, in order. -/
@[simp]
def Value.collect {α : Type} (f : ρ → List α) : (arity : Arity) → Value ρ arity → List α
  | .one, r => f r
  | .optional, r => r.toList.flatMap f
  | .list false, rs => rs.flatMap f
  | .list true, rs => rs.flatMap fun r => r.toList.flatMap f

/-- What is collected from the results of all children, in order. -/
@[simp]
def Values.collect {α : Type} (f : Slot → ρ → List α) :
    (slots : List Slot) → Values ρ slots → List α
  | [], _ => []
  | slot :: slots, (v, rest) => Value.collect (f slot) slot.arity v ++ collect f slots rest

variable {α : Type} {P : ρ → Prop} {f : ρ → List α} (holes : Bool) (r : ρ)

theorem Value.all_nil : Value.All P (.list holes) (Value.nil holes) := by
  cases holes with
  | false => exact fun _ h => absurd h List.not_mem_nil
  | true => exact fun _ h => absurd h List.not_mem_nil

theorem Value.all_cons {v : Value ρ (.list holes)} (h : P r) (hall : Value.All P (.list holes) v) :
    Value.All P (.list holes) (Value.cons holes r v) := by
  cases holes with
  | false => exact List.forall_mem_cons.mpr ⟨h, hall⟩
  | true =>
    intro x hx
    rcases List.mem_cons.mp hx with heq | hmem
    · cases heq
      exact h
    · exact hall x hmem

theorem Value.collect_nil : Value.collect f (.list holes) (Value.nil holes) = [] := by
  cases holes <;> rfl

theorem Value.collect_cons (v : Value ρ (.list holes)) :
    Value.collect f (.list holes) (Value.cons holes r v)
      = f r ++ Value.collect f (.list holes) v := by
  cases holes with
  | false => rfl
  | true => simp [Value.cons]

theorem Values.collect_eq_nil {slots : List Slot} {f : Slot → ρ → List α}
    (h : ∀ slot r, f slot r = []) (values : Values ρ slots) :
    Values.collect f slots values = [] := by
  induction slots with
  | nil => rfl
  | cons slot slots ih =>
    obtain ⟨v, rest⟩ := values
    have hslot : ∀ (arity : Arity) (v : Value ρ arity), Value.collect (f slot) arity v = [] := by
      intro arity v
      match arity, v with
      | .one, r => exact h slot r
      | .optional, o => simp [h]
      | .list false, rs => simp [h]
      | .list true, rs => simp [h]
    rw [Values.collect, hslot, ih]
    rfl

end values

/-! ### Forms -/

@[simp]
def Role.isKey : Role → Bool
  | .key _ => true
  | .child | .name | .binder _ | .body | .declares _ => false

/-- How a node stands in the text of a program. -/
inductive Standing where
  /-- In a place for statements, behind its comments. -/
  | statement
  /-- In another place, without its comments. -/
  | part
  /-- In a key that is left out. -/
  | omitted
deriving DecidableEq, Repr

/-- The comments that are written with a node that stands so. -/
@[simp]
def Standing.shows : Standing → Printed → List Comment
  | statement => fun p => p.comments ++ p.inner
  | part => Printed.inner
  | omitted => fun _ => []

namespace Slot

/-- How the nodes of a field stand, given how their parent does and whether its
key is left out. -/
@[simp]
def standing (outer : Standing) (omitsKey : Bool) (slot : Slot) : Standing :=
  if outer = .omitted ∨ (omitsKey = true ∧ slot.role.isKey = true) then .omitted
  else if slot.holds = .statement then .statement
  else .part

/-- What is expected of the printed node in a field. -/
def Expects (slot : Slot) (p : Printed) : Prop :=
  p.Steady ∧ (slot.holds = .identifier → p.isIdentifier = true)

end Slot

section layout

variable {kind : NodeKind} {slots : List Slot}

/-- Whether the printed value of a property stands for its key too. -/
@[simp]
def Form.standsForKey (form : Form kind slots) (values : Values Printed slots) : Bool :=
  match form, values with
  | .property _ computed shorthand, (_, value, ()) =>
    shorthand && !computed && value.isIdentifier
  | _, _ => false

end layout

section parts

open Printed

theorem written_blockPieces {body : List Printed} (h : ∀ p ∈ body, p.Steady) (level : Nat) :
    written (blockPieces body level) = body.flatMap fun p => p.comments ++ p.inner := by
  unfold blockPieces
  split
  · rename_i hempty
    rw [List.isEmpty_iff.mp hempty]
    rfl
  · simp [written_lines h]

theorem written_functionTail {params : List Printed} {body : Printed}
    (hparams : ∀ p ∈ params, p.Steady) (hbody : body.Steady) (level : Nat) :
    written (functionTail params body level) = params.flatMap inner ++ body.inner := by
  simp [functionTail, written_pieces hparams, hbody.pieces]

theorem written_functionPieces {name : Option Printed} {params : List Printed} {body : Printed}
    (generator : Bool) (hname : ∀ p ∈ name, p.Steady) (hparams : ∀ p ∈ params, p.Steady)
    (hbody : body.Steady) (level : Nat) :
    written (functionPieces generator name params body level)
      = name.toList.flatMap inner ++ (params.flatMap inner ++ body.inner) := by
  simp [functionPieces, written_afterBlank hname, written_functionTail hparams hbody]

theorem written_ifPieces {test consequent : Printed} {alternate : Option Printed}
    (htest : test.Steady) (hconsequent : consequent.Steady)
    (halternate : ∀ p ∈ alternate, p.Steady) (level : Nat) :
    written (ifPieces test consequent alternate level)
      = test.inner ++ (consequent.comments ++ consequent.inner
        ++ alternate.toList.flatMap fun p => p.comments ++ p.inner) := by
  cases alternate with
  | none => simp [ifPieces, htest.pieces, hconsequent.written_statement]
  | some alternate =>
    have h := halternate alternate rfl
    -- with braces or without
    by_cases hopen : consequent.openIf = true
    · simp [ifPieces, hopen, htest.pieces, hconsequent.written_statement, h.written_statement]
    · simp [ifPieces, hopen, htest.pieces, hconsequent.written_statement, h.written_statement]

theorem written_arrayPieces {elements : List (Option Printed)}
    (h : ∀ p, some p ∈ elements → p.Steady) (level : Nat) :
    written (arrayPieces elements level) = elements.flatMap fun e => e.toList.flatMap inner := by
  rw [arrayPieces, written_enclosed, written_append, written_commaSeparated, List.flatMap_map]
  refine (congrArg₂ (· ++ ·) (List.flatMap_congr fun e he => ?_) ?_).trans (List.append_nil _)
  · cases e with
    | none => rfl
    | some p => simp [(h p he).written_operand]
  · -- a comma after a hole
    split
    · rfl
    · rfl

theorem written_objectPieces {properties : List Printed} (h : ∀ p ∈ properties, p.Steady)
    (level : Nat) :
    written (objectPieces properties level) = properties.flatMap inner := by
  unfold objectPieces
  split
  · rename_i hempty
    rw [List.isEmpty_iff.mp hempty]
    rfl
  · simp [written_pieces h]

/-- The key of a property is written unless the value stands for it. -/
theorem written_propertyPieces {key value : Printed} (kind : PropertyKind)
    (computed shorthand : Bool) (hkey : key.Steady) (hvalue : value.Steady) (level : Nat) :
    written (propertyPieces kind computed shorthand key value level)
      = (if shorthand && !computed && value.isIdentifier then [] else key.inner)
        ++ value.inner := by
  have hkeyPieces : written (if computed then enclosed .square (key.operand .assignment level)
      else key.operand .primary level) = key.inner := by
    split
    · rw [written_enclosed, hkey.written_operand]
    · exact hkey.written_operand _ level
  unfold propertyPieces
  dsimp only
  split
  · rename_i tail htail
    -- an accessor is no name
    have haccessor : value.accessor? = some tail := by
      split at htail
      · cases htail
      · exact htail
    have hname : value.isIdentifier = false := by
      refine Bool.eq_false_iff.mpr fun hidentifier => ?_
      rw [(hvalue.identifier hidentifier).2] at haccessor
      cases haccessor
    rw [written_text, written_append, hkeyPieces, hvalue.accessor tail haccessor, hname,
      Bool.and_false]
    rfl
  · split
    · rw [hvalue.written_operand]
      rfl
    · rw [written_append, hkeyPieces, written_text, hvalue.written_operand]

theorem written_memberPieces {object property : Printed} (computed : Bool)
    (hobject : object.Steady) (hproperty : property.Steady) (level : Nat) :
    written (memberPieces computed object property level) = object.inner ++ property.inner := by
  cases computed with
  | true => simp [memberPieces, hobject.written_operand, hproperty.pieces]
  | false =>
    by_cases hnumber : object.isNumber = true
    · simp [memberPieces, hnumber, hobject.pieces, hproperty.written_operand]
    · simp [memberPieces, hnumber, hobject.written_operand, hproperty.written_operand]

theorem written_declaratorPieces {id : Printed} {init : Option Printed} (hid : id.Steady)
    {write : Printed → Precedence → Leveled}
    (hwrite : ∀ p ∈ init, ∀ least level, written (write p least level) = p.inner) (level : Nat) :
    written (declaratorPieces id init write level)
      = id.inner ++ init.toList.flatMap inner := by
  cases init with
  | none => simp [declaratorPieces, hid.pieces]
  | some init => simp [declaratorPieces, hid.pieces, hwrite init rfl]

theorem written_tryPart {part : Option Printed} (word : String) (h : ∀ p ∈ part, p.Steady)
    (level : Nat) : written (tryPart word part level) = part.toList.flatMap inner := by
  cases part with
  | none => rfl
  | some part => simp [tryPart, (h part rfl).pieces]

end parts

section layout

open Printed

variable {kind : NodeKind} {slots : List Slot}

/-- The comments of a printed form are those of its children. -/
theorem written_layout (comments : List Comment) (form : Form kind slots)
    (values : Values Printed slots) (h : Values.All (fun _ => Printed.Steady) slots values)
    (level : Nat) :
    written ((layout comments form values).pieces level)
      = Values.collect (fun slot => (slot.standing .part (form.standsForKey values)).shows)
          slots values := by
  -- for each form, its parts in the order of its slots
  cases form with
  | program _ _ =>
    obtain ⟨body, ⟨⟩⟩ := values
    refine (written_intercalate rfl _).trans ?_
    simp [List.flatMap_map, List.flatMap_congr fun p hp => (h.1 p hp).written_statement level]
  | blockStatement =>
    obtain ⟨body, ⟨⟩⟩ := values
    obtain ⟨hbody, -⟩ := h
    simp [layout, plain, written_blockPieces hbody]
  | expressionStatement =>
    obtain ⟨e, ⟨⟩⟩ := values
    obtain ⟨(he : e.Steady), -⟩ := h
    have hpieces : written (if e.opensStatement then parenthesized (e.pieces level)
        else e.pieces level) = e.inner := by
      split
      · rw [written_parenthesized, he.pieces]
      · exact he.pieces level
    simp [layout, plain, hpieces]
  | ifStatement =>
    obtain ⟨test, consequent, alternate, ⟨⟩⟩ := values
    obtain ⟨(htest : test.Steady), (hconsequent : consequent.Steady), halternate, -⟩ := h
    simp [layout, plain, written_ifPieces htest hconsequent halternate]
  | labeledStatement =>
    obtain ⟨label, body, ⟨⟩⟩ := values
    obtain ⟨(hlabel : label.Steady), (hbody : body.Steady), -⟩ := h
    simp [layout, plain, hlabel.pieces, hbody.written_statement]
  | breakStatement =>
    obtain ⟨label, ⟨⟩⟩ := values
    obtain ⟨hlabel, -⟩ := h
    simp [layout, plain, written_afterBlank hlabel]
  | continueStatement =>
    obtain ⟨label, ⟨⟩⟩ := values
    obtain ⟨hlabel, -⟩ := h
    simp [layout, plain, written_afterBlank hlabel]
  | switchStatement =>
    obtain ⟨discriminant, cases, ⟨⟩⟩ := values
    obtain ⟨(hdiscriminant : discriminant.Steady), hcases, -⟩ := h
    simp [layout, plain, hdiscriminant.pieces,
      List.flatMap_congr fun p hp => (hcases p hp).pieces (level + 1)]
  | returnStatement =>
    obtain ⟨argument, ⟨⟩⟩ := values
    obtain ⟨hargument, -⟩ := h
    simp [layout, plain, written_afterBlank hargument]
  | throwStatement =>
    obtain ⟨argument, ⟨⟩⟩ := values
    obtain ⟨(hargument : argument.Steady), -⟩ := h
    simp [layout, plain, hargument.pieces]
  | tryStatement =>
    obtain ⟨block, handler, finalizer, ⟨⟩⟩ := values
    obtain ⟨(hblock : block.Steady), hhandler, hfinalizer, -⟩ := h
    simp [layout, plain, hblock.pieces, written_tryPart _ hhandler, written_tryPart _ hfinalizer]
  | whileStatement =>
    obtain ⟨test, body, ⟨⟩⟩ := values
    obtain ⟨(htest : test.Steady), (hbody : body.Steady), -⟩ := h
    simp [layout, plain, htest.pieces, hbody.written_statement]
  | doWhileStatement =>
    obtain ⟨body, test, ⟨⟩⟩ := values
    obtain ⟨(hbody : body.Steady), (htest : test.Steady), -⟩ := h
    simp [layout, plain, htest.pieces, hbody.written_statement]
  | forStatement =>
    obtain ⟨init, test, update, body, ⟨⟩⟩ := values
    obtain ⟨hinit, htest, hupdate, (hbody : body.Steady), -⟩ := h
    cases init with
    | none =>
      simp [layout, plain, written_afterBlank htest, written_afterBlank hupdate,
        hbody.written_statement]
    | some init =>
      simp [layout, plain, (hinit init rfl).written_inHead, written_afterBlank htest,
        written_afterBlank hupdate, hbody.written_statement]
  | forInStatement =>
    obtain ⟨left, right, body, ⟨⟩⟩ := values
    obtain ⟨(hleft : left.Steady), (hright : right.Steady), (hbody : body.Steady), -⟩ := h
    simp [layout, plain, hleft.written_inHead, hright.pieces, hbody.written_statement]
  | variableDeclaration _ =>
    obtain ⟨declarators, ⟨⟩⟩ := values
    obtain ⟨hdeclarators, -⟩ := h
    simp [layout, plain, declarationPieces, written_pieces hdeclarators]
  | variableDeclarator _ =>
    obtain ⟨id, init, ⟨⟩⟩ := values
    obtain ⟨(hid : id.Steady), hinit, -⟩ := h
    simp [layout, plain, written_declaratorPieces hid fun p hp => (hinit p hp).written_operand]
  | functionDeclaration generator =>
    obtain ⟨id, params, body, ⟨⟩⟩ := values
    obtain ⟨(hid : id.Steady), hparams, (hbody : body.Steady), -⟩ := h
    have hname : ∀ p ∈ some id, p.Steady := fun p hp => Option.mem_some_iff.mp hp ▸ hid
    simp [layout, plain, written_functionPieces generator hname hparams hbody]
  | switchCase =>
    obtain ⟨test, consequent, ⟨⟩⟩ := values
    obtain ⟨htest, hconsequent, -⟩ := h
    cases test with
    | none => simp [layout, plain, written_lines hconsequent]
    | some test => simp [layout, plain, (htest test rfl).pieces, written_lines hconsequent]
  | catchClause =>
    obtain ⟨param, body, ⟨⟩⟩ := values
    obtain ⟨(hparam : param.Steady), (hbody : body.Steady), -⟩ := h
    simp [layout, plain, hparam.pieces, hbody.pieces]
  | property kind computed shorthand =>
    obtain ⟨key, value, ⟨⟩⟩ := values
    obtain ⟨(hkey : key.Steady), (hvalue : value.Steady), -⟩ := h
    refine (written_propertyPieces kind computed shorthand hkey hvalue level).trans ?_
    by_cases homits : (shorthand = true ∧ computed = false) ∧ value.isIdentifier = true
    · simp [homits]
    · simp [homits]
  | arrayExpression =>
    obtain ⟨elements, ⟨⟩⟩ := values
    obtain ⟨helements, -⟩ := h
    simp [layout, expression, written_arrayPieces helements]
  | objectExpression =>
    obtain ⟨properties, ⟨⟩⟩ := values
    obtain ⟨hproperties, -⟩ := h
    simp [layout, expression, written_objectPieces hproperties]
  | functionExpression generator =>
    obtain ⟨id, params, body, ⟨⟩⟩ := values
    obtain ⟨hid, hparams, (hbody : body.Steady), -⟩ := h
    simp [layout, expression, written_functionPieces generator hid hparams hbody]
  | unaryExpression _ =>
    obtain ⟨argument, ⟨⟩⟩ := values
    obtain ⟨(hargument : argument.Steady), -⟩ := h
    simp [layout, expression, hargument.written_operand]
  | updateExpression _ before =>
    obtain ⟨argument, ⟨⟩⟩ := values
    obtain ⟨(hargument : argument.Steady), -⟩ := h
    cases before with
    | true => simp [layout, expression, hargument.written_operand]
    | false => simp [layout, expression, hargument.written_operand]
  | binaryExpression _ =>
    obtain ⟨left, right, ⟨⟩⟩ := values
    obtain ⟨(hleft : left.Steady), (hright : right.Steady), -⟩ := h
    simp [layout, expression, betweenPieces, hleft.written_operand, hright.written_operand]
  | logicalExpression _ =>
    obtain ⟨left, right, ⟨⟩⟩ := values
    obtain ⟨(hleft : left.Steady), (hright : right.Steady), -⟩ := h
    simp [layout, expression, betweenPieces, hleft.written_operand, hright.written_operand]
  | assignmentExpression _ =>
    obtain ⟨left, right, ⟨⟩⟩ := values
    obtain ⟨(hleft : left.Steady), (hright : right.Steady), -⟩ := h
    simp [layout, expression, betweenPieces, hleft.written_operand, hright.written_operand]
  | conditionalExpression =>
    obtain ⟨test, consequent, alternate, ⟨⟩⟩ := values
    obtain ⟨(htest : test.Steady), (hconsequent : consequent.Steady),
      (halternate : alternate.Steady), -⟩ := h
    simp [layout, expression, htest.written_operand, hconsequent.written_operand,
      halternate.written_operand]
  | callExpression =>
    obtain ⟨callee, arguments, ⟨⟩⟩ := values
    obtain ⟨(hcallee : callee.Steady), harguments, -⟩ := h
    simp [layout, expression, hcallee.written_operand, written_arguments harguments]
  | newExpression =>
    obtain ⟨callee, arguments, ⟨⟩⟩ := values
    obtain ⟨(hcallee : callee.Steady), harguments, -⟩ := h
    have hpieces : written (if callee.containsCall then parenthesized (callee.pieces level)
        else callee.operand .callMember level) = callee.inner := by
      split
      · rw [written_parenthesized, hcallee.pieces]
      · exact hcallee.written_operand _ level
    simp [layout, expression, hpieces, written_arguments harguments]
  | memberExpression _ =>
    obtain ⟨object, property, ⟨⟩⟩ := values
    obtain ⟨(hobject : object.Steady), (hproperty : property.Steady), -⟩ := h
    simp [layout, expression, written_memberPieces _ hobject hproperty]
  | sequenceExpression =>
    obtain ⟨expressions, ⟨⟩⟩ := values
    simp [layout, expression, List.flatMap_map,
      List.flatMap_congr fun p hp => (h.1 p hp).written_operand .assignment level]
  | _ => rfl

/-- What holds of a printed form holds in every place. -/
theorem steady_layout (comments : List Comment) (form : Form kind slots)
    (values : Values Printed slots) (h : Values.All Slot.Expects slots values) :
    (layout comments form values).Steady := by
  have hsteady : Values.All (fun _ => Printed.Steady) slots values := h.imp fun _ _ hp => hp.1
  have hinner : (layout comments form values).inner
      = Values.collect (fun slot => (slot.standing .part (form.standsForKey values)).shows)
          slots values :=
    written_layout comments form values hsteady 0
  constructor
  · intro level
    rw [written_layout comments form values hsteady level, hinner]
  · intro head hhead level
    rw [hinner]
    cases form with
    | variableDeclaration _ =>
      obtain ⟨declarators, ⟨⟩⟩ := values
      cases hhead
      simp [declarationPieces, List.flatMap_map,
        List.flatMap_congr fun p hp => (hsteady.1 p hp).written_inHead level]
    | variableDeclarator _ =>
      obtain ⟨id, init, ⟨⟩⟩ := values
      obtain ⟨(hid : id.Steady), hinit, -⟩ := hsteady
      cases hhead
      simp [written_declaratorPieces hid fun p hp => (hinit p hp).written_withoutIn]
    | _ => cases hhead
  · intro tail htail level
    rw [hinner]
    cases form with
    | functionExpression generator =>
      obtain ⟨id, params, body, ⟨⟩⟩ := values
      obtain ⟨-, hparams, (hbody : body.Steady), -⟩ := hsteady
      cases htail
      -- the name of a function is a mere name
      have hname : (Option.toList id).flatMap Printed.inner = [] := by
        rw [List.flatMap_eq_nil_iff]
        intro p hp
        obtain ⟨hsteady, hidentifier⟩ := h.1 p (Option.mem_toList.mp hp)
        exact (hsteady.identifier (hidentifier rfl)).1
      simp [written_functionTail hparams hbody, hname]
    | _ => cases htail
  · intro hidentifier
    rw [hinner]
    cases form with
    | identifier _ _ _ => exact ⟨rfl, rfl⟩
    | _ => cases hidentifier

theorem isIdentifier_layout (comments : List Comment) (form : Form kind slots)
    (values : Values Printed slots) :
    (layout comments form values).isIdentifier = decide (kind = .identifier) := by
  cases form <;> rfl

theorem comments_layout (comments : List Comment) (form : Form kind slots)
    (values : Values Printed slots) : (layout comments form values).comments = comments := by
  cases form <;> rfl

end layout

end EsFront
