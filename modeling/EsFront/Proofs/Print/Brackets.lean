/-
Brackets in printed text, and the operator `in` between them.

A loop is told from one over properties by the operator `in` in its head, so there
this operator must stand in brackets.

* `Matched` — pieces in which every bracket has its partner; the operator `in`
  stands in brackets, unless it may stand outside them too;
* `Capability.Promises` — what is known of a printed node by the place it can stand
  in: an expression has an `in` outside all brackets only if it says so
  (`Printed.TellsIn`), and in the head of a loop there is none (`Printed.FitsHead`);
* `keeps_layout` — every form keeps these promises if its children do.

Main statement: `inHead_encloses_isIn` — in the head of a loop every operator `in`
stands between a bracket and its partner.
-/
import EsFront.Proofs.Print.Expression
import EsFront.Proofs.Print.Fold

namespace EsFront

/-! ### Matching brackets -/

def Piece.isBracket : Piece → Bool
  | opening _ | closing _ => true
  | text _ | operator _ | comment _ | line _ => false

/-- Every bracket has its partner. The operator `in` stands only in brackets, or
also outside them if `bare` is true. -/
inductive Matched : Bool → List Piece → Prop where
  | nil {bare : Bool} : Matched bare []
  | piece {bare : Bool} {p : Piece} {rest : List Piece} (hbracket : p.isBracket = false)
      (hin : p = .operator .isIn → bare = true) (hrest : Matched bare rest) :
      Matched bare (p :: rest)
  | enclosed {bare : Bool} {inside rest : List Piece} (bracket : Bracket)
      (hinside : Matched true inside) (hrest : Matched bare rest) :
      Matched bare (enclosed bracket inside ++ rest)

/-- Every bracket has its partner. -/
abbrev Balanced (pieces : List Piece) : Prop := Matched true pieces

namespace Matched

variable {bare bare' : Bool} {pieces more : List Piece}

theorem append (h : Matched bare pieces) (hmore : Matched bare more) :
    Matched bare (pieces ++ more) := by
  induction h with
  | nil => exact hmore
  | piece hbracket hin _ ih => exact piece hbracket hin (ih hmore)
  | enclosed bracket hinside _ _ ih =>
    rw [List.append_assoc]
    exact enclosed bracket hinside (ih hmore)

theorem mono (h : Matched bare pieces) (hbare : bare = true → bare' = true) :
    Matched bare' pieces := by
  induction h with
  | nil => exact nil
  | piece hbracket hin _ ih => exact piece hbracket (fun heq => hbare (hin heq)) (ih hbare)
  | enclosed bracket hinside _ _ ih => exact enclosed bracket hinside (ih hbare)

theorem balanced (h : Matched bare pieces) : Balanced pieces := h.mono fun _ => rfl

theorem text {s : String} (h : Matched bare pieces) : Matched bare (.text s :: pieces) :=
  piece rfl (fun heq => by cases heq) h

theorem line {level : Nat} (h : Matched bare pieces) : Matched bare (.line level :: pieces) :=
  piece rfl (fun heq => by cases heq) h

theorem comment {c : Comment} (h : Matched bare pieces) : Matched bare (.comment c :: pieces) :=
  piece rfl (fun heq => by cases heq) h

theorem inBrackets (bracket : Bracket) (h : Balanced pieces) :
    Matched bare (EsFront.enclosed bracket pieces) := by
  rw [← List.append_nil (EsFront.enclosed bracket pieces)]
  exact enclosed bracket h nil

theorem parenthesized (h : Balanced pieces) : Matched bare (EsFront.parenthesized pieces) :=
  inBrackets .round h

theorem flatMap {α : Type} {as : List α} {f : α → List Piece} (h : ∀ a ∈ as, Matched bare (f a)) :
    Matched bare (as.flatMap f) := by
  induction as with
  | nil => exact nil
  | cons a as ih =>
    rw [List.flatMap_cons]
    exact (h a List.mem_cons_self).append (ih fun b hb => h b (List.mem_cons_of_mem _ hb))

theorem intercalate {separator : List Piece} {parts : List (List Piece)}
    (hseparator : Matched bare separator) (h : ∀ part ∈ parts, Matched bare part) :
    Matched bare (separator.intercalate parts) := by
  induction parts with
  | nil => exact nil
  | cons part parts ih =>
    have hpart := h part List.mem_cons_self
    cases parts with
    | nil => simpa using hpart
    | cons next parts =>
      rw [List.intercalate_cons_cons]
      exact (hpart.append hseparator).append (ih fun b hb => h b (List.mem_cons_of_mem _ hb))

theorem commaSeparated {α : Type} {as : List α} {f : α → List Piece}
    (h : ∀ a ∈ as, Matched bare (f a)) : Matched bare (EsFront.commaSeparated (as.map f)) := by
  refine intercalate (text nil) fun part hpart => ?_
  obtain ⟨a, ha, rfl⟩ := List.mem_map.mp hpart
  exact h a ha

/-- Where it may not stand outside brackets, the operator `in` stands between a
bracket and its partner. -/
theorem encloses_isIn (h : Matched false pieces) {before after : List Piece}
    (hpieces : pieces = before ++ .operator .isIn :: after) :
    ∃ (bracket : Bracket) (outer inner inner' outer' : List Piece),
      before = outer ++ .opening bracket :: inner ∧
      after = inner' ++ .closing bracket :: outer' ∧
      Balanced (inner ++ .operator .isIn :: inner') := by
  generalize hbare : false = bare at h
  induction h generalizing before with
  | nil => simp at hpieces
  | @piece bare p rest _ hin _ ih =>
    cases before with
    | nil =>
      -- the operator itself cannot stand here
      obtain ⟨rfl, -⟩ := List.cons.inj hpieces
      exact absurd (hbare.trans (hin rfl)) Bool.false_ne_true
    | cons q before =>
      obtain ⟨rfl, hrest⟩ := List.cons.inj hpieces
      obtain ⟨bracket, outer, inner, inner', outer', rfl, hafter, hinside⟩ := ih hrest hbare
      exact ⟨bracket, p :: outer, inner, inner', outer', rfl, hafter, hinside⟩
  | @enclosed bare inside rest bracket hinside _ _ ih =>
    cases before with
    | nil =>
      obtain ⟨hopening, -⟩ := List.cons.inj hpieces
      cases hopening
    | cons q before =>
      rw [EsFront.enclosed, List.cons_append, List.append_assoc] at hpieces
      obtain ⟨rfl, hbehind⟩ := List.cons.inj hpieces
      rcases List.append_eq_append_iff.mp hbehind with ⟨gap, rfl, hgap⟩ | ⟨gap, rfl, hgap⟩
      · -- behind the closing bracket
        cases gap with
        | nil => cases (List.cons.inj hgap).1
        | cons q gap =>
          obtain ⟨rfl, hrest⟩ := List.cons.inj hgap
          obtain ⟨bracket', outer, inner, inner', outer', rfl, hafter, hinner⟩ := ih hrest hbare
          exact ⟨bracket', .opening bracket :: (inside ++ .closing bracket :: outer), inner, inner',
            outer', by simp, hafter, hinner⟩
      · cases gap with
        | nil => cases (List.cons.inj hgap).1
        | cons q gap =>
          -- in front of it
          obtain ⟨rfl, hafter⟩ := List.cons.inj hgap
          exact ⟨bracket, [], before, gap, rest, rfl, hafter, hinside⟩

end Matched

/-! ### Printed nodes -/

namespace Printed

/-- The brackets of a printed node match, also where it is an accessor. -/
structure Nests (p : Printed) : Prop where
  pieces : ∀ level, Balanced (p.pieces level)
  accessor : ∀ tail, p.accessor? = some tail → ∀ level, Balanced (tail level)

/-- An expression says whether it has an operator `in` outside all brackets; one
that is never put in brackets has none. -/
structure TellsIn (p : Printed) : Prop where
  pieces : ∀ level, Matched p.bareIn (p.pieces level)
  primary : .primary ≤ p.precedence → p.bareIn = false
  noHead : p.inHead? = none

/-- No operator `in` stands outside brackets. -/
def HidesIn (p : Printed) : Prop := ∀ level, Matched false (p.pieces level)

/-- No operator `in` stands outside brackets in the head of a loop. -/
def FitsHead (p : Printed) : Prop := ∀ level, Matched false (p.inHead level)

variable {p : Printed}

namespace TellsIn

theorem operand (h : p.TellsIn) (least : Precedence) (level : Nat) :
    Matched p.bareIn (p.operand least level) := by
  unfold Printed.operand
  split
  · exact .parenthesized (h.pieces level).balanced
  · exact h.pieces level

/-- The strictest place of all puts every `in` in brackets. -/
theorem operand_primary (h : p.TellsIn) (level : Nat) :
    Matched false (p.operand .primary level) := by
  unfold Printed.operand
  split
  · exact .parenthesized (h.pieces level).balanced
  · rename_i hprec
    have hbare : p.bareIn = false := h.primary (Nat.not_lt.mp hprec)
    exact hbare ▸ h.pieces level

theorem withoutIn (h : p.TellsIn) (least : Precedence) (level : Nat) :
    Matched false (p.withoutIn least level) := by
  unfold Printed.withoutIn
  split
  · exact .parenthesized (h.pieces level).balanced
  · rename_i hbare
    exact Bool.eq_false_iff.mpr hbare ▸ h.operand least level

theorem fitsHead (h : p.TellsIn) : p.FitsHead := by
  intro level
  rw [Printed.inHead, h.noHead]
  exact h.withoutIn .lowest level

end TellsIn

theorem Nests.statement (h : p.Nests) (level : Nat) : Balanced (p.statement level) := by
  refine Matched.append (.flatMap fun c _ => ?_) (h.pieces level)
  exact .comment (.line .nil)

variable {ps : List Printed}

theorem balanced_lines (h : ∀ p ∈ ps, p.Nests) (level : Nat) : Balanced (lines ps level) :=
  .flatMap fun p hp => .line ((h p hp).statement level)

theorem matched_arguments {bare : Bool} (h : ∀ p ∈ ps, p.TellsIn) (level : Nat) :
    Matched bare (arguments ps level) :=
  .parenthesized (.commaSeparated fun p hp => ((h p hp).operand .assignment level).balanced)

end Printed

/-- What is known of a printed node that can stand in the given place. -/
def Capability.Promises (holds : Capability) (p : Printed) : Prop :=
  p.Nests ∧ match holds with
    | .expression => p.TellsIn
    | .identifier | .block => p.HidesIn
    | .loopHead | .variableDeclaration | .variableDeclarator => p.FitsHead
    | .statement | .property | .switchCase | .catchClause | .program => True

/-! ### Forms -/

section parts

open Printed

variable {bare : Bool}

theorem matched_afterBlank {o : Option Printed}
    (h : ∀ p ∈ o, ∀ level, Matched bare (p.pieces level))
    (level : Nat) : Matched bare (afterBlank o level) := by
  cases o with
  | none => exact .nil
  | some p => exact .text (h p rfl level)

theorem matched_blockPieces {body : List Printed} (h : ∀ p ∈ body, p.Nests) (level : Nat) :
    Matched bare (blockPieces body level) := by
  unfold blockPieces
  split
  · exact .inBrackets _ .nil
  · exact .inBrackets _ ((balanced_lines h _).append (.line .nil))

theorem matched_functionTail {params : List Printed} {body : Printed}
    (hparams : ∀ p ∈ params, p.HidesIn) (hbody : body.HidesIn) (level : Nat) :
    Matched false (functionTail params body level) :=
  (Matched.parenthesized (.commaSeparated fun p hp => (hparams p hp level).balanced)).append
    (.text (hbody level))

theorem matched_functionPieces {name : Option Printed} {params : List Printed} {body : Printed}
    (generator : Bool) (hname : ∀ p ∈ name, p.HidesIn) (hparams : ∀ p ∈ params, p.HidesIn)
    (hbody : body.HidesIn) (level : Nat) :
    Matched false (functionPieces generator name params body level) :=
  .text ((matched_afterBlank hname level).append (matched_functionTail hparams hbody level))

theorem balanced_ifPieces {test consequent : Printed} {alternate : Option Printed}
    (htest : test.TellsIn) (hconsequent : consequent.Nests) (halternate : ∀ p ∈ alternate, p.Nests)
    (level : Nat) : Balanced (ifPieces test consequent alternate level) := by
  have hhead : Balanced (.text "if " :: (parenthesized (test.pieces level) ++ [.text " "])) :=
    .text ((Matched.parenthesized (htest.pieces level).balanced).append (.text .nil))
  cases alternate with
  | none => exact hhead.append (hconsequent.statement level)
  | some alternate =>
    refine (hhead.append ?_).append (.text ((halternate alternate rfl).statement level))
    split
    · exact .inBrackets _ (.line ((hconsequent.statement _).append (.line .nil)))
    · exact hconsequent.statement level

theorem matched_betweenPieces {left right : List Piece} {operator : Piece}
    (hleft : Matched bare left) (hright : Matched bare right)
    (hoperator : Matched bare [operator]) : Matched bare (betweenPieces left operator right) :=
  hleft.append (.text (hoperator.append (.text hright)))

theorem matched_arrayPieces {elements : List (Option Printed)}
    (h : ∀ p, some p ∈ elements → p.TellsIn) (level : Nat) :
    Matched bare (arrayPieces elements level) := by
  refine .inBrackets _ (Matched.append (.commaSeparated fun e he => ?_) ?_)
  · cases e with
    | none => exact .nil
    | some p => exact ((h p he).operand .assignment level).balanced
  · split
    · exact .text .nil
    · exact .nil

theorem matched_objectPieces {properties : List Printed} (h : ∀ p ∈ properties, p.Nests)
    (level : Nat) : Matched bare (objectPieces properties level) := by
  unfold objectPieces
  split
  · exact .inBrackets _ .nil
  · refine .inBrackets _ (.text (Matched.append (.commaSeparated fun p hp => ?_) (.text .nil)))
    exact (h p hp).pieces level

theorem balanced_propertyPieces {key value : Printed} (kind : PropertyKind)
    (computed shorthand : Bool) (hkey : key.TellsIn) (hvalue : value.TellsIn)
    (haccessor : ∀ tail, value.accessor? = some tail → ∀ level, Balanced (tail level))
    (level : Nat) : Balanced (propertyPieces kind computed shorthand key value level) := by
  have hkeyPieces : Balanced (if computed then enclosed .square (key.operand .assignment level)
      else key.operand .primary level) := by
    split
    · exact .inBrackets _ (hkey.operand _ level).balanced
    · exact (hkey.operand _ level).balanced
  unfold propertyPieces
  dsimp only
  split
  · rename_i tail htail
    refine .text (hkeyPieces.append (haccessor tail ?_ level))
    split at htail
    · cases htail
    · exact htail
  · split
    · exact (hvalue.operand _ level).balanced
    · exact hkeyPieces.append (.text (hvalue.operand _ level).balanced)

/-- Only the object of a member access stands outside brackets. -/
theorem matched_memberPieces {object property : Printed} (computed : Bool)
    (hobject : object.TellsIn) (hproperty : property.TellsIn) (level : Nat) :
    Matched object.bareIn (memberPieces computed object property level) := by
  have hobjectPieces : Matched object.bareIn (if object.isNumber && !computed then
      parenthesized (object.pieces level) else object.operand .callMember level) := by
    split
    · exact .parenthesized (hobject.pieces level).balanced
    · exact hobject.operand _ level
  unfold memberPieces
  dsimp only
  split
  · exact hobjectPieces.append (.inBrackets _ (hproperty.pieces level).balanced)
  · refine hobjectPieces.append (.text ((hproperty.operand_primary level).mono ?_))
    intro h
    cases h

theorem matched_declaratorPieces {id : Printed} {init : Option Printed}
    {write : Printed → Precedence → Leveled} (hid : id.HidesIn)
    (hwrite : ∀ p ∈ init, ∀ least level, Matched bare (write p least level)) (level : Nat) :
    Matched bare (declaratorPieces id init write level) := by
  have hname : Matched bare (id.pieces level) := (hid level).mono fun h => by cases h
  cases init with
  | none => exact hname
  | some init => exact hname.append (.text (hwrite init rfl _ level))

theorem balanced_tryPart {part : Option Printed} (word : String) (h : ∀ p ∈ part, p.Nests)
    (level : Nat) : Balanced (tryPart word part level) := by
  cases part with
  | none => exact .nil
  | some part => exact .text ((h part rfl).pieces level)

end parts

section layout

open Printed

variable {kind : NodeKind} {slots : List Slot}

/-- An expression has an operator `in` outside all brackets only if it says so. -/
theorem matched_layout (comments : List Comment) (form : Form kind slots)
    (hkind : kind.isExpression = true) (values : Values Printed slots)
    (h : Values.All (fun slot => slot.holds.Promises) slots values) (level : Nat) :
    Matched (layout comments form values).bareIn ((layout comments form values).pieces level) := by
  -- each part says so for itself, and the form says it for any of them
  cases form with
  | identifier name _ _ => exact .text .nil
  | literal value raw => exact .text .nil
  | thisExpression => exact .text .nil
  | arrayExpression =>
    obtain ⟨elements, ⟨⟩⟩ := values
    exact matched_arrayPieces (fun p hp => (h.1 p hp).2) level
  | objectExpression =>
    obtain ⟨properties, ⟨⟩⟩ := values
    exact matched_objectPieces (fun p hp => (h.1 p hp).1) level
  | functionExpression generator =>
    obtain ⟨id, params, body, ⟨⟩⟩ := values
    obtain ⟨hid, hparams, hbody, -⟩ := h
    exact matched_functionPieces generator (fun p hp => (hid p hp).2)
      (fun p hp => (hparams p hp).2) hbody.2 level
  | unaryExpression op =>
    obtain ⟨argument, ⟨⟩⟩ := values
    exact .text (h.1.2.operand _ level)
  | updateExpression op before =>
    obtain ⟨argument, ⟨⟩⟩ := values
    have hargument := h.1.2.operand .callMember level
    cases before with
    | true => exact .text hargument
    | false => exact hargument.append (.text .nil)
  | binaryExpression op =>
    obtain ⟨left, right, ⟨⟩⟩ := values
    refine matched_betweenPieces ((h.1.2.operand _ level).mono fun hbare => ?_)
      ((h.2.1.2.operand _ level).mono fun hbare => ?_) (.piece rfl (fun hop => ?_) .nil)
    · simp [layout, hbare]
    · simp [layout, hbare]
    · cases hop
      simp [layout]
  | logicalExpression op =>
    obtain ⟨left, right, ⟨⟩⟩ := values
    refine matched_betweenPieces ((h.1.2.operand _ level).mono fun hbare => ?_)
      ((h.2.1.2.operand _ level).mono fun hbare => ?_) (.text .nil)
    · simp [layout, hbare]
    · simp [layout, hbare]
  | assignmentExpression op =>
    obtain ⟨left, right, ⟨⟩⟩ := values
    refine matched_betweenPieces ((h.1.2.operand _ level).mono fun hbare => ?_)
      ((h.2.1.2.operand _ level).mono fun hbare => ?_) (.text .nil)
    · simp [layout, hbare]
    · simp [layout, hbare]
  | conditionalExpression =>
    obtain ⟨test, consequent, alternate, ⟨⟩⟩ := values
    refine ((h.1.2.operand _ level).mono fun hbare => ?_).append (.text
      (((h.2.1.2.operand _ level).mono fun hbare => ?_).append
        (.text ((h.2.2.1.2.operand _ level).mono fun hbare => ?_))))
    · simp [layout, hbare]
    · simp [layout, hbare]
    · simp [layout, hbare]
  | callExpression =>
    obtain ⟨callee, arguments, ⟨⟩⟩ := values
    exact (h.1.2.operand _ level).append (matched_arguments (fun p hp => (h.2.1 p hp).2) level)
  | newExpression =>
    obtain ⟨callee, arguments, ⟨⟩⟩ := values
    refine .text (Matched.append ?_ (matched_arguments (fun p hp => (h.2.1 p hp).2) level))
    split
    · exact .parenthesized (h.1.2.pieces level).balanced
    · exact h.1.2.operand _ level
  | memberExpression computed =>
    obtain ⟨object, property, ⟨⟩⟩ := values
    exact matched_memberPieces computed h.1.2 h.2.1.2 level
  | sequenceExpression =>
    obtain ⟨expressions, ⟨⟩⟩ := values
    refine .commaSeparated fun p hp => ((h.1 p hp).2.operand _ level).mono fun hbare => ?_
    exact List.any_eq_true.mpr ⟨p, hp, hbare⟩
  | _ => cases hkind

/-- The brackets of a printed form that is no expression match. -/
theorem balanced_layout (comments : List Comment) (form : Form kind slots)
    (hkind : kind.isExpression = false) (values : Values Printed slots)
    (h : Values.All (fun slot => slot.holds.Promises) slots values) (level : Nat) :
    Balanced ((layout comments form values).pieces level) := by
  -- brackets are written in pairs, around parts or around nothing
  cases form with
  | program _ _ =>
    obtain ⟨body, ⟨⟩⟩ := values
    refine .intercalate (.line .nil) fun part hpart => ?_
    obtain ⟨p, hp, rfl⟩ := List.mem_map.mp hpart
    exact (h.1 p hp).1.statement level
  | blockStatement =>
    obtain ⟨body, ⟨⟩⟩ := values
    exact matched_blockPieces (fun p hp => (h.1 p hp).1) level
  | emptyStatement => exact .text .nil
  | expressionStatement =>
    obtain ⟨e, ⟨⟩⟩ := values
    have he : Balanced (e.pieces level) := h.1.1.pieces level
    refine Matched.append ?_ (.text .nil)
    split
    · exact .parenthesized he
    · exact he
  | ifStatement =>
    obtain ⟨test, consequent, alternate, ⟨⟩⟩ := values
    exact balanced_ifPieces h.1.2 h.2.1.1 (fun p hp => (h.2.2.1 p hp).1) level
  | labeledStatement =>
    obtain ⟨label, body, ⟨⟩⟩ := values
    exact (h.1.1.pieces level).append (.text (h.2.1.1.statement level))
  | breakStatement =>
    obtain ⟨label, ⟨⟩⟩ := values
    exact .text ((matched_afterBlank (fun p hp => (h.1 p hp).1.pieces) level).append (.text .nil))
  | continueStatement =>
    obtain ⟨label, ⟨⟩⟩ := values
    exact .text ((matched_afterBlank (fun p hp => (h.1 p hp).1.pieces) level).append (.text .nil))
  | switchStatement =>
    obtain ⟨discriminant, cases, ⟨⟩⟩ := values
    refine .text ((Matched.parenthesized (h.1.1.pieces level)).append (.text (.inBrackets _ ?_)))
    exact Matched.append (.flatMap fun p hp => .line ((h.2.1 p hp).1.pieces _)) (.line .nil)
  | returnStatement =>
    obtain ⟨argument, ⟨⟩⟩ := values
    exact .text ((matched_afterBlank (fun p hp => (h.1 p hp).1.pieces) level).append (.text .nil))
  | throwStatement =>
    obtain ⟨argument, ⟨⟩⟩ := values
    exact .text ((h.1.1.pieces level).append (.text .nil))
  | tryStatement =>
    obtain ⟨block, handler, finalizer, ⟨⟩⟩ := values
    exact .text (((h.1.1.pieces level).append
      (balanced_tryPart _ (fun p hp => (h.2.1 p hp).1) level)).append
        (balanced_tryPart _ (fun p hp => (h.2.2.1 p hp).1) level))
  | whileStatement =>
    obtain ⟨test, body, ⟨⟩⟩ := values
    exact .text ((Matched.parenthesized (h.1.1.pieces level)).append
      (.text (h.2.1.1.statement level)))
  | doWhileStatement =>
    obtain ⟨body, test, ⟨⟩⟩ := values
    exact .text ((h.1.1.statement level).append
      (.text ((Matched.parenthesized (h.2.1.1.pieces level)).append (.text .nil))))
  | forStatement =>
    obtain ⟨init, test, update, body, ⟨⟩⟩ := values
    obtain ⟨hinit, htest, hupdate, hbody, -⟩ := h
    refine .text ((Matched.parenthesized (Matched.append ?_ (.text ((matched_afterBlank
      (fun p hp => (htest p hp).1.pieces) level).append (.text (matched_afterBlank
        (fun p hp => (hupdate p hp).1.pieces) level)))))).append (.text (hbody.1.statement level)))
    cases init with
    | none => exact .nil
    | some init => exact ((hinit init rfl).2 level).balanced
  | forInStatement =>
    obtain ⟨left, right, body, ⟨⟩⟩ := values
    obtain ⟨hleft, hright, hbody, -⟩ := h
    exact .text ((Matched.parenthesized ((hleft.2 level).balanced.append
      (.text (hright.1.pieces level)))).append (.text (hbody.1.statement level)))
  | debuggerStatement => exact .text .nil
  | variableDeclaration declKind =>
    obtain ⟨declarators, ⟨⟩⟩ := values
    exact .text (Matched.append (.commaSeparated fun p hp => (h.1 p hp).1.pieces level)
      (.text .nil))
  | variableDeclarator declKind =>
    obtain ⟨id, init, ⟨⟩⟩ := values
    exact matched_declaratorPieces h.1.2
      (fun p hp least level => ((h.2.1 p hp).2.operand least level).balanced) level
  | functionDeclaration generator =>
    obtain ⟨id, params, body, ⟨⟩⟩ := values
    obtain ⟨hid, hparams, hbody, -⟩ := h
    have hname : ∀ p ∈ some id, p.HidesIn := fun p hp => Option.mem_some_iff.mp hp ▸ hid.2
    exact (matched_functionPieces generator hname (fun p hp => (hparams p hp).2) hbody.2
      level).balanced
  | switchCase =>
    obtain ⟨test, consequent, ⟨⟩⟩ := values
    refine Matched.append ?_ (balanced_lines (fun p hp => (h.2.1 p hp).1) _)
    cases test with
    | none => exact .text .nil
    | some test => exact .text (((h.1 test rfl).1.pieces level).append (.text .nil))
  | catchClause =>
    obtain ⟨param, body, ⟨⟩⟩ := values
    exact (Matched.parenthesized (h.1.1.pieces level)).append (.text (h.2.1.1.pieces level))
  | property kind computed shorthand =>
    obtain ⟨key, value, ⟨⟩⟩ := values
    exact balanced_propertyPieces kind computed shorthand h.1.2 h.2.1.2 h.2.1.1.accessor level
  | _ => cases hkind

theorem tellsIn_layout (comments : List Comment) (form : Form kind slots)
    (hkind : kind.isExpression = true) (values : Values Printed slots)
    (h : Values.All (fun slot => slot.holds.Promises) slots values) :
    (layout comments form values).TellsIn := by
  refine ⟨matched_layout comments form hkind values h, fun hprimary => ?_, ?_⟩
  · -- the forms that are never put in brackets say that they have none
    cases form with
    | identifier | literal | thisExpression | arrayExpression | objectExpression
    | functionExpression => rfl
    | unaryExpression => exact absurd hprimary (by decide : ¬ Precedence.primary ≤ .unary)
    | updateExpression op before =>
      cases before with
      | true => exact absurd hprimary (by decide : ¬ Precedence.primary ≤ .unary)
      | false => exact absurd hprimary (by decide : ¬ Precedence.primary ≤ .afterOperand)
    | binaryExpression op =>
      exact absurd hprimary (by cases op <;> decide : ¬ Precedence.primary ≤ op.precedence)
    | logicalExpression op =>
      exact absurd hprimary (by cases op <;> decide : ¬ Precedence.primary ≤ op.precedence)
    | assignmentExpression =>
      exact absurd hprimary (by decide : ¬ Precedence.primary ≤ .assignment)
    | conditionalExpression =>
      exact absurd hprimary (by decide : ¬ Precedence.primary ≤ .conditional)
    | callExpression | newExpression | memberExpression =>
      exact absurd hprimary (by decide : ¬ Precedence.primary ≤ .callMember)
    | sequenceExpression => exact absurd hprimary (by decide : ¬ Precedence.primary ≤ .sequence)
    | _ => cases hkind
  · cases form with
    | variableDeclaration | variableDeclarator => cases hkind
    | _ => rfl

theorem nests_layout (comments : List Comment) (form : Form kind slots)
    (values : Values Printed slots)
    (h : Values.All (fun slot => slot.holds.Promises) slots values) :
    (layout comments form values).Nests := by
  constructor
  · intro level
    cases hkind : kind.isExpression with
    | true => exact (matched_layout comments form hkind values h level).balanced
    | false => exact balanced_layout comments form hkind values h level
  · intro tail htail level
    cases form with
    | functionExpression generator =>
      obtain ⟨id, params, body, ⟨⟩⟩ := values
      obtain ⟨-, hparams, hbody, -⟩ := h
      cases htail
      exact (matched_functionTail (fun p hp => (hparams p hp).2) hbody.2 level).balanced
    | _ => cases htail

/-- In the head of a loop, a declaration writes its initial values without a bare
`in`. -/
theorem fitsHead_layout (comments : List Comment) (form : Form kind slots)
    (hkind : kind = .variableDeclaration ∨ kind = .variableDeclarator)
    (values : Values Printed slots)
    (h : Values.All (fun slot => slot.holds.Promises) slots values) :
    (layout comments form values).FitsHead := by
  intro level
  cases form with
  | variableDeclaration declKind =>
    obtain ⟨declarators, ⟨⟩⟩ := values
    exact .text (.commaSeparated fun p hp => (h.1 p hp).2 level)
  | variableDeclarator declKind =>
    obtain ⟨id, init, ⟨⟩⟩ := values
    exact matched_declaratorPieces h.1.2 (fun p hp => (h.2.1 p hp).2.withoutIn) level
  | _ => rcases hkind with hkind | hkind <;> cases hkind

/-- A printed form keeps every promise that its place asks for, if its children do. -/
theorem keeps_layout (comments : List Comment) (form : Form kind slots)
    (values : Values Printed slots)
    (h : Values.All (fun slot => slot.holds.Promises) slots values) {holds : Capability}
    (haccepts : holds.accepts kind = true) : holds.Promises (layout comments form values) := by
  refine ⟨nests_layout comments form values h, ?_⟩
  cases holds with
  | expression => exact tellsIn_layout comments form haccepts values h
  | identifier =>
    cases of_decide_eq_true haccepts
    intro level
    cases form
    exact .text .nil
  | block =>
    cases of_decide_eq_true haccepts
    intro level
    cases form
    obtain ⟨body, ⟨⟩⟩ := values
    exact matched_blockPieces (fun p hp => (h.1 p hp).1) level
  | loopHead =>
    rcases (Bool.or_eq_true _ _).mp haccepts with hexpression | hdeclaration
    · exact (tellsIn_layout comments form hexpression values h).fitsHead
    · exact fitsHead_layout comments form (.inl (of_decide_eq_true hdeclaration)) values h
  | variableDeclaration =>
    exact fitsHead_layout comments form (.inl (of_decide_eq_true haccepts)) values h
  | variableDeclarator =>
    exact fitsHead_layout comments form (.inr (of_decide_eq_true haccepts)) values h
  | _ => trivial

end layout

/-! ### The heads of loops -/

/-- Every printed node keeps the promises of the places it can stand in. -/
theorem Child.keeps {holds : Capability} (child : Child holds) (withComments : Bool) :
    holds.Promises (child.node.printed withComments) := by
  refine Node.fold_induction (P := fun any p => ∀ holds : Capability,
    holds.accepts any.kind = true → holds.Promises p) ?_ child.node holds child.accepted
  intro kind slots data form fields h holds haccepts
  refine keeps_layout _ form _ (h.imp fun slot p hp => ?_) haccepts
  obtain ⟨any, -, hslot, hpromises⟩ := hp
  exact hpromises slot.holds hslot

/-- **No bare `in` in the head of a loop.** Whatever declaration or expression is
written there, every operator `in` stands between a bracket and its partner. -/
theorem inHead_encloses_isIn (head : Child .loopHead) (withComments : Bool) (level : Nat)
    {before after : List Piece}
    (h : (head.node.printed withComments).inHead level = before ++ .operator .isIn :: after) :
    ∃ (bracket : Bracket) (outer inner inner' outer' : List Piece),
      before = outer ++ .opening bracket :: inner ∧
      after = inner' ++ .closing bracket :: outer' ∧
      Balanced (inner ++ .operator .isIn :: inner') :=
  ((head.keeps withComments).2 level).encloses_isIn h

/-- `var x = a in b, y = [c in d]` at the start of a loop. -/
def membershipTests : Child .loopHead :=
  let name (text : String) : Expr := .identifier .blank text false .unresolved
  let test (member object : String) : Expr :=
    (Joint.binary .isIn).join .blank (name member) (name object)
  let declarator (text : String) (init : Expr) : Child .variableDeclarator :=
    ⟨_, .mk .blank (.variableDeclarator .var) (.cons (.one (name text).node rfl)
      (.cons (.present init.node init.accepted) .nil)), rfl⟩
  ⟨_, .mk .blank (.variableDeclaration .var) (.cons (.ofList [declarator "x" (test "a" "b"),
    declarator "y" (.array .blank [some (test "c" "d")])]) .nil), rfl⟩

theorem membershipTests_enclosed :
    render {} ((membershipTests.node.printed true).inHead 0) = "var x = (a in b), y = [c in d]" ∧
    ∃ before after, (membershipTests.node.printed true).inHead 0
        = before ++ .operator .isIn :: after ∧
      ∃ (bracket : Bracket) (outer inner inner' outer' : List Piece),
        before = outer ++ .opening bracket :: inner ∧
        after = inner' ++ .closing bracket :: outer' ∧
        Balanced (inner ++ .operator .isIn :: inner') := by
  have hpieces : (membershipTests.node.printed true).inHead 0
      = ([.text "var ", .text "x", .text " = ", .opening .round, .text "a",
          .text " "] : List Piece) ++
        Piece.operator .isIn :: [.text " ", .text "b", .closing .round, .text ", ", .text "y",
          .text " = ", .opening .square, .text "c", .text " ", .operator .isIn, .text " ",
          .text "d", .closing .square] := by
    decide +kernel
  exact ⟨by decide +kernel, _, _, hpieces, inHead_encloses_isIn membershipTests true 0 hpieces⟩

end EsFront
