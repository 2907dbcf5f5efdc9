/-
The characters of printed expressions.

Each equation gives the text of a form by the texts of its parts. An operand is
written as it is or in round brackets (`bracketed`), and which of the two is
all that the parts and their places decide together.
-/
import EsFront.Print.Program
import EsFront.Proofs.Print.Expression

namespace EsFront

/-- A text, in round brackets if they are needed. -/
def bracketed (needed : Bool) (text : List Char) : List Char :=
  if needed then '(' :: (text ++ [')']) else text

/-- Texts with a comma and a blank between any two. -/
def commaText : List (List Char) → List Char
  | [] => []
  | [text] => text
  | text :: next :: rest => text ++ ',' :: ' ' :: commaText (next :: rest)

/-- The text of an array after its opening bracket. A hole at the end has a
comma of its own. -/
def elementsText : List (Option (List Char)) → List Char
  | [] => [']']
  | [none] => [',', ']']
  | [some text] => text ++ [']']
  | none :: next :: rest => ',' :: ' ' :: elementsText (next :: rest)
  | some text :: next :: rest => text ++ ',' :: ' ' :: elementsText (next :: rest)

section pieces

variable (options : PrintOptions)

/-- The characters of pieces. -/
def chars (pieces : List Piece) : List Char := (render options pieces).toList

@[simp] theorem chars_nil : chars options [] = [] := by
  simp [chars, render]

@[simp] theorem chars_cons (piece : Piece) (pieces : List Piece) :
    chars options (piece :: pieces) = (piece.render options).toList ++ chars options pieces := by
  simp [chars, render]

@[simp] theorem chars_append (pieces more : List Piece) :
    chars options (pieces ++ more) = chars options pieces ++ chars options more := by
  simp [chars, render]

@[simp] theorem chars_enclosed (bracket : Bracket) (pieces : List Piece) :
    chars options (enclosed bracket pieces) =
      bracket.openingText.toList ++ chars options pieces ++ bracket.closingText.toList := by
  simp [enclosed, Piece.render]

theorem chars_parenthesized (pieces : List Piece) :
    chars options (parenthesized pieces) = '(' :: (chars options pieces ++ [')']) := by
  simp [parenthesized, Bracket.openingText, Bracket.closingText]

theorem chars_commaSeparated (parts : List (List Piece)) :
    chars options (commaSeparated parts) = commaText (parts.map (chars options)) := by
  match parts with
  | [] => simp [commaSeparated, commaText]
  | [part] => simp [commaSeparated, commaText]
  | part :: next :: rest =>
    have ih := chars_commaSeparated (next :: rest)
    rw [commaSeparated] at ih ⊢
    rw [List.intercalate_cons_cons, chars_append, chars_append, ih]
    simp [commaText, Piece.render]

/-- The characters of a printed node. -/
def Printed.text (p : Printed) : List Char := chars options (p.pieces 0)

/-- The characters where at least the given precedence is asked for. -/
def Printed.operandText (least : Precedence) (p : Printed) : List Char :=
  bracketed (decide (p.precedence < least)) (p.text options)

/-- An operand without brackets binds as tightly as its place asks for. -/
theorem least_le {precedence least : Precedence} (h : decide (precedence < least) = false) :
    least ≤ precedence :=
  Nat.not_lt.1 (of_decide_eq_false h)

theorem chars_operand (p : Printed) (least : Precedence) :
    chars options (p.operand least 0) = p.operandText options least := by
  unfold Printed.operand Printed.operandText bracketed
  by_cases h : p.precedence < least
  · simp [h, chars_parenthesized, Printed.text]
  · simp [h, Printed.text]

theorem chars_arguments (ps : List Printed) :
    chars options (Printed.arguments ps 0)
      = '(' :: (commaText (ps.map (·.operandText options .assignment)) ++ [')']) := by
  rw [Printed.arguments, chars_parenthesized, chars_commaSeparated, List.map_map]
  simp only [Function.comp_def, chars_operand]

theorem elementsText_eq (elements : List (Option (List Char))) :
    elementsText elements = commaText (elements.map (·.getD [])) ++
      ((if elements.getLast? = some none then [','] else []) ++ [']']) := by
  match elements with
  | [] => rfl
  | [none] => rfl
  | [some text] => simp [elementsText, commaText]
  | none :: next :: rest =>
    rw [elementsText, elementsText_eq (next :: rest), List.getLast?_cons_cons]
    simp [commaText]
  | some text :: next :: rest =>
    rw [elementsText, elementsText_eq (next :: rest), List.getLast?_cons_cons]
    simp [commaText]

theorem chars_arrayPieces (elements : List (Option Printed)) :
    chars options (arrayPieces elements 0)
      = '[' :: elementsText (elements.map (·.map (·.operandText options .assignment))) := by
  rw [elementsText_eq, List.getLast?_map, List.map_map]
  unfold arrayPieces
  simp only [chars_enclosed, chars_append, chars_commaSeparated, List.map_map,
    Bracket.openingText, Bracket.closingText, List.append_assoc]
  refine congrArg ('[' :: ·) (congrArg₂ (· ++ ·) (congrArg commaText ?_) ?_)
  · refine List.map_congr_left fun element _ => ?_
    cases element with
    | none => exact chars_nil options
    | some e => exact chars_operand options e .assignment
  · rcases elements.getLast? with _ | _ | e
    · simp
    · simp [Piece.render]
    · simp

theorem chars_objectPieces (members : List Printed) :
    chars options (objectPieces members 0)
      = '\x7b' :: if members.isEmpty then ['\x7d']
          else ' ' :: (commaText (members.map (·.text options)) ++ [' ', '\x7d']) := by
  unfold objectPieces
  by_cases h : members.isEmpty = true
  · simp [h, Bracket.openingText, Bracket.closingText]
  · simp [h, Bracket.openingText, Bracket.closingText, chars_commaSeparated, Piece.render,
      Function.comp_def, Printed.text]

end pieces

/-! ### Forms of expressions -/

namespace Joint

def text : Joint → String
  | binary op => op.text
  | logical op => op.text
  | assignment op => op.text

def precedence : Joint → Precedence
  | binary op => op.precedence
  | logical op => op.precedence
  | assignment _ => .assignment

/-- The least precedence of the left operand. -/
def left : Joint → Precedence
  | binary op => op.precedence.leftOperand
  | logical op => op.precedence.leftOperand
  | assignment _ => .callMember

/-- The least precedence of the right operand. -/
def right : Joint → Precedence
  | binary op => op.precedence.rightOperand
  | logical op => op.precedence.rightOperand
  | assignment _ => .assignment

end Joint

section forms

variable (options : PrintOptions) (data : NodeData)

/-- How a node is printed. -/
def Child.shown {holds : Capability} (child : Child holds) : Printed :=
  child.node.printed options.preserveComments

/-- The text of a node. -/
def Child.text {holds : Capability} (child : Child holds) : List Char :=
  (child.shown options).text options

/-- The text of an expression where at least the given precedence is asked
for. -/
def Child.operandText {holds : Capability} (least : Precedence) (child : Child holds) :
    List Char :=
  (child.shown options).operandText options least

theorem Child.operandText_eq {holds : Capability} (least : Precedence) (child : Child holds) :
    child.operandText options least =
      bracketed (decide ((child.shown options).precedence < least)) (child.text options) := rfl

namespace Expr

theorem text_identifier (name : String) (isBinder : Bool) (info : ResolutionInfo) :
    (identifier data name isBinder info).text options = name.toList := by
  change chars options [.text name] = _
  simp [Piece.render]

theorem text_literal (value : LiteralValue) :
    (literal data value).text options = (literalText value none).toList := by
  change chars options [.text (literalText value none)] = _
  simp [Piece.render]

theorem text_this : (this data).text options = ['t', 'h', 'i', 's'] := by
  change chars options [.text "this"] = _
  simp [Piece.render]

theorem text_array (elements : List (Option Expr)) :
    (array data elements).text options
      = '[' :: elementsText (elements.map (·.map (·.operandText options .assignment))) := by
  have hfold : ((Field.ofSparse elements).fold fun data form values =>
      layout (if options.preserveComments then data.comments else []) form values)
      = elements.map (·.map (·.shown options)) := Field.fold_ofSparse _ elements
  change chars options (arrayPieces ((Field.ofSparse elements).fold _) 0) = _
  rw [hfold, chars_arrayPieces, List.map_map]
  simp only [Function.comp_def, Option.map_map, Child.operandText]

theorem text_member (computed : Bool) (key value : Expr) :
    (member data computed key value).text options =
      (if computed then '[' :: (key.operandText options .assignment ++ [']'])
        else key.operandText options .primary) ++
        ':' :: ' ' :: value.operandText options .assignment := by
  change chars options
    (propertyPieces .init computed false (key.shown options) (value.shown options) 0) = _
  cases computed with
  | true =>
    simp [propertyPieces, Bracket.openingText, Bracket.closingText, Piece.render, chars_operand,
      Child.operandText]
  | false => simp [propertyPieces, Piece.render, chars_operand, Child.operandText]

theorem text_unary (op : UnaryOperator) (a : Expr) :
    (unary data op a).text options = op.text.toList ++
      ((if op.isKeyword || signClash op (a.shown options) then [' '] else []) ++
        a.operandText options .unary) := by
  change chars options
    (.text (if op.isKeyword || signClash op (a.shown options) then op.text ++ " " else op.text) ::
      (a.shown options).operand .unary 0) = _
  simp only [chars_cons, chars_operand, Piece.render, Child.operandText]
  split
  · simp
  · simp

theorem chars_update (op : UpdateOperator) (before : Bool) (a : Expr) :
    (update data op before a).text options = chars options
      (if before then .text op.text :: (a.shown options).operand .callMember 0
        else (a.shown options).operand .callMember 0 ++ [.text op.text]) := rfl

theorem text_update_before (op : UpdateOperator) (a : Expr) :
    (update data op true a).text options
      = op.text.toList ++ a.operandText options .callMember := by
  rw [chars_update, if_pos rfl]
  simp [chars_operand, Piece.render, Child.operandText]

theorem text_update_after (op : UpdateOperator) (a : Expr) :
    (update data op false a).text options
      = a.operandText options .callMember ++ op.text.toList := by
  rw [chars_update, if_neg Bool.false_ne_true]
  simp [chars_operand, Piece.render, Child.operandText]

theorem text_conditional (test consequent alternate : Expr) :
    (conditional data test consequent alternate).text options =
      test.operandText options .logicalOr ++ ' ' :: '?' :: ' ' ::
        (consequent.operandText options .assignment ++ ' ' :: ':' :: ' ' ::
          alternate.operandText options .assignment) := by
  change chars options ((test.shown options).operand .logicalOr 0 ++ .text " ? " ::
    ((consequent.shown options).operand .assignment 0 ++ .text " : " ::
      (alternate.shown options).operand .assignment 0)) = _
  simp [chars_operand, Piece.render, Child.operandText]

section lists

variable {holds : Capability}

/-- The printed nodes of a list. -/
theorem fold_ofList_shown (children : List (Child holds)) :
    ((Field.ofList children).fold fun data form values =>
      layout (if options.preserveComments then data.comments else []) form values)
      = children.map (·.shown options) :=
  Field.fold_ofList _ children

end lists

theorem text_object (members : List (Child .property)) :
    (object data members).text options
      = '\x7b' :: if members.isEmpty then ['\x7d']
          else ' ' :: (commaText (members.map (·.text options)) ++ [' ', '\x7d']) := by
  change chars options (objectPieces ((Field.ofList members).fold _) 0) = _
  rw [fold_ofList_shown, chars_objectPieces, List.map_map, List.isEmpty_map]
  rfl

/-- Arguments in their brackets. -/
def argumentsText (arguments : List Expr) : List Char :=
  '(' :: (commaText (arguments.map (·.operandText options .assignment)) ++ [')'])

theorem chars_arguments_shown (arguments : List Expr) :
    chars options (Printed.arguments (arguments.map (·.shown options)) 0)
      = argumentsText options arguments := by
  rw [chars_arguments, List.map_map]
  rfl

theorem text_call (callee : Expr) (arguments : List Expr) :
    (call data callee arguments).text options
      = callee.operandText options .callMember ++ argumentsText options arguments := by
  change chars options ((callee.shown options).operand .callMember 0 ++
    Printed.arguments ((Field.ofList arguments).fold _) 0) = _
  rw [fold_ofList_shown, chars_append, chars_arguments_shown, chars_operand]
  rfl

theorem text_new (callee : Expr) (arguments : List Expr) :
    (new data callee arguments).text options =
      'n' :: 'e' :: 'w' :: ' ' :: (bracketed ((callee.shown options).containsCall ||
          decide ((callee.shown options).precedence < .callMember)) (callee.text options) ++
        argumentsText options arguments) := by
  change chars options (.text "new " ::
    ((if (callee.shown options).containsCall then parenthesized ((callee.shown options).pieces 0)
      else (callee.shown options).operand .callMember 0) ++
      Printed.arguments ((Field.ofList arguments).fold _) 0)) = _
  rw [fold_ofList_shown, chars_cons, chars_append, chars_arguments_shown]
  cases hcall : (callee.shown options).containsCall with
  | true => simp [chars_parenthesized, bracketed, Piece.render, Child.text, Printed.text]
  | false =>
    simp [chars_operand, Piece.render, Printed.operandText, Child.text, Printed.text]

theorem text_named (object key : Expr) :
    (access data false object key).text options =
      bracketed ((object.shown options).isNumber ||
          decide ((object.shown options).precedence < .callMember)) (object.text options) ++
        '.' :: key.operandText options .primary := by
  change chars options (memberPieces false (object.shown options) (key.shown options) 0) = _
  unfold memberPieces
  cases (object.shown options).isNumber with
  | true =>
    simp [chars_parenthesized, chars_operand, bracketed, Piece.render, Child.text,
      Child.operandText, Printed.text]
  | false =>
    simp [chars_operand, Piece.render, Printed.operandText, Child.text, Child.operandText,
      Printed.text]

theorem text_computed (object key : Expr) :
    (access data true object key).text options =
      object.operandText options .callMember ++ '[' :: (key.text options ++ [']']) := by
  change chars options (memberPieces true (object.shown options) (key.shown options) 0) = _
  simp [memberPieces, chars_operand, Bracket.openingText, Bracket.closingText, Child.text,
    Child.operandText, Printed.text]

theorem text_sequence (expressions : List Expr) :
    (sequence data expressions).text options
      = commaText (expressions.map (·.operandText options .assignment)) := by
  change chars options (commaSeparated
    (((Field.ofList expressions).fold _).map fun p : Printed => p.operand .assignment 0)) = _
  rw [fold_ofList_shown, chars_commaSeparated]
  simp only [List.map_map, Function.comp_def, chars_operand, Child.operandText]

end Expr

theorem Joint.text_join (joint : Joint) (left right : Expr) :
    (joint.join data left right).text options =
      left.operandText options joint.left ++ ' ' :: (joint.text.toList ++ ' ' ::
        right.operandText options joint.right) := by
  have hbetween : ∀ operator : Piece, chars options (betweenPieces
      ((left.shown options).operand joint.left 0) operator
      ((right.shown options).operand joint.right 0)) =
        left.operandText options joint.left ++ ' ' :: ((operator.render options).toList ++ ' ' ::
          right.operandText options joint.right) := by
    intro operator
    simp only [betweenPieces, chars_append, chars_cons, chars_operand, Child.operandText]
    simp [Piece.render]
  cases joint with
  | binary op => exact hbetween (.operator op)
  | logical op => exact hbetween (.text op.text)
  | assignment op => exact hbetween (.text op.text)

theorem Joint.precedence_join (joint : Joint) (left right : Expr) :
    ((joint.join data left right).shown options).precedence = joint.precedence := by
  cases joint <;> rfl

end forms

end EsFront
