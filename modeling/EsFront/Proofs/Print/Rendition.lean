/-
The printer writes the printed form.

What the printer does for a node and the node's printed form are both made from those of
the node's children, form by form. So a pair of them that belong together, a `Rendition`,
is made from renditions (`Rendition.ofForm`): every part appends the pieces that the
printed form has in its place. Main statements: `Node.rendition_part` and
`Node.rendition_printed` — every node has one.
-/
import EsFront.Proofs.Print.Appends
import EsFront.Proofs.Print.Fold

namespace EsFront

/-! ### What is known of a text -/

/-- What other texts depend on: all that is known of the text except the text. -/
def Printed.outline (p : Printed) : Printed :=
  { p with comments := [], pieces := fun _ => [], inHead? := none, accessor? := none }

/-- What is known of a text depends neither on comments nor on the texts of the children. -/
theorem outline_layout {kind : NodeKind} {slots : List Slot} (comments : List Comment)
    (form : Form kind slots) (values : Values Printed slots) :
    (layout comments form values).outline
      = (layout [] form (Values.mapWith Printed.outline slots values)).outline := by
  cases form with
  | ifStatement =>
    obtain ⟨test, consequent, alternate, ⟨⟩⟩ := values
    cases alternate <;> rfl
  | sequenceExpression =>
    obtain ⟨expressions, ⟨⟩⟩ := values
    have hbare : (expressions.map Printed.outline).any (·.bareIn)
        = expressions.any (·.bareIn) := List.any_map
    change _ = (layout [] Form.sequenceExpression (expressions.map Printed.outline, ())).outline
    simp only [layout, expression, Printed.outline] at hbare ⊢
    rw [hbare]
    cases expressions <;> rfl
  | _ => rfl

namespace Printer

/-- A part and the printed form that it writes, with comments or without. -/
structure Rendition (withComments : Bool) where
  part : Part
  printed : Printed
  outline : part.shape.outline = printed.outline
  comments : printed.comments = if withComments then part.comments else []
  body : Appends withComments part.body printed.pieces
  inHead? : Option.Rel (Appends withComments) part.inHead? printed.inHead?
  accessor? : Option.Rel (Appends withComments) part.accessor? printed.accessor?

variable {withComments : Bool}

namespace Rendition

/-! ### A child in its place -/

section child

variable (r : Rendition withComments)

theorem precedence : r.part.shape.precedence = r.printed.precedence :=
  (congrArg Printed.precedence r.outline :)

theorem opensStatement : r.part.shape.opensStatement = r.printed.opensStatement :=
  (congrArg Printed.opensStatement r.outline :)

theorem bareIn : r.part.shape.bareIn = r.printed.bareIn := (congrArg Printed.bareIn r.outline :)

theorem openIf : r.part.shape.openIf = r.printed.openIf := (congrArg Printed.openIf r.outline :)

theorem containsCall : r.part.shape.containsCall = r.printed.containsCall :=
  (congrArg Printed.containsCall r.outline :)

theorem front : r.part.shape.front = r.printed.front := (congrArg Printed.front r.outline :)

theorem isNumber : r.part.shape.isNumber = r.printed.isNumber :=
  (congrArg Printed.isNumber r.outline :)

theorem isIdentifier : r.part.shape.isIdentifier = r.printed.isIdentifier :=
  (congrArg Printed.isIdentifier r.outline :)

theorem expression (least : Precedence) :
    Appends withComments (r.part.expression least) (r.printed.operand least) := by
  unfold Part.expression
  rw [r.precedence]
  exact .ite _ (r.body.enclose .round) r.body

/-- Where every precedence is accepted, there are no brackets. -/
theorem expression_lowest : Appends withComments (r.part.expression .lowest) r.printed.pieces := by
  have hlowest : ¬ r.part.shape.precedence < .lowest := Nat.not_lt_zero _
  rw [Part.expression, if_neg hlowest]
  exact r.body

theorem withoutIn (least : Precedence) :
    Appends withComments (r.part.withoutIn least) (r.printed.withoutIn least) := by
  unfold Part.withoutIn
  rw [r.bareIn]
  exact .ite _ (r.expression_lowest.enclose .round) (r.expression least)

theorem inHead : Appends withComments r.part.inHead r.printed.inHead := by
  rcases Appends.rel_cases r.inHead? with ⟨hact, hpieces⟩ | ⟨act, pieces, hact, hpieces, h⟩
  · rw [Part.inHead, hact]
    refine (r.withoutIn .lowest).congr fun level => ?_
    rw [Printed.inHead, hpieces]
  · rw [Part.inHead, hact]
    refine h.congr fun level => ?_
    rw [Printed.inHead, hpieces]

theorem statement : Appends withComments r.part.statement r.printed.statement := by
  have h := (appends_writeLeading r.part.comments).andThen r.body
  rw [← r.comments] at h
  exact h

end child

/-! ### Several children -/

/-- Every line but the first has a line end in front of it. -/
theorem intercalate_line (level : Nat) (first : List Piece) : ∀ rest : List (List Piece),
    List.intercalate [.line level] (first :: rest) = first ++ rest.flatMap (.line level :: ·)
  | [] => by simp
  | next :: rest => by
    rw [List.intercalate_cons_cons, intercalate_line level next rest]
    simp

section children

variable (rs : List (Rendition withComments))

theorem lines :
    Appends withComments (writeLines (rs.map part)) (Printed.lines (rs.map printed)) :=
  .forM (fun r => appends_writeLine.andThen r.statement) rs

theorem program : Appends withComments (Printer.program (rs.map part)) fun level =>
    List.intercalate [.line level] ((rs.map printed).map fun p => p.statement level) := by
  cases rs with
  | nil => exact .nil
  | cons r rs =>
    refine (r.statement.andThen (lines rs)).congr fun level => ?_
    simp [intercalate_line, Printed.lines, List.flatMap_map]

theorem block : Appends withComments (Printer.block (rs.map part)) (blockPieces (rs.map printed)) := by
  cases rs with
  | nil => exact .enclose .curly .nil
  | cons r rs => exact .enclose .curly ((lines (r :: rs)).indented.andThen appends_writeLine)

theorem parameters : Appends withComments (Printer.parameters (rs.map part)) fun level =>
    parenthesized (commaSeparated ((rs.map printed).map (·.pieces level))) :=
  .enclose .round (.separate (fun r => r.body) rs)

theorem arguments :
    Appends withComments (Printer.arguments (rs.map part)) (Printed.arguments (rs.map printed)) :=
  .enclose .round (.separate (fun r => r.expression .assignment) rs)

theorem object :
    Appends withComments (Printer.object (rs.map part)) (objectPieces (rs.map printed)) := by
  cases rs with
  | nil => exact .enclose .curly .nil
  | cons r rs =>
    have hmembers := Appends.separate (fun r : Rendition withComments => r.body) (r :: rs)
    exact .enclose .curly ((hmembers.andThen (appends_write (.text " ") fun _ => rfl)).text " ")

end children

/-! ### Children that may be missing -/

/-- Something behind a blank. -/
theorem afterBlank {step : Part → Printing Unit}
    (h : ∀ r : Rendition withComments, Appends withComments (step r.part) r.printed.pieces) :
    ∀ r : Option (Rendition withComments),
      Appends withComments (behind " " ((r.map part).map step)) (Printed.afterBlank (r.map printed))
  | none => .nil
  | some r => (h r).text " "

/-- A part of a `try` statement. -/
theorem tryPart (word : String) : ∀ r : Option (Rendition withComments),
    Appends withComments (behind word ((r.map part).map Part.body))
      (EsFront.tryPart word (r.map printed))
  | none => .nil
  | some r => r.body.text word

/-! ### Statements -/

section statements

variable (r : Rendition withComments) (rs : List (Rendition withComments))
  (r? : Option (Rendition withComments))

theorem expressionStatement : Appends withComments (Printer.expressionStatement r.part) fun level =>
    (if r.printed.opensStatement then parenthesized (r.printed.pieces level)
      else r.printed.pieces level) ++ [.text ";"] := by
  unfold Printer.expressionStatement
  rw [r.opensStatement]
  have hend : Appends withComments (write ";") fun _ => [.text ";"] :=
    appends_write (.text ";") fun _ => rfl
  split
  · exact (r.expression_lowest.enclose .round).andThen hend
  · exact r.expression_lowest.andThen hend

theorem closedConsequent : Appends withComments (Printer.closedConsequent r.part) fun level =>
    if r.printed.openIf then
      enclosed .curly (.line (level + 1) :: (r.printed.statement (level + 1) ++ [.line level]))
    else r.printed.statement level := by
  unfold Printer.closedConsequent
  rw [r.openIf]
  exact .ite _
    (.enclose .curly ((appends_writeLine.andThen r.statement).indented.andThen appends_writeLine))
    r.statement

theorem ifStatement (test : Rendition withComments) :
    Appends withComments (Printer.ifStatement test.part r.part (r?.map part))
      (ifPieces test.printed r.printed (r?.map printed)) := by
  have htest := test.expression_lowest.enclose .round
  cases r? with
  | none =>
    refine ((htest.andThen (r.statement.text " ")).text "if ").congr fun level => ?_
    simp [ifPieces, parenthesized]
  | some alternate =>
    refine ((htest.andThen ((r.closedConsequent.andThen
      (alternate.statement.text " else ")).text " ")).text "if ").congr fun level => ?_
    simp [ifPieces, parenthesized]

theorem switchCase : Appends withComments (Printer.switchCase (r?.map part) (rs.map part))
    fun level =>
      (match r?.map printed with
        | some test => .text "case " :: (test.pieces level ++ [.text ":"])
        | none => [.text "default:"]) ++ Printed.lines (rs.map printed) (level + 1) := by
  cases r? with
  | none => exact (lines rs).indented.text "default:"
  | some test =>
    refine ((test.expression_lowest.andThen ((lines rs).indented.text ":")).text "case ").congr
      fun level => ?_
    simp

theorem switchStatement :
    Appends withComments (Printer.switchStatement r.part (rs.map part)) fun level =>
      .text "switch " :: (parenthesized (r.printed.pieces level) ++ .text " " ::
        enclosed .curly ((rs.map printed).flatMap
          (fun c => .line (level + 1) :: c.pieces (level + 1)) ++ [.line level])) := by
  have hcases : Appends withComments ((rs.map part).forM fun c => do writeLine; c.body)
      fun level => (rs.map printed).flatMap fun c => .line level :: c.pieces level :=
    .forM (fun c => appends_writeLine.andThen c.body) rs
  exact ((r.expression_lowest.enclose .round).andThen
    ((Appends.enclose .curly (hcases.indented.andThen appends_writeLine)).text " ")).text "switch "

theorem tryStatement (handler finalizer : Option (Rendition withComments)) :
    Appends withComments
      (Printer.tryStatement r.part (handler.map part) (finalizer.map part)) fun level =>
        .text "try " :: (r.printed.pieces level
          ++ EsFront.tryPart " catch " (handler.map printed) level
          ++ EsFront.tryPart " finally " (finalizer.map printed) level) := by
  refine ((r.body.andThen ((tryPart " catch " handler).andThen
    (tryPart " finally " finalizer))).text "try ").congr fun level => ?_
  simp

theorem forStatement (init test update : Option (Rendition withComments)) :
    Appends withComments
      (Printer.forStatement (init.map part) (test.map part) (update.map part) r.part) fun level =>
        let head := match init.map printed with
          | some init => init.inHead level
          | none => []
        .text "for " :: (parenthesized
          (head ++ .text ";" :: (Printed.afterBlank (test.map printed) level ++ .text ";" ::
            Printed.afterBlank (update.map printed) level)) ++
              .text " " :: r.printed.statement level) := by
  have hhead : Appends withComments (((init.map part).map Part.inHead).getD (pure ()))
      fun level =>
        match init.map printed with
        | some init => init.inHead level
        | none => [] := by
    cases init with
    | none => exact .nil
    | some init => exact init.inHead
  have hclause (e : Option (Rendition withComments)) :
      Appends withComments (behind " " ((e.map part).map (Part.expression · .lowest)))
        (Printed.afterBlank (e.map printed)) :=
    afterBlank (fun r => r.expression_lowest) e
  exact (((hhead.andThen (((hclause test).andThen ((hclause update).text ";")).text ";")).enclose
    .round).andThen (r.statement.text " ")).text "for "

theorem declaration (kind : DeclKind) {step : Part → Printing Unit} {pieces : Printed → Leveled}
    (h : ∀ r : Rendition withComments, Appends withComments (step r.part) (pieces r.printed)) :
    Appends withComments (Printer.declaration kind ((rs.map part).map step)) fun level =>
      declarationPieces kind ((rs.map printed).map (pieces · level)) :=
  (Appends.separate h rs).text _

theorem declarator {value : Part → Precedence → Printing Unit}
    {pieces : Printed → Precedence → Leveled}
    (h : ∀ (r : Rendition withComments) least,
      Appends withComments (value r.part least) (pieces r.printed least)) :
    Appends withComments (Printer.declarator r.part (r?.map part) value)
      (declaratorPieces r.printed (r?.map printed) pieces) := by
  cases r? with
  | none =>
    refine (r.body.andThen .nil).congr fun level => ?_
    simp [declaratorPieces]
  | some init => exact r.body.andThen ((h init .assignment).text " = ")

theorem functionTail : Appends withComments (Printer.functionTail (rs.map part) r.part)
    (EsFront.functionTail (rs.map printed) r.printed) :=
  (parameters rs).andThen (r.body.text " ")

theorem function (generator : Bool) :
    Appends withComments (Printer.function generator (r?.map part) (rs.map part) r.part)
      (functionPieces generator (r?.map printed) (rs.map printed) r.printed) :=
  ((afterBlank body r?).andThen (r.functionTail rs)).text _

end statements

/-! ### Expressions -/

section expressions

variable (r : Rendition withComments)

/-- A hole at the end has a comma of its own. -/
theorem array (elements : List (Option (Rendition withComments))) :
    Appends withComments (Printer.array (elements.map (·.map part)))
      (arrayPieces (elements.map (·.map printed))) := by
  have helement (e : Option (Rendition withComments)) :
      Appends withComments (((e.map part).map (Part.expression · .assignment)).getD (pure ()))
        fun level =>
          match e.map printed with
          | some e => e.operand .assignment level
          | none => [] := by
    cases e with
    | none => exact .nil
    | some e => exact e.expression .assignment
  refine .enclose .square ((Appends.separate helement elements).andThen ?_)
  rw [List.getLast?_map, List.getLast?_map]
  rcases elements.getLast? with _ | _ | e
  · exact .nil
  · exact appends_write (.text ",") fun _ => rfl
  · exact .nil

theorem propertyKey (computed : Bool) :
    Appends withComments (Printer.propertyKey computed r.part) fun level =>
      if computed then enclosed .square (r.printed.operand .assignment level)
      else r.printed.operand .primary level :=
  .ite _ ((r.expression .assignment).enclose .square) (r.expression .primary)

/-- An accessor writes the parameters and body of its value, which is a function. -/
theorem property (value : Rendition withComments) (kind : PropertyKind)
    (computed shorthand : Bool) :
    Appends withComments (Printer.property kind computed shorthand r.part value.part)
      (propertyPieces kind computed shorthand r.printed value.printed) := by
  have hkey := r.propertyKey computed
  have hvalue := value.expression .assignment
  have htail : Option.Rel (Appends withComments)
      (if kind = .init then none else value.part.accessor?)
      (if kind = .init then none else value.printed.accessor?) := by
    split
    · exact .none
    · exact value.accessor?
  rcases Appends.rel_cases htail with ⟨hact, hpieces⟩ | ⟨act, pieces, hact, hpieces, h⟩
  · rw [Printer.property, hact, value.isIdentifier]
    refine (Appends.ite _ hvalue (hkey.andThen (hvalue.text ": "))).congr fun level => ?_
    rw [propertyPieces, hpieces]
  · rw [Printer.property, hact]
    refine ((hkey.andThen h).text (kind.text ++ " ")).congr fun level => ?_
    rw [propertyPieces, hpieces]

theorem unary (op : UnaryOperator) : Appends withComments (Printer.unary op r.part) fun level =>
    .text (if op.isKeyword || signClash op r.printed then op.text ++ " " else op.text) ::
      r.printed.operand .unary level := by
  have hclash : signClash op r.part.shape = signClash op r.printed := by
    rw [signClash, signClash, r.front]
  unfold Printer.unary
  rw [hclash]
  exact (r.expression .unary).text _

theorem update (op : UpdateOperator) (before : Bool) :
    Appends withComments (Printer.update op before r.part) fun level =>
      let inner := r.printed.operand .callMember level
      if before then .text op.text :: inner else inner ++ [.text op.text] :=
  .ite _ ((r.expression .callMember).text op.text)
    ((r.expression .callMember).andThen (appends_write (.text op.text) fun _ => rfl))

/-- An operator between its operands. -/
theorem between {left right : Printing Unit} {pieces more : Leveled} {op : String}
    (operator : Piece) (hop : ∀ options, operator.render options = op)
    (hleft : Appends withComments left pieces) (hright : Appends withComments right more) :
    Appends withComments (Printer.between left op right) fun level =>
      betweenPieces (pieces level) operator (more level) :=
  hleft.andThen (((appends_write operator hop).andThen (hright.text " ")).text " ")

theorem callee : Appends withComments (Printer.callee r.part) fun level =>
    if r.printed.containsCall then parenthesized (r.printed.pieces level)
    else r.printed.operand .callMember level := by
  unfold Printer.callee
  rw [r.containsCall]
  exact .ite _ (r.expression_lowest.enclose .round) (r.expression .callMember)

theorem memberObject (computed : Bool) :
    Appends withComments (Printer.memberObject computed r.part) fun level =>
      if r.printed.isNumber && !computed then parenthesized (r.printed.pieces level)
      else r.printed.operand .callMember level := by
  unfold Printer.memberObject
  rw [r.isNumber]
  exact .ite _ (r.expression_lowest.enclose .round) (r.expression .callMember)

theorem member (property : Rendition withComments) (computed : Bool) :
    Appends withComments (Printer.member computed r.part property.part)
      (memberPieces computed r.printed property.printed) := by
  refine ((r.memberObject computed).andThen (.ite _ (property.expression_lowest.enclose .square)
    ((property.expression .primary).text "."))).congr fun level => ?_
  cases computed <;> rfl

end expressions

/-! ### Nodes -/

section forms

variable {kind : NodeKind} {slots : List Slot}

/-- What is written for a node, form by form. -/
theorem body_form (comments : List Comment) (form : Form kind slots)
    (values : Values (Rendition withComments) slots) :
    Appends withComments (Printer.form form (Values.mapWith part slots values))
      (layout comments form (Values.mapWith printed slots values)).pieces := by
  have hend : Appends withComments (write ";") fun _ => [.text ";"] :=
    appends_write (.text ";") fun _ => rfl
  -- each form is written by the rendition of its writer, from the renditions of its parts
  cases form with
  | program _ _ =>
    obtain ⟨body, ⟨⟩⟩ := values
    exact program body
  | blockStatement =>
    obtain ⟨body, ⟨⟩⟩ := values
    exact block body
  | emptyStatement => exact hend
  | expressionStatement =>
    obtain ⟨e, ⟨⟩⟩ := values
    exact e.expressionStatement
  | ifStatement =>
    obtain ⟨test, consequent, alternate, ⟨⟩⟩ := values
    exact consequent.ifStatement alternate test
  | labeledStatement =>
    obtain ⟨label, body, ⟨⟩⟩ := values
    exact label.body.andThen (body.statement.text ": ")
  | breakStatement =>
    obtain ⟨label, ⟨⟩⟩ := values
    exact ((afterBlank body label).andThen hend).text "break"
  | continueStatement =>
    obtain ⟨label, ⟨⟩⟩ := values
    exact ((afterBlank body label).andThen hend).text "continue"
  | switchStatement =>
    obtain ⟨discriminant, cases, ⟨⟩⟩ := values
    exact discriminant.switchStatement cases
  | returnStatement =>
    obtain ⟨argument, ⟨⟩⟩ := values
    exact ((afterBlank (fun e => e.expression_lowest) argument).andThen hend).text "return"
  | throwStatement =>
    obtain ⟨argument, ⟨⟩⟩ := values
    exact (argument.expression_lowest.andThen hend).text "throw "
  | tryStatement =>
    obtain ⟨block, handler, finalizer, ⟨⟩⟩ := values
    exact block.tryStatement handler finalizer
  | whileStatement =>
    obtain ⟨test, body, ⟨⟩⟩ := values
    exact ((test.expression_lowest.enclose .round).andThen (body.statement.text " ")).text "while "
  | doWhileStatement =>
    obtain ⟨body, test, ⟨⟩⟩ := values
    exact (body.statement.andThen
      (((test.expression_lowest.enclose .round).andThen hend).text " while ")).text "do "
  | forStatement =>
    obtain ⟨init, test, update, body, ⟨⟩⟩ := values
    exact body.forStatement init test update
  | forInStatement =>
    obtain ⟨left, right, body, ⟨⟩⟩ := values
    exact (((left.inHead.andThen (right.expression_lowest.text " in ")).enclose .round).andThen
      (body.statement.text " ")).text "for "
  | debuggerStatement => exact appends_write (.text "debugger;") fun _ => rfl
  | variableDeclaration declKind =>
    obtain ⟨declarators, ⟨⟩⟩ := values
    exact (declaration declarators declKind body).andThen hend
  | variableDeclarator _ =>
    obtain ⟨id, init, ⟨⟩⟩ := values
    exact id.declarator init expression
  | functionDeclaration generator =>
    obtain ⟨id, params, body, ⟨⟩⟩ := values
    exact body.function params (some id) generator
  | switchCase =>
    obtain ⟨test, consequent, ⟨⟩⟩ := values
    exact switchCase consequent test
  | catchClause =>
    obtain ⟨param, body, ⟨⟩⟩ := values
    exact (param.body.enclose .round).andThen (body.body.text " ")
  | property kind computed shorthand =>
    obtain ⟨key, value, ⟨⟩⟩ := values
    exact key.property value kind computed shorthand
  | identifier name _ _ => exact appends_write (.text name) fun _ => rfl
  | literal value raw => exact appends_write (.text (literalText value raw)) fun _ => rfl
  | thisExpression => exact appends_write (.text "this") fun _ => rfl
  | arrayExpression =>
    obtain ⟨elements, ⟨⟩⟩ := values
    exact array elements
  | objectExpression =>
    obtain ⟨properties, ⟨⟩⟩ := values
    exact object properties
  | functionExpression generator =>
    obtain ⟨id, params, body, ⟨⟩⟩ := values
    exact body.function params id generator
  | unaryExpression op =>
    obtain ⟨argument, ⟨⟩⟩ := values
    exact argument.unary op
  | updateExpression op before =>
    obtain ⟨argument, ⟨⟩⟩ := values
    exact argument.update op before
  | binaryExpression op =>
    obtain ⟨left, right, ⟨⟩⟩ := values
    exact between (.operator op) (fun _ => rfl) (left.expression _) (right.expression _)
  | logicalExpression op =>
    obtain ⟨left, right, ⟨⟩⟩ := values
    exact between (.text op.text) (fun _ => rfl) (left.expression _) (right.expression _)
  | assignmentExpression op =>
    obtain ⟨left, right, ⟨⟩⟩ := values
    exact between (.text op.text) (fun _ => rfl) (left.expression _) (right.expression _)
  | conditionalExpression =>
    obtain ⟨test, consequent, alternate, ⟨⟩⟩ := values
    exact (test.expression .logicalOr).andThen (((consequent.expression .assignment).andThen
      ((alternate.expression .assignment).text " : ")).text " ? ")
  | callExpression =>
    obtain ⟨callee, args, ⟨⟩⟩ := values
    exact (callee.expression .callMember).andThen (arguments args)
  | newExpression =>
    obtain ⟨operand, args, ⟨⟩⟩ := values
    exact (operand.callee.andThen (arguments args)).text "new "
  | memberExpression computed =>
    obtain ⟨object, property, ⟨⟩⟩ := values
    exact object.member property computed
  | sequenceExpression =>
    obtain ⟨expressions, ⟨⟩⟩ := values
    exact .separate (fun e => e.expression .assignment) expressions

theorem inHead?_form (comments : List Comment) (form : Form kind slots)
    (values : Values (Rendition withComments) slots) :
    Option.Rel (Appends withComments) (Printer.inHead? form (Values.mapWith part slots values))
      (layout comments form (Values.mapWith printed slots values)).inHead? := by
  cases form with
  | variableDeclaration declKind =>
    obtain ⟨declarators, ⟨⟩⟩ := values
    exact .some (declaration declarators declKind inHead)
  | variableDeclarator _ =>
    obtain ⟨id, init, ⟨⟩⟩ := values
    exact .some (id.declarator init withoutIn)
  | _ => exact .none

theorem accessor?_form (comments : List Comment) (form : Form kind slots)
    (values : Values (Rendition withComments) slots) :
    Option.Rel (Appends withComments) (Printer.accessor? form (Values.mapWith part slots values))
      (layout comments form (Values.mapWith printed slots values)).accessor? := by
  cases form with
  | functionExpression _ =>
    obtain ⟨id, params, body, ⟨⟩⟩ := values
    exact .some (body.functionTail params)
  | _ => exact .none

/-- The rendition of a node from those of its children. -/
def ofForm (data : NodeData) (form : Form kind slots)
    (values : Values (Rendition withComments) slots) : Rendition withComments where
  part := Printer.part data form (Values.mapWith part slots values)
  printed := layout (if withComments then data.comments else []) form
    (Values.mapWith printed slots values)
  outline := by
    have hsame : (Printed.outline ∘ Part.shape) ∘ part
        = Printed.outline ∘ (printed : Rendition withComments → Printed) :=
      funext fun r => r.outline
    rw [Printer.part, outline_layout, outline_layout (if withComments then data.comments else []),
      Values.mapWith_mapWith, Values.mapWith_mapWith, Values.mapWith_mapWith, hsame]
  comments := comments_layout _ form _
  body := body_form _ form values
  inHead? := inHead?_form _ form values
  accessor? := accessor?_form _ form values

end forms

end Rendition

end Printer

/-- How a node is written, together with its printed form. -/
def Node.rendition {kind : NodeKind} (withComments : Bool) (node : Node kind) :
    Printer.Rendition withComments :=
  node.fold Printer.Rendition.ofForm

namespace Node

variable {kind : NodeKind} (withComments : Bool) (node : Node kind)

theorem rendition_part : (node.rendition withComments).part = node.part :=
  fold_map (fun _ _ _ => rfl) node

theorem rendition_printed : (node.rendition withComments).printed = node.printed withComments :=
  fold_map (fun _ _ _ => rfl) node

end Node

end EsFront
