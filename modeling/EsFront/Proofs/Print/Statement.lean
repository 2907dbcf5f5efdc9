/-
Statements by their parts, and their texts.

* `Stmt.block` and its like — some forms of statements as functions of their parts;
* `Ident` — an identifier with all it says;
* `Printed.Flat` — what is printed the same at every level of indentation, as all
  expressions without functions are (`Expr.flat`);
* `Stmt.textAt` — the characters of a statement with the default options. Each equation
  (`Stmt.textAt_block` and its like) gives them by those of the parts, for statements
  without comments.
-/
import EsFront.Proofs.Print.Fold
import EsFront.Proofs.Print.Text

namespace EsFront

/-- An identifier with its data. -/
structure Ident extends IdentifierView where
  data : NodeData

namespace Ident

def node (id : Ident) : Node .identifier :=
  .mk id.data (.identifier id.name id.isBinder id.info) .nil

def expr (id : Ident) : Expr := .identifier id.data id.name id.isBinder id.info

end Ident

/-- A statement of any kind. -/
abbrev Stmt := Child .statement

namespace Stmt

variable (data : NodeData)

def block (body : List Stmt) : Stmt :=
  ⟨_, .mk data .blockStatement (.cons (.ofList body) .nil), rfl⟩

def empty : Stmt := ⟨_, .mk data .emptyStatement .nil, rfl⟩

def debugger : Stmt := ⟨_, .mk data .debuggerStatement .nil, rfl⟩

def expression (e : Expr) : Stmt :=
  ⟨_, .mk data .expressionStatement (.cons (.one e.node e.accepted) .nil), rfl⟩

def ifThen (test : Expr) (consequent : Stmt) : Stmt :=
  ⟨_, .mk data .ifStatement (.cons (.one test.node test.accepted)
    (.cons (.one consequent.node consequent.accepted) (.cons .absent .nil))), rfl⟩

def ifElse (test : Expr) (consequent alternate : Stmt) : Stmt :=
  ⟨_, .mk data .ifStatement (.cons (.one test.node test.accepted)
    (.cons (.one consequent.node consequent.accepted)
      (.cons (.present alternate.node alternate.accepted) .nil))), rfl⟩

def labeled (label : Ident) (body : Stmt) : Stmt :=
  ⟨_, .mk data .labeledStatement (.cons (.one label.node rfl)
    (.cons (.one body.node body.accepted) .nil)), rfl⟩

def whileLoop (test : Expr) (body : Stmt) : Stmt :=
  ⟨_, .mk data .whileStatement (.cons (.one test.node test.accepted)
    (.cons (.one body.node body.accepted) .nil)), rfl⟩

def doWhile (body : Stmt) (test : Expr) : Stmt :=
  ⟨_, .mk data .doWhileStatement (.cons (.one body.node body.accepted)
    (.cons (.one test.node test.accepted) .nil)), rfl⟩

/-- The loop with an empty head. -/
def forever (body : Stmt) : Stmt :=
  ⟨_, .mk data .forStatement (.cons .absent (.cons .absent (.cons .absent
    (.cons (.one body.node body.accepted) .nil)))), rfl⟩

def forIn (left right : Ident) (body : Stmt) : Stmt :=
  ⟨_, .mk data .forInStatement (.cons (.one left.node rfl) (.cons (.one right.node rfl)
    (.cons (.one body.node body.accepted) .nil))), rfl⟩

end Stmt

/-! ### Expressions at every level -/

/-- The parts of an expression without functions are expressions and properties. -/
theorem Form.holds_of_expression {kind : NodeKind} {slots : List Slot} (form : Form kind slots)
    (hkind : kind.isExpression = true ∨ kind = .property) (hfunction : kind ≠ .functionExpression) :
    ∀ slot ∈ slots, slot.holds = .expression ∨ slot.holds = .property := by
  cases form with
  | functionExpression => exact absurd rfl hfunction
  | _ => first | exact absurd hkind (by decide) | simp

theorem isExpression_of_accepts {holds : Capability} {kind : NodeKind}
    (hholds : holds = .expression ∨ holds = .property) (h : holds.accepts kind = true) :
    kind.isExpression = true ∨ kind = .property := by
  rcases hholds with rfl | rfl
  · exact .inl h
  · exact .inr (of_decide_eq_true h)

/-- What is printed the same at every level of indentation, and is no accessor. -/
structure Printed.Flat (p : Printed) : Prop where
  pieces : ∀ level, p.pieces level = p.pieces 0
  accessor : p.accessor? = none

namespace Printed.Flat

variable {p : Printed} {ps : List Printed}

theorem operand (h : p.Flat) (least : Precedence) (level : Nat) :
    p.operand least level = p.operand least 0 := by
  rw [Printed.operand, Printed.operand, h.pieces level]

theorem arguments (h : ∀ p ∈ ps, p.Flat) (level : Nat) :
    Printed.arguments ps level = Printed.arguments ps 0 := by
  rw [Printed.arguments, Printed.arguments,
    List.map_congr_left fun p hp => (h p hp).operand .assignment level]

end Printed.Flat

theorem arrayPieces_flat {elements : List (Option Printed)} (h : ∀ p, some p ∈ elements → p.Flat)
    (level : Nat) : arrayPieces elements level = arrayPieces elements 0 := by
  unfold arrayPieces
  refine congrArg (fun parts => enclosed .square (commaSeparated parts ++ _)) ?_
  refine List.map_congr_left fun element helement => ?_
  cases element with
  | none => rfl
  | some p => exact (h p helement).operand .assignment level

theorem objectPieces_flat {properties : List Printed} (h : ∀ p ∈ properties, p.Flat)
    (level : Nat) : objectPieces properties level = objectPieces properties 0 := by
  rw [objectPieces, objectPieces, List.map_congr_left fun p hp => (h p hp).pieces level]

theorem propertyPieces_flat (kind : PropertyKind) (computed shorthand : Bool) {key value : Printed}
    (hkey : key.Flat) (hvalue : value.Flat) (level : Nat) :
    propertyPieces kind computed shorthand key value level
      = propertyPieces kind computed shorthand key value 0 := by
  simp only [propertyPieces, hvalue.accessor, ite_self, hkey.operand _ level,
    hvalue.operand _ level]

theorem memberPieces_flat (computed : Bool) {object property : Printed} (hobject : object.Flat)
    (hproperty : property.Flat) (level : Nat) :
    memberPieces computed object property level = memberPieces computed object property 0 := by
  simp only [memberPieces, hobject.pieces level, hproperty.pieces level, hobject.operand _ level,
    hproperty.operand _ level]

/-- A part of an expression is printed the same at every level if its own parts are. -/
theorem flat_layout {kind : NodeKind} {slots : List Slot} (comments : List Comment)
    (form : Form kind slots) (hkind : kind.isExpression = true ∨ kind = .property)
    (hfunction : kind ≠ .functionExpression) (values : Values Printed slots)
    (h : Values.All (fun _ => Printed.Flat) slots values) :
    (layout comments form values).Flat := by
  -- only bodies of functions look at the level
  cases form with
  | identifier | literal | thisExpression => exact ⟨fun _ => rfl, rfl⟩
  | arrayExpression =>
    obtain ⟨elements, ⟨⟩⟩ := values
    exact ⟨arrayPieces_flat h.1, rfl⟩
  | objectExpression =>
    obtain ⟨properties, ⟨⟩⟩ := values
    exact ⟨objectPieces_flat h.1, rfl⟩
  | unaryExpression op =>
    obtain ⟨argument, ⟨⟩⟩ := values
    exact ⟨fun level => congrArg (_ :: ·) (h.1.operand .unary level), rfl⟩
  | updateExpression op before =>
    obtain ⟨argument, ⟨⟩⟩ := values
    refine ⟨fun level => ?_, rfl⟩
    simp only [layout, expression, h.1.operand _ level]
  | binaryExpression op =>
    obtain ⟨left, right, ⟨⟩⟩ := values
    refine ⟨fun level => ?_, rfl⟩
    simp only [layout, expression, h.1.operand _ level, h.2.1.operand _ level]
  | logicalExpression op =>
    obtain ⟨left, right, ⟨⟩⟩ := values
    refine ⟨fun level => ?_, rfl⟩
    simp only [layout, expression, h.1.operand _ level, h.2.1.operand _ level]
  | assignmentExpression op =>
    obtain ⟨left, right, ⟨⟩⟩ := values
    refine ⟨fun level => ?_, rfl⟩
    simp only [layout, expression, h.1.operand _ level, h.2.1.operand _ level]
  | conditionalExpression =>
    obtain ⟨test, consequent, alternate, ⟨⟩⟩ := values
    refine ⟨fun level => ?_, rfl⟩
    simp only [layout, expression, h.1.operand _ level, h.2.1.operand _ level,
      h.2.2.1.operand _ level]
  | callExpression =>
    obtain ⟨callee, arguments, ⟨⟩⟩ := values
    refine ⟨fun level => ?_, rfl⟩
    simp only [layout, expression, h.1.operand _ level, Printed.Flat.arguments h.2.1 level]
  | newExpression =>
    obtain ⟨callee, arguments, ⟨⟩⟩ := values
    refine ⟨fun level => ?_, rfl⟩
    simp only [layout, expression, h.1.pieces level, h.1.operand _ level,
      Printed.Flat.arguments h.2.1 level]
  | memberExpression computed =>
    obtain ⟨object, property, ⟨⟩⟩ := values
    exact ⟨memberPieces_flat computed h.1 h.2.1, rfl⟩
  | sequenceExpression =>
    obtain ⟨expressions, ⟨⟩⟩ := values
    refine ⟨fun level => congrArg commaSeparated ?_, rfl⟩
    exact List.map_congr_left fun p hp => (h.1 p hp).operand .assignment level
  | property kind computed shorthand =>
    obtain ⟨key, value, ⟨⟩⟩ := values
    exact ⟨propertyPieces_flat kind computed shorthand h.1 h.2.1, rfl⟩
  | functionExpression => exact absurd rfl hfunction
  | _ => exact absurd hkind (by decide)

/-- **Expressions on one line.** An expression without functions is printed the same at
every level. -/
theorem Expr.flat (e : Expr) (h : ∀ any ∈ e.node.nodes, any.kind ≠ .functionExpression)
    (withComments : Bool) : (e.node.printed withComments).Flat := by
  refine Node.fold_induction (P := fun any p =>
    any.kind.isExpression = true ∨ any.kind = .property →
      (∀ x ∈ any.node.nodes, x.kind ≠ .functionExpression) → Printed.Flat p) ?_ e.node
        (.inl e.accepted) h
  intro kind slots data form fields ih hkind hnodes
  have hfunction : kind ≠ .functionExpression := hnodes _ (Node.self_mem_nodes _)
  refine flat_layout _ form hkind hfunction _ (ih.imp_mem fun slot hslot p hp => ?_)
  obtain ⟨any, hany, haccepts, hflat⟩ := hp
  have hholds := form.holds_of_expression hkind hfunction slot hslot
  exact hflat (isExpression_of_accepts hholds haccepts)
    fun x hx => hnodes x (Node.mem_nodes_of_child hany hx)

/-! ### Texts of statements -/

theorem Printed.Flat.chars_pieces {test : Expr} (h : (test.node.printed true).Flat)
    (level : Nat) : chars {} ((test.node.printed true).pieces level) = test.text {} := by
  rw [h.pieces level]
  rfl

/-- The end of a line and the indentation of the next one. -/
def lineText (level : Nat) : List Char := chars {} [.line level]

theorem blank_of_mem_lineText {level : Nat} {c : Char} (h : c ∈ lineText level) :
    c = ' ' ∨ c = '\n' := by
  have hindent : ∀ n, ∀ c ∈ (repeated "    " n).toList, c = ' ' := by
    intro n
    induction n with
    | zero => simp [repeated]
    | succ n ih =>
      intro c hc
      rw [repeated, String.toList_append] at hc
      rcases List.mem_append.mp hc with hc | hc
      · simpa using hc
      · exact ih c hc
  simp only [lineText, chars_cons, chars_nil, Piece.render, String.toList_append,
    List.append_nil] at h
  rcases List.mem_append.mp h with h | h
  · exact .inr (by simpa using h)
  · exact .inl (hindent level c h)

theorem Ident.pieces_node (id : Ident) (withComments : Bool) (level : Nat) :
    (id.node.printed withComments).pieces level = [.text id.name] := rfl

theorem Ident.text_expr (id : Ident) (options : PrintOptions) :
    id.expr.text options = id.name.toList :=
  Expr.text_identifier options id.data id.name id.isBinder id.info

section printed

variable (withComments : Bool)

/-- The printed fields of a node. -/
def Fields.printed {slots : List Slot} (fields : Fields slots) : Values Printed slots :=
  fields.fold fun data form values =>
    layout (if withComments then data.comments else []) form values

/-- The printed nodes of a field. -/
def Field.printed {arity : Arity} {holds : Capability} (field : Field arity holds) :
    Value Printed arity :=
  field.fold fun data form values =>
    layout (if withComments then data.comments else []) form values

end printed

namespace Stmt

/-- The characters of a statement at a level of indentation. -/
def textAt (s : Stmt) (level : Nat) : List Char :=
  chars {} ((s.node.printed true).statement level)

section text

variable {data : NodeData} (hdata : data.comments = []) (level : Nat)

include hdata

theorem textAt_mk {kind : NodeKind} {slots : List Slot} (form : Form kind slots)
    (fields : Fields slots) (accepted : Capability.statement.accepts kind = true) :
    textAt ⟨kind, .mk data form fields, accepted⟩ level
      = chars {} ((layout [] form (fields.printed true)).pieces level) := by
  change chars {} ((layout data.comments form (fields.printed true)).statement level) = _
  rw [hdata, Printed.statement, comments_layout, List.flatMap_nil, List.nil_append]

theorem textAt_empty : (empty data).textAt level = [';'] := by
  refine (textAt_mk hdata level _ _ rfl).trans ?_
  change chars {} [.text ";"] = _
  simp [Piece.render]

theorem textAt_debugger : (debugger data).textAt level = "debugger".toList ++ [';'] := by
  refine (textAt_mk hdata level _ _ rfl).trans ?_
  change chars {} [.text "debugger;"] = _
  simp [Piece.render]

theorem chars_expression (e : Expr) :
    (expression data e).textAt level = chars {} ((if (e.node.printed true).opensStatement then
      parenthesized ((e.node.printed true).pieces level) else (e.node.printed true).pieces level) ++
        [.text ";"]) :=
  textAt_mk hdata level _ _ rfl

theorem textAt_expression (id : Ident) :
    (expression data id.expr).textAt level = id.name.toList ++ [';'] := by
  have hopens : (id.expr.node.printed true).opensStatement = false := rfl
  have hpieces : (id.expr.node.printed true).pieces level = [.text id.name] := rfl
  rw [chars_expression hdata, hopens, hpieces]
  simp [Piece.render]

theorem textAt_labeled (label : Ident) (body : Stmt) :
    (labeled data label body).textAt level
      = label.name.toList ++ ':' :: ' ' :: body.textAt level := by
  refine (textAt_mk hdata level _ _ rfl).trans ?_
  change chars {} ((label.node.printed true).pieces level ++ .text ": " ::
    (body.node.printed true).statement level) = _
  simp [label.pieces_node, Piece.render, textAt]

theorem chars_block (body : List Stmt) :
    (block data body).textAt level
      = chars {} (blockPieces (body.map (·.node.printed true)) level) :=
  (textAt_mk hdata level _ _ rfl).trans
    (congrArg (fun body => chars {} (blockPieces body level)) (Field.fold_ofList _ body))

theorem textAt_block_nil : (block data []).textAt level = ['\x7b', '\x7d'] := by
  rw [chars_block hdata]
  simp [blockPieces, Bracket.openingText, Bracket.closingText]

/-- The statements of a block stand on lines of their own. -/
theorem textAt_block {body : List Stmt} (h : body ≠ []) :
    (block data body).textAt level = '\x7b' ::
      (body.flatMap (fun s => lineText (level + 1) ++ s.textAt (level + 1)) ++
        (lineText level ++ ['\x7d'])) := by
  have hlines : chars {} (Printed.lines (body.map (·.node.printed true)) (level + 1))
      = body.flatMap fun s => lineText (level + 1) ++ s.textAt (level + 1) := by
    clear h
    induction body with
    | nil => simp [Printed.lines]
    | cons s body ih =>
      rw [Printed.lines] at ih ⊢
      rw [List.map_cons, List.flatMap_cons, List.flatMap_cons, chars_append, ih, chars_cons]
      simp [lineText, textAt]
  have hempty : (body.map (·.node.printed true)).isEmpty = false := by simpa using h
  rw [chars_block hdata, blockPieces, hempty, if_neg Bool.false_ne_true, chars_enclosed,
    chars_append, hlines]
  simp [Bracket.openingText, Bracket.closingText, lineText]

variable {test : Expr} (htest : (test.node.printed true).Flat)

include htest

theorem textAt_ifThen (consequent : Stmt) :
    (ifThen data test consequent).textAt level
      = "if".toList ++ ' ' :: '(' :: (test.text {} ++ ')' :: ' ' :: consequent.textAt level) := by
  refine (textAt_mk hdata level _ _ rfl).trans ?_
  change chars {} (ifPieces (test.node.printed true) (consequent.node.printed true) none level) = _
  simp [ifPieces, Piece.render, chars_parenthesized, textAt, htest.chars_pieces]

/-- An `else` behind a consequent that does not end in an open `if`. -/
theorem textAt_ifElse {consequent : Stmt} (h : (consequent.node.printed true).openIf = false)
    (alternate : Stmt) :
    (ifElse data test consequent alternate).textAt level
      = "if".toList ++ ' ' :: '(' :: (test.text {} ++ ')' :: ' ' :: (consequent.textAt level ++
        ' ' :: 'e' :: 'l' :: 's' :: 'e' :: ' ' :: alternate.textAt level)) := by
  refine (textAt_mk hdata level _ _ rfl).trans ?_
  change chars {} (ifPieces (test.node.printed true) (consequent.node.printed true)
    (some (alternate.node.printed true)) level) = _
  simp [ifPieces, h, Piece.render, chars_parenthesized, textAt, htest.chars_pieces]

theorem textAt_whileLoop (body : Stmt) :
    (whileLoop data test body).textAt level
      = "while".toList ++ ' ' :: '(' :: (test.text {} ++ ')' :: ' ' :: body.textAt level) := by
  refine (textAt_mk hdata level _ _ rfl).trans ?_
  change chars {} (.text "while " :: (parenthesized ((test.node.printed true).pieces level) ++
    .text " " :: (body.node.printed true).statement level)) = _
  simp [Piece.render, chars_parenthesized, textAt, htest.chars_pieces]

theorem textAt_doWhile (body : Stmt) :
    (doWhile data body test).textAt level
      = "do".toList ++ ' ' :: (body.textAt level ++ ' ' :: 'w' :: 'h' :: 'i' :: 'l' :: 'e' :: ' ' ::
        '(' :: (test.text {} ++ [')', ';'])) := by
  have hpieces : ∀ b t : Printed, (layout [] .doWhileStatement (b, t, ())).pieces level
      = .text "do " :: (b.statement level ++ .text " while " ::
          (parenthesized (t.pieces level) ++ [.text ";"])) := fun _ _ => rfl
  refine (textAt_mk hdata level _ _ rfl).trans ((congrArg (chars {})
    (hpieces (body.node.printed true) (test.node.printed true))).trans ?_)
  simp [Piece.render, chars_parenthesized, textAt, htest.chars_pieces]

omit htest

theorem textAt_forever (body : Stmt) :
    (forever data body).textAt level
      = "for".toList ++ ' ' :: '(' :: ';' :: ';' :: ')' :: ' ' :: body.textAt level := by
  refine (textAt_mk hdata level _ _ rfl).trans ?_
  change chars {} (.text "for " :: (parenthesized [.text ";", .text ";"] ++
    .text " " :: (body.node.printed true).statement level)) = _
  simp [Piece.render, chars_parenthesized, textAt]

theorem textAt_forIn (left right : Ident) (body : Stmt) :
    (forIn data left right body).textAt level
      = "for".toList ++ ' ' :: '(' :: (left.name.toList ++ ' ' :: 'i' :: 'n' :: ' ' ::
        (right.name.toList ++ ')' :: ' ' :: body.textAt level)) := by
  have hpieces : ∀ l r b : Printed, (layout [] .forInStatement (l, r, b, ())).pieces level
      = .text "for " :: (parenthesized (l.inHead level ++ .text " in " :: r.pieces level) ++
          .text " " :: b.statement level) := fun _ _ _ => rfl
  have hleft : (left.node.printed true).inHead level = [.text left.name] := rfl
  refine (textAt_mk hdata level _ _ rfl).trans ((congrArg (chars {}) (hpieces
    (left.node.printed true) (right.node.printed true) (body.node.printed true))).trans ?_)
  simp [hleft, right.pieces_node, Piece.render, chars_parenthesized, textAt]

end text

end Stmt

end EsFront
