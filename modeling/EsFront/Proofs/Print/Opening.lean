/-
How the text of an expression begins.

A statement that begins with the word `function` is read as a declaration, and one
that begins with a brace as a block, so an expression whose text begins so is put in
brackets there.

* `Misleads` — a text that begins so;
* `Printed.Guarded` — an expression whose text begins so only if it says that it does;
* `guarded_layout` — every form of expression is guarded if its parts are.

Main statement: `not_misleads_statement` — the text of an expression statement never
begins so, if no name and no text of a literal does.
-/
import EsFront.Proofs.Print.Fold
import EsFront.Proofs.Print.Statement

namespace EsFront

/-! ### Misleading texts -/

/-- A text that is read as a block or as the declaration of a function where a
statement begins. -/
def Misleads (cs : List Char) : Prop := ['\x7b'] <+: cs ∨ "function".toList <+: cs

instance (cs : List Char) : Decidable (Misleads cs) := inferInstanceAs (Decidable (_ ∨ _))

/-- The characters that make a text misleading. -/
def misleading : List Char := '\x7b' :: "function".toList

/-- A word at the start of a text ends before any character that it does not have. -/
theorem prefix_of_append {word cs rest : List Char} (h : word <+: cs ++ rest)
    (hrest : ∀ c ∈ rest.head?, c ∉ word) : word <+: cs := by
  cases rest with
  | nil => rwa [List.append_nil] at h
  | cons c rest =>
    have hc : c ∉ word := hrest c rfl
    have hcut : cs ++ [c] <+: cs ++ c :: rest := ⟨rest, by simp⟩
    rcases List.prefix_or_prefix_of_prefix h hcut with hword | hword
    · rcases List.prefix_concat_iff.mp hword with rfl | hword
      · exact absurd (by simp) hc
      · exact hword
    · exact absurd (hword.subset (by simp)) hc

namespace Misleads

variable {cs rest : List Char} {c : Char}

theorem of_append (h : Misleads (cs ++ rest)) (hrest : ∀ c ∈ rest.head?, c ∉ misleading) :
    Misleads cs := by
  rcases h with h | h
  · exact .inl (prefix_of_append h fun c hc hmem =>
      hrest c hc (List.mem_singleton.mp hmem ▸ List.mem_cons_self))
  · exact .inr (prefix_of_append h fun c hc hmem => hrest c hc (List.mem_cons_of_mem _ hmem))

theorem head (h : Misleads (c :: cs)) : c = '\x7b' ∨ c = 'f' := by
  rcases h with h | h
  · exact .inl (List.cons_prefix_cons.mp h).1.symm
  · exact .inr (List.cons_prefix_cons.mp h).1.symm

end Misleads

/-- A literal that is written by its value alone does not mislead. -/
theorem not_misleads_value (value : LiteralValue) :
    ¬ Misleads (literalText value none).toList := by
  cases value with
  | null => decide
  | boolean b => cases b <;> decide
  | number d =>
    change ¬ Misleads d.display.toList
    cases htext : d.display.toList with
    | nil => decide
    | cons c cs =>
      intro h
      have hc : c = '-' ∨ c.isDigit = true ∨ c = '.' :=
        (d.display_chars c (htext ▸ List.mem_cons_self)).imp_left And.left
      rcases h.head with rfl | rfl
      · revert hc
        decide
      · revert hc
        decide
  | string s =>
    intro h
    have hquote : (literalText (.string s) none).toList = Json.quoteChars s.toList :=
      String.toList_ofList
    rw [hquote] at h
    exact absurd h.head (by decide)
  | regExp pattern flags =>
    intro h
    simp only [literalText, String.toList_append] at h
    exact absurd h.head (by decide)

/-! ### Guarded expressions -/

section guarded

variable (options : PrintOptions)

/-- An expression whose text misleads only if it says so. -/
def Printed.Guarded (p : Printed) : Prop :=
  ∀ level, Misleads (chars options (p.pieces level)) → p.opensStatement = true

variable {options} {p : Printed} {pieces more : List Piece} {piece : Piece} {level : Nat}

/-- What misleads does so before any piece that starts with an unrelated character. -/
theorem Misleads.before (h : Misleads (chars options (pieces ++ piece :: more)))
    (hpiece : ∃ c ∈ (piece.render options).toList.head?, c ∉ misleading) :
    Misleads (chars options pieces) := by
  obtain ⟨c, hc, hmem⟩ := hpiece
  rw [chars_append, chars_cons] at h
  refine h.of_append fun c' hc' => ?_
  rw [List.head?_append, Option.mem_def.mp hc, Option.some_or, Option.mem_some_iff] at hc'
  exact hc' ▸ hmem

theorem not_misleads_parenthesized : ¬ Misleads (chars options (parenthesized pieces)) := by
  rw [chars_parenthesized]
  intro h
  exact absurd h.head (by decide)

namespace Printed.Guarded

theorem operand (h : p.Guarded options) {least : Precedence}
    (hoperand : Misleads (chars options (p.operand least level))) : p.opensStatement = true := by
  unfold Printed.operand at hoperand
  split at hoperand
  · exact absurd hoperand not_misleads_parenthesized
  · exact h level hoperand

/-- An operand at the start of a text, up to a piece that cannot belong to what
misleads. -/
theorem operand_before (h : p.Guarded options) {least : Precedence}
    (hpieces : Misleads (chars options (p.operand least level ++ piece :: more)))
    (hpiece : ∃ c ∈ (piece.render options).toList.head?, c ∉ misleading) :
    p.opensStatement = true :=
  h.operand (hpieces.before hpiece)

/-- A text that starts with a piece that does not mislead needs no guard. -/
theorem of_piece (h : ∀ level, ∃ piece more, p.pieces level = piece :: more ∧
    ∃ c ∈ (piece.render options).toList.head?, c ≠ '\x7b' ∧ c ≠ 'f') : p.Guarded options := by
  intro level hpieces
  obtain ⟨piece, more, heq, c, hc, hne⟩ := h level
  obtain ⟨cs, hcs⟩ := List.head?_eq_some_iff.mp hc
  rw [heq, chars_cons, hcs] at hpieces
  exact absurd hpieces.head (not_or.mpr hne)

end Printed.Guarded

theorem opensStatement_of_memberPieces {computed : Bool} {object property : Printed}
    (h : object.Guarded options)
    (hpieces : Misleads (chars options (memberPieces computed object property level))) :
    object.opensStatement = true := by
  -- a bracket or a point follows the object
  have hobject : Misleads (chars options (if object.isNumber && !computed then
      parenthesized (object.pieces level) else object.operand .callMember level)) := by
    unfold memberPieces at hpieces
    simp only at hpieces
    split at hpieces
    · exact hpieces.before ⟨'[', by simp [Piece.render, Bracket.openingText], by decide⟩
    · exact hpieces.before ⟨'.', by simp [Piece.render], by decide⟩
  split at hobject
  · exact absurd hobject not_misleads_parenthesized
  · exact h.operand hobject

/-- A sequence misleads as its first expression does. -/
theorem opensStatement_of_sequence {expressions : List Printed}
    (h : ∀ p ∈ expressions, p.Guarded options)
    (hpieces : Misleads (chars options (commaSeparated
      (expressions.map (·.operand .assignment level))))) :
    (match expressions with
      | first :: _ => first.opensStatement
      | [] => false) = true := by
  cases expressions with
  | nil =>
    rw [List.map_nil, commaSeparated, List.intercalate_nil, chars_nil] at hpieces
    exact absurd hpieces (by decide)
  | cons first rest =>
    have hfirst := h first List.mem_cons_self
    cases rest with
    | nil =>
      rw [List.map_cons, List.map_nil, commaSeparated, List.intercalate_singleton] at hpieces
      exact hfirst.operand hpieces
    | cons second rest =>
      rw [List.map_cons, List.map_cons, commaSeparated, List.intercalate_cons_cons,
        List.append_assoc, List.singleton_append] at hpieces
      exact hfirst.operand_before hpieces ⟨',', by simp [Piece.render], by decide⟩

/-- The text that a node carries with it: the name of an identifier, or the text that a
literal is given. -/
def Form.ownText? {kind : NodeKind} {slots : List Slot} : Form kind slots → Option String
  | .identifier name _ _ => some name
  | .literal _ raw => raw
  | _ => none

def AnyNode.ownText? : AnyNode → Option String
  | ⟨_, .mk _ form _⟩ => form.ownText?

/-- The text of an expression misleads only if it says so, if this holds of its parts
and the text that it carries does not mislead. -/
theorem guarded_layout {kind : NodeKind} {slots : List Slot} (comments : List Comment)
    (form : Form kind slots) (hkind : kind.isExpression = true)
    (hform : ∀ text ∈ form.ownText?, ¬ Misleads text.toList) (values : Values Printed slots)
    (h : Values.All (fun slot p => slot.holds = .expression → p.Guarded options) slots values) :
    (layout comments form values).Guarded options := by
  -- what comes first is a text of the form itself, or that of its first part
  cases form with
  | identifier name isBinder info =>
    intro level htext
    have htext : Misleads name.toList := by
      simpa [layout, expression, Piece.render] using htext
    exact absurd htext (hform name rfl)
  | literal value raw =>
    intro level htext
    have htext : Misleads (literalText value raw).toList := by
      simpa [layout, expression, Piece.render] using htext
    cases raw with
    | none => exact absurd htext (not_misleads_value value)
    | some raw => exact absurd htext (hform raw rfl)
  | thisExpression =>
    exact .of_piece fun level => ⟨_, _, rfl, 't', by simp [Piece.render], by decide⟩
  | arrayExpression =>
    obtain ⟨elements, ⟨⟩⟩ := values
    exact .of_piece fun level => ⟨_, _, rfl, '[', by simp [Piece.render, Bracket.openingText],
      by decide⟩
  | objectExpression => exact fun _ _ => rfl
  | functionExpression generator => exact fun _ _ => rfl
  | unaryExpression op =>
    obtain ⟨argument, ⟨⟩⟩ := values
    refine .of_piece fun level => ⟨_, _, rfl, ?_⟩
    split
    · cases op <;> simp [Piece.render, UnaryOperator.text]
    · cases op <;> simp [Piece.render, UnaryOperator.text]
  | updateExpression op before =>
    obtain ⟨argument, ⟨⟩⟩ := values
    cases before with
    | true =>
      refine .of_piece fun level => ⟨_, _, rfl, ?_⟩
      cases op <;> simp [Piece.render, UpdateOperator.text]
    | false =>
      intro level hpieces
      have hargument : argument.Guarded options := h.1 rfl
      refine hargument.operand_before hpieces ?_
      cases op <;> simp [Piece.render, UpdateOperator.text, misleading]
  | binaryExpression op =>
    obtain ⟨left, right, ⟨⟩⟩ := values
    intro level hpieces
    exact (h.1 rfl).operand_before hpieces ⟨' ', by simp [Piece.render], by decide⟩
  | logicalExpression op =>
    obtain ⟨left, right, ⟨⟩⟩ := values
    intro level hpieces
    exact (h.1 rfl).operand_before hpieces ⟨' ', by simp [Piece.render], by decide⟩
  | assignmentExpression op =>
    obtain ⟨left, right, ⟨⟩⟩ := values
    intro level hpieces
    exact (h.1 rfl).operand_before hpieces ⟨' ', by simp [Piece.render], by decide⟩
  | conditionalExpression =>
    obtain ⟨test, consequent, alternate, ⟨⟩⟩ := values
    intro level hpieces
    exact (h.1 rfl).operand_before hpieces ⟨' ', by simp [Piece.render], by decide⟩
  | callExpression =>
    obtain ⟨callee, arguments, ⟨⟩⟩ := values
    intro level hpieces
    exact (h.1 rfl).operand_before hpieces
      ⟨'(', by simp [Piece.render, Bracket.openingText], by decide⟩
  | newExpression =>
    obtain ⟨callee, arguments, ⟨⟩⟩ := values
    exact .of_piece fun level => ⟨_, _, rfl, 'n', by simp [Piece.render], by decide⟩
  | memberExpression computed =>
    obtain ⟨object, property, ⟨⟩⟩ := values
    intro level hpieces
    change object.opensStatement = true
    exact opensStatement_of_memberPieces (h.1 rfl) hpieces
  | sequenceExpression =>
    obtain ⟨expressions, ⟨⟩⟩ := values
    intro level hpieces
    have hparts : ∀ p ∈ expressions, p.Guarded options := fun p hp => h.1 p hp rfl
    exact opensStatement_of_sequence hparts hpieces
  | _ => cases hkind

end guarded

/-! ### Expression statements -/

/-- An expression without a misleading name or text is guarded. -/
theorem Expr.guarded (options : PrintOptions) (e : Expr)
    (h : ∀ any ∈ e.node.nodes, ∀ text ∈ any.ownText?, ¬ Misleads text.toList) :
    (e.node.printed options.preserveComments).Guarded options := by
  refine Node.fold_induction (P := fun any (p : Printed) => any.kind.isExpression = true →
    (∀ x ∈ any.node.nodes, ∀ text ∈ x.ownText?, ¬ Misleads text.toList) →
      p.Guarded options) ?_ e.node e.accepted h
  intro kind slots data form fields ih hkind hnodes
  refine guarded_layout _ form hkind (hnodes _ (Node.self_mem_nodes _)) _
    (ih.imp fun slot p hp hslot => ?_)
  obtain ⟨any, hany, haccepts, hguarded⟩ := hp
  rw [hslot] at haccepts
  exact hguarded haccepts fun x hx => hnodes x (Node.mem_nodes_of_child hany hx)

/-- **Expression statements are not misread.** An expression in which no name and no
text of a literal misleads has a misleading text only if it says so. As a statement
without comments it is therefore never read as a block or a declaration. -/
theorem not_misleads_statement (options : PrintOptions) (e : Expr)
    (h : ∀ any ∈ e.node.nodes, ∀ text ∈ any.ownText?, ¬ Misleads text.toList) :
    (Misleads (e.node.printExpression options).toList →
      (e.node.printed options.preserveComments).opensStatement = true) ∧
    ∀ data : NodeData, data.comments = [] → ∀ level, ¬ Misleads (render options
      (((Stmt.expression data e).node.printed
        options.preserveComments).statement level)).toList := by
  have hguarded := e.guarded options h
  refine ⟨hguarded 0, fun data hdata level hstatement => ?_⟩
  have hpieces : ((Stmt.expression data e).node.printed options.preserveComments).statement level
      = (if (e.node.printed options.preserveComments).opensStatement then
          parenthesized ((e.node.printed options.preserveComments).pieces level)
        else (e.node.printed options.preserveComments).pieces level) ++ [.text ";"] := by
    change (if options.preserveComments then data.comments else []).flatMap _ ++ _ = _
    rw [hdata, ite_self, List.flatMap_nil, List.nil_append]
    rfl
  rw [hpieces] at hstatement
  have hbegin := Misleads.before hstatement ⟨';', by simp [Piece.render], by decide⟩
  split at hbegin
  · exact not_misleads_parenthesized hbegin
  · next hopens => exact hopens (hguarded level hbegin)

/-- `function() {}.x(y)`, which as a statement would be read as a declaration. -/
def calledMember : Expr :=
  let name (text : String) : Expr := .identifier .blank text false .unresolved
  let function : Expr := ⟨_, .mk .blank (.functionExpression false) (.cons .absent (.cons .nil
    (.cons (.one (Stmt.block .blank []).node rfl) .nil))), rfl⟩
  .call .blank (.access .blank false function (name "x")) [name "y"]

theorem calledMember_not_misleads :
    calledMember.node.printExpression {} = "function() \x7b\x7d.x(y)" ∧
    (calledMember.node.printed true).opensStatement = true ∧
    render {} (((Stmt.expression .blank calledMember).node.printed true).statement 0)
      = "(function() \x7b\x7d.x(y));" ∧
    ¬ Misleads (render {}
      (((Stmt.expression .blank calledMember).node.printed true).statement 0)).toList := by
  obtain ⟨hopens, hstatement⟩ := not_misleads_statement {} calledMember (by decide +kernel)
  exact ⟨by decide +kernel, hopens (by decide +kernel), by decide +kernel,
    hstatement .blank rfl 0⟩

end EsFront
