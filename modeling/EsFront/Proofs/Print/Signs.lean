/-
Signs and the text behind them.

A sign in front of a text that begins with the same sign is read as a decrement or an
increment. The printer looks at the argument of a sign and puts a blank between the two
when the argument is a sign, a decrement, an increment or a literal itself. It does not
look at what stands at the left end of a longer argument.

* `LeftEnd` — the name or literal at the left end of an expression, when only calls and
  member accesses stand behind it;
* `Fuses` — the arguments that a sign fuses with.

Main statement: `unary_doubles_iff` — two signs meet for exactly these arguments.
-/
import EsFront.Proofs.Print.Text

namespace EsFront

/-- The operators that are signs. -/
inductive Sign where
  | minus
  | plus

namespace Sign

def operator : Sign → UnaryOperator
  | minus => .minus
  | plus => .plus

def char : Sign → Char
  | minus => '-'
  | plus => '+'

theorem text_operator (sign : Sign) : sign.operator.text.toList = [sign.char] := by
  cases sign <;> simp [operator, UnaryOperator.text, char]

theorem isKeyword_operator (sign : Sign) : sign.operator.isKeyword = false := by
  cases sign <;> rfl

end Sign

/-! ### The left end of an expression -/

/-- An expression that is one text: a name, or a literal as it is written. -/
inductive Leaf : Expr → String → Prop where
  | name (data : NodeData) (name : String) (isBinder : Bool) (info : ResolutionInfo) :
      Leaf (.identifier data name isBinder info) name
  | literal (data : NodeData) (value : LiteralValue) (raw : Option String) :
      Leaf ⟨_, .mk data (.literal value raw) .nil, rfl⟩ (literalText value raw)

/-- Whether a node is the literal of a number. -/
def AnyNode.isNumber : AnyNode → Bool
  | ⟨_, .mk _ form _⟩ => match form with
    | .literal (.number _) _ => true
    | _ => false

/-- The text at the left end of an expression, behind which only calls and member
accesses stand. A number in front of a point stands in brackets. -/
inductive LeftEnd : Expr → String → Prop where
  | leaf {e : Expr} {text : String} (h : Leaf e text) : LeftEnd e text
  | call (data : NodeData) {callee : Expr} (arguments : List Expr) {text : String}
      (h : LeftEnd callee text) : LeftEnd (.call data callee arguments) text
  | named (data : NodeData) {object : Expr} (key : Expr) {text : String}
      (hnumber : object.toAny.isNumber = false) (h : LeftEnd object text) :
      LeftEnd (.access data false object key) text
  | computed (data : NodeData) {object : Expr} (key : Expr) {text : String}
      (h : LeftEnd object text) : LeftEnd (.access data true object key) text

/-- The arguments with which a sign fuses. -/
inductive Fuses (sign : Sign) : Expr → Prop where
  /-- The sign is at the left end of an argument that is no literal itself. -/
  | chain {a : Expr} {text : String} (h : LeftEnd a text) (hkind : a.kind ≠ .literal)
      (hsign : sign.char ∈ text.toList.head?) : Fuses sign a
  /-- The same in front of an increment or decrement. -/
  | update (data : NodeData) (op : UpdateOperator) {a : Expr} {text : String}
      (h : LeftEnd a text) (hsign : sign.char ∈ text.toList.head?) :
      Fuses sign (.update data op false a)
  /-- Nothing at all is in front of the increment or decrement. -/
  | nothing (data : NodeData) (op : UpdateOperator) {a : Expr} (h : Leaf a "")
      (hsign : sign.char ∈ op.text.toList.head?) : Fuses sign (.update data op false a)

/-- A text that begins, and not with a sign. -/
def Unsigned (cs : List Char) : Prop := ∃ c ∈ cs.head?, c ≠ '-' ∧ c ≠ '+'

namespace Unsigned

variable {cs : List Char} {c : Char}

theorem cons (cs : List Char) (h : c ≠ '-' ∧ c ≠ '+') : Unsigned (c :: cs) := ⟨c, rfl, h⟩

theorem append (h : Unsigned cs) (rest : List Char) : Unsigned (cs ++ rest) := by
  obtain ⟨c, hc, hne⟩ := h
  refine ⟨c, ?_, hne⟩
  rw [List.head?_append, Option.mem_def.mp hc]
  rfl

theorem ne_nil (h : Unsigned cs) : cs ≠ [] := by
  rintro rfl
  obtain ⟨c, hc, -⟩ := h
  cases hc

theorem not_mem (h : Unsigned cs) (sign : Sign) : sign.char ∉ cs.head? := by
  obtain ⟨c, hc, hminus, hplus⟩ := h
  intro hsign
  have heq : c = sign.char := Option.mem_unique hc hsign
  cases sign
  · exact hminus heq
  · exact hplus heq

end Unsigned

section text

variable {options : PrintOptions} {e : Expr} {text : String}

theorem Leaf.text_eq (h : Leaf e text) : e.text options = text.toList := by
  cases h with
  | name data _ isBinder info => exact Expr.text_identifier options data text isBinder info
  | literal data value raw =>
    change chars options [.text (literalText value raw)] = _
    simp [Piece.render]

theorem Leaf.precedence (h : Leaf e text) : (e.shown options).precedence = .primary := by
  cases h <;> rfl

theorem operandText_of_le {least : Precedence} (h : least ≤ (e.shown options).precedence) :
    e.operandText options least = e.text options := by
  rw [Child.operandText_eq, decide_eq_false (Nat.not_lt.mpr h)]
  rfl

theorem isNumber_shown (options : PrintOptions) (e : Expr) :
    (e.shown options).isNumber = e.toAny.isNumber := by
  obtain ⟨kind, node, accepted⟩ := e
  obtain ⟨data, form, fields⟩ := node
  cases form with
  | literal value raw =>
    cases fields
    cases value <;> rfl
  | _ => rfl

theorem text_named_of_le {data : NodeData} {object key : Expr}
    (hnumber : object.toAny.isNumber = false)
    (h : .callMember ≤ (object.shown options).precedence) :
    (Expr.access data false object key).text options
      = object.text options ++ '.' :: key.operandText options .primary := by
  rw [Expr.text_named, isNumber_shown, hnumber, decide_eq_false (Nat.not_lt.mpr h)]
  rfl

/-- An expression with a left end is not put in brackets, and what follows its left end
is no sign. -/
theorem LeftEnd.spec (options : PrintOptions) (h : LeftEnd e text) :
    .callMember ≤ (e.shown options).precedence ∧
    ∃ rest, (Leaf e text ∧ rest = [] ∨ Unsigned rest) ∧ e.text options = text.toList ++ rest := by
  have hbehind : ∀ {part : Expr} {rest more : List Char},
      Leaf part text ∧ rest = [] ∨ Unsigned rest → Unsigned more → Unsigned (rest ++ more) := by
    intro part rest more hrest hmore
    rcases hrest with ⟨-, rfl⟩ | hrest
    · exact hmore
    · exact hrest.append more
  -- each link of the chain is put behind the text of its object, and begins with no sign
  induction h with
  | leaf h =>
    refine ⟨?_, [], .inl ⟨h, rfl⟩, ?_⟩
    · rw [h.precedence]
      decide
    · rw [h.text_eq, List.append_nil]
  | call data arguments _ ih =>
    obtain ⟨hle, rest, hrest, htext⟩ := ih hbehind
    refine ⟨le_rfl, rest ++ Expr.argumentsText options arguments,
      .inr (hbehind hrest (.cons _ (by decide))), ?_⟩
    rw [Expr.text_call, operandText_of_le hle, htext, List.append_assoc]
  | named data key hnumber _ ih =>
    obtain ⟨hle, rest, hrest, htext⟩ := ih hbehind
    refine ⟨le_rfl, rest ++ '.' :: key.operandText options .primary,
      .inr (hbehind hrest (.cons _ (by decide))), ?_⟩
    rw [text_named_of_le hnumber hle, htext, List.append_assoc]
  | computed data key _ ih =>
    obtain ⟨hle, rest, hrest, htext⟩ := ih hbehind
    refine ⟨le_rfl, rest ++ '[' :: (key.text options ++ [']']),
      .inr (hbehind hrest (.cons _ (by decide))), ?_⟩
    rw [Expr.text_computed, operandText_of_le hle, htext, List.append_assoc]

/-- A part at the start of a text: the text has a left end if the part has one and is not
put in brackets, and begins without a sign otherwise. -/
theorem exists_leftEnd_of_part {part : Expr} {needed : Bool} {more : List Char}
    (htext : e.text options = bracketed needed (part.text options) ++ more)
    (hleft : needed = false → ∀ text, LeftEnd part text → LeftEnd e text)
    (hpart : needed = false → (∃ text, LeftEnd part text) ∨ Unsigned (part.text options)) :
    (∃ text, LeftEnd e text) ∨ Unsigned (e.text options) := by
  rw [htext]
  cases needed with
  | true => exact .inr (.cons _ (by decide))
  | false =>
    rcases hpart rfl with ⟨text, h⟩ | h
    · exact .inl ⟨text, hleft rfl text h⟩
    · exact .inr (h.append more)

/-- An expression that binds as tightly as a call has a left end, or begins without a
sign. -/
theorem exists_leftEnd (e : Expr) (h : .callMember ≤ (e.shown options).precedence) :
    (∃ text, LeftEnd e text) ∨ Unsigned (e.text options) := by
  -- Every proper part of the expression has fewer nodes.
  induction hn : e.node.nodes.length using Nat.strongRecOn generalizing e with
  | _ n ih =>
    subst hn
    obtain ⟨kind, node, accepted⟩ := e
    obtain ⟨data, form, fields⟩ := node
    have hchild : ∀ c : Expr, c.toAny ∈ fields.children →
        .callMember ≤ (c.shown options).precedence →
          (∃ text, LeftEnd c text) ∨ Unsigned (c.text options) := fun c hc hle =>
      ih _ (Node.length_nodes_of_child hc) c hle rfl
    cases form with
    | identifier name isBinder info =>
      cases fields
      exact .inl ⟨name, .leaf (.name data name isBinder info)⟩
    | literal value raw =>
      cases fields
      exact .inl ⟨_, .leaf (.literal data value raw)⟩
    | thisExpression =>
      cases fields
      refine .inr ?_
      change Unsigned ((Expr.this data).text options)
      rw [Expr.text_this]
      exact .cons _ (by decide)
    | arrayExpression =>
      rcases fields with _ | ⟨elements, fields⟩
      cases fields
      obtain ⟨elements, rfl⟩ := Field.exists_sparse elements
      refine .inr ?_
      change Unsigned ((Expr.array data elements).text options)
      rw [Expr.text_array]
      exact .cons _ (by decide)
    | objectExpression =>
      obtain ⟨members, rfl⟩ := Fields.exists_list fields
      refine .inr ?_
      change Unsigned ((Expr.object data members).text options)
      rw [Expr.text_object]
      exact .cons _ (by decide)
    | functionExpression generator =>
      rcases fields with _ | ⟨id, fields⟩
      obtain _ | ⟨params, fields⟩ := fields
      obtain _ | ⟨body, fields⟩ := fields
      cases fields
      refine .inr ?_
      change Unsigned (chars options (functionPieces generator _ _ _ 0))
      rw [functionPieces, chars_cons]
      refine Unsigned.append ⟨'f', ?_, by decide⟩ _
      cases generator <;> simp [Piece.render]
    | callExpression =>
      obtain ⟨callee, arguments, rfl⟩ := Fields.exists_one_list fields
      exact exists_leftEnd_of_part (Expr.text_call options data callee arguments)
        (fun _ text => .call data arguments)
        fun hneeded => hchild callee List.mem_cons_self (least_le hneeded)
    | newExpression =>
      obtain ⟨callee, arguments, rfl⟩ := Fields.exists_one_list fields
      refine .inr ?_
      change Unsigned ((Expr.new data callee arguments).text options)
      rw [Expr.text_new]
      exact .cons _ (by decide)
    | memberExpression computed =>
      obtain ⟨object, key, rfl⟩ := Fields.exists_two fields
      cases computed with
      | true =>
        exact exists_leftEnd_of_part (Expr.text_computed options data object key)
          (fun _ text => .computed data key)
          fun hneeded => hchild object List.mem_cons_self (least_le hneeded)
      | false =>
        refine exists_leftEnd_of_part (Expr.text_named options data object key)
          (fun hneeded text => .named data key ?_) fun hneeded => ?_
        · rw [← isNumber_shown options]
          exact (Bool.or_eq_false_iff.mp hneeded).1
        · exact hchild object List.mem_cons_self (least_le (Bool.or_eq_false_iff.mp hneeded).2)
    | unaryExpression => exact absurd h (by decide : ¬ Precedence.callMember ≤ .unary)
    | updateExpression op before =>
      cases before with
      | true => exact absurd h (by decide : ¬ Precedence.callMember ≤ .unary)
      | false => exact absurd h (by decide : ¬ Precedence.callMember ≤ .afterOperand)
    | binaryExpression op =>
      exact absurd h (by cases op <;> decide : ¬ Precedence.callMember ≤ op.precedence)
    | logicalExpression op =>
      exact absurd h (by cases op <;> decide : ¬ Precedence.callMember ≤ op.precedence)
    | assignmentExpression => exact absurd h (by decide : ¬ Precedence.callMember ≤ .assignment)
    | conditionalExpression => exact absurd h (by decide : ¬ Precedence.callMember ≤ .conditional)
    | sequenceExpression => exact absurd h (by decide : ¬ Precedence.callMember ≤ .sequence)
    | _ => cases accepted

end text

/-! ### Signs that fuse -/

section signs

variable {options : PrintOptions} {sign : Sign}

/-- The sign that an expression with a left end begins with is there. -/
theorem LeftEnd.sign_mem {e : Expr} {text : String} (h : LeftEnd e text)
    (hsign : sign.char ∈ (e.text options).head?) : sign.char ∈ text.toList.head? := by
  obtain ⟨-, rest, hrest, htext⟩ := h.spec options
  rw [htext, List.head?_append] at hsign
  cases hhead : text.toList.head? with
  | some c => rwa [hhead] at hsign
  | none =>
    rw [hhead, Option.none_or] at hsign
    rcases hrest with ⟨-, rfl⟩ | hrest
    · cases hsign
    · exact absurd hsign (hrest.not_mem sign)

theorem leaf_of_text_nil {e : Expr} (h : .callMember ≤ (e.shown options).precedence)
    (hnil : e.text options = []) : Leaf e "" := by
  rcases exists_leftEnd e h with ⟨text, hleft⟩ | hunsigned
  · obtain ⟨-, rest, hrest, htext⟩ := hleft.spec options
    obtain ⟨hempty, rfl⟩ := List.append_eq_nil_iff.mp (htext.symm.trans hnil)
    rcases hrest with ⟨hleaf, -⟩ | hrest
    · rwa [String.toList_eq_nil_iff.mp hempty] at hleaf
    · exact absurd rfl hrest.ne_nil
  · exact absurd hnil hunsigned.ne_nil

/-- A blank is put in front of a sign that the argument is known to begin with. -/
theorem signClash_eq (p : Printed) :
    signClash sign.operator p = decide (sign.char ∈ p.front.toList.head?) := by
  unfold signClash
  rw [sign.text_operator]
  have hsign : (decide (sign.operator = .minus) || decide (sign.operator = .plus)) = true := by
    cases sign <;> rfl
  rw [hsign, Bool.true_and]
  cases p.front.toList with
  | nil => simp
  | cons c cs => simp [List.isPrefixOf, eq_comm, beq_eq_decide]

/-- What a literal begins with, as far as it is a sign, is known. -/
theorem literalFront_head {value : LiteralValue} {raw : Option String}
    (h : sign.char ∈ (literalText value raw).toList.head?) :
    sign.char ∈ (literalFront value raw).toList.head? := by
  cases raw with
  | some text => exact h
  | none =>
    cases value with
    -- the only sign in a displayed number is its own
    | number d =>
      change sign.char ∈ d.display.toList.head? at h
      change sign.char ∈ (if d.negative then "-" else "").toList.head?
      rcases d.display_chars _ (List.mem_of_mem_head? h) with hsign | hsign
      · rw [hsign.1, hsign.2]
        simp
      · exact absurd hsign (by cases sign <;> decide)
    | null => cases sign <;> revert h <;> decide
    | boolean b => cases sign <;> cases b <;> revert h <;> decide
    | string s =>
      have hquote : (literalText (.string s) none).toList = Json.quoteChars s.toList :=
        String.toList_ofList
      rw [hquote] at h
      cases sign <;> cases h
    | regExp pattern flags =>
      simp only [literalText, String.toList_append] at h
      cases sign <;> cases h

/-- Two signs meet if no blank is put between them. -/
theorem doubles_iff (data : NodeData) (a : Expr) :
    [sign.char, sign.char] <+: (Expr.unary data sign.operator a).text options ↔
      sign.char ∉ (a.shown options).front.toList.head? ∧
        sign.char ∈ (a.operandText options .unary).head? := by
  rw [Expr.text_unary, sign.text_operator, sign.isKeyword_operator, Bool.false_or, signClash_eq,
    List.singleton_append, List.cons_prefix_cons]
  by_cases hclash : sign.char ∈ (a.shown options).front.toList.head?
  · have hblank : sign.char ≠ ' ' := by cases sign <;> decide
    simp [hclash, hblank]
  · simp only [hclash, decide_false, Bool.false_eq_true, if_false, List.nil_append, true_and,
      not_false_eq_true]
    cases a.operandText options .unary with
    | nil => simp
    | cons c cs => simp [eq_comm]

/-- An argument of a sign is a sign, an increment or a decrement, or binds as tightly as a
call, if it is not put in brackets. -/
theorem argument_cases (a : Expr) (h : .unary ≤ (a.shown options).precedence) :
    .callMember ≤ (a.shown options).precedence ∨ (∃ data op b, a = .unary data op b) ∨
      ∃ data op before b, a = .update data op before b := by
  obtain ⟨kind, node, accepted⟩ := a
  obtain ⟨data, form, fields⟩ := node
  cases form with
  | unaryExpression op =>
    obtain ⟨b, rfl⟩ := Fields.exists_one fields
    exact .inr (.inl ⟨data, op, b, rfl⟩)
  | updateExpression op before =>
    obtain ⟨b, rfl⟩ := Fields.exists_one fields
    exact .inr (.inr ⟨data, op, before, b, rfl⟩)
  | binaryExpression op =>
    exact absurd h (by cases op <;> decide : ¬ Precedence.unary ≤ op.precedence)
  | logicalExpression op =>
    exact absurd h (by cases op <;> decide : ¬ Precedence.unary ≤ op.precedence)
  | assignmentExpression => exact absurd h (by decide : ¬ Precedence.unary ≤ .assignment)
  | conditionalExpression => exact absurd h (by decide : ¬ Precedence.unary ≤ .conditional)
  | sequenceExpression => exact absurd h (by decide : ¬ Precedence.unary ≤ .sequence)
  | callExpression | newExpression | memberExpression => exact .inl le_rfl
  | _ => exact .inl (by decide : Precedence.callMember ≤ .primary)

theorem front_of_leftEnd {e : Expr} {text : String} (h : LeftEnd e text)
    (hkind : e.kind ≠ .literal) : (e.shown options).front = "" := by
  cases h with
  | leaf h =>
    cases h with
    | name => rfl
    | literal => exact absurd rfl hkind
  | call | named | computed => rfl

/-- Brackets keep a sign away. -/
theorem le_of_sign_mem (sign : Sign) {a : Expr} {least : Precedence} (more : List Char)
    (h : sign.char ∈ (a.operandText options least ++ more).head?) :
    least ≤ (a.shown options).precedence := by
  by_contra hlt
  rw [Child.operandText_eq, decide_eq_true (Nat.lt_of_not_le hlt)] at h
  exact (Unsigned.cons _ (by decide)).not_mem sign h

theorem exists_leftEnd_of_sign {a : Expr} (h : .callMember ≤ (a.shown options).precedence)
    (hsign : sign.char ∈ (a.text options).head?) :
    ∃ text, LeftEnd a text ∧ sign.char ∈ text.toList.head? := by
  rcases exists_leftEnd a h with ⟨text, hleft⟩ | hunsigned
  · exact ⟨text, hleft, hleft.sign_mem hsign⟩
  · exact absurd hsign (hunsigned.not_mem sign)

/-- An increment or decrement that begins with a sign fuses with it. -/
theorem fuses_update {data : NodeData} {op : UpdateOperator} {a : Expr}
    (hsign : sign.char ∈ ((Expr.update data op false a).text options).head?) :
    Fuses sign (.update data op false a) := by
  rw [Expr.text_update_after] at hsign
  have hle := le_of_sign_mem sign _ hsign
  rw [operandText_of_le hle] at hsign
  cases htext : a.text options with
  | nil =>
    rw [htext, List.nil_append] at hsign
    exact .nothing data op (leaf_of_text_nil hle htext) hsign
  | cons c cs =>
    have hc : sign.char ∈ (a.text options).head? := by rwa [htext] at hsign ⊢
    obtain ⟨text, hleft, hmem⟩ := exists_leftEnd_of_sign hle hc
    exact .update data op hleft hmem

/-- An argument that is known not to begin with the sign fuses with it if it does. -/
theorem fuses_of_operand {a : Expr} (hfront : sign.char ∉ (a.shown options).front.toList.head?)
    (hsign : sign.char ∈ (a.operandText options .unary).head?) : Fuses sign a := by
  have hle : .unary ≤ (a.shown options).precedence :=
    le_of_sign_mem sign [] (by rwa [List.append_nil])
  rw [operandText_of_le hle] at hsign
  rcases argument_cases a hle with hle | ⟨data, op, b, rfl⟩ | ⟨data, op, before, b, rfl⟩
  · obtain ⟨text, hleft, hmem⟩ := exists_leftEnd_of_sign hle hsign
    refine .chain hleft (fun hkind => ?_) hmem
    cases hleft with
    | leaf h =>
      cases h with
      | name => cases hkind
      | literal => exact hfront (literalFront_head hmem)
    | call | named | computed => cases hkind
  · -- a sign, before which a blank would be
    rw [Expr.text_unary, List.head?_append_of_ne_nil _ (by cases op <;> decide)] at hsign
    exact absurd hsign hfront
  · cases before with
    | true =>
      rw [Expr.text_update_before, List.head?_append_of_ne_nil _ (by cases op <;> decide)] at hsign
      exact absurd hsign hfront
    | false => exact fuses_update hsign

/-- An argument that fuses begins with the sign, and is not known to do so. -/
theorem Fuses.operand {a : Expr} (h : Fuses sign a) :
    sign.char ∉ (a.shown options).front.toList.head? ∧
      sign.char ∈ (a.operandText options .unary).head? := by
  have hempty : sign.char ∉ "".toList.head? := by simp
  have hunary : Precedence.unary ≤ .callMember := by decide
  have hafter : Precedence.unary ≤ .afterOperand := by decide
  -- in each case the printer takes the argument to begin with no sign
  cases h with
  | @chain a text h hkind hsign =>
    obtain ⟨hle, rest, -, htext⟩ := h.spec options
    rw [front_of_leftEnd h hkind, operandText_of_le (hunary.trans hle), htext,
      List.head?_append, Option.mem_def.mp hsign]
    exact ⟨hempty, rfl⟩
  | @update data op a text h hsign =>
    obtain ⟨hle, rest, -, htext⟩ := h.spec options
    rw [operandText_of_le hafter, Expr.text_update_after, operandText_of_le hle, htext,
      List.append_assoc, List.head?_append, Option.mem_def.mp hsign]
    exact ⟨hempty, rfl⟩
  | @nothing data op a h hsign =>
    have hle : .callMember ≤ (a.shown options).precedence := by
      rw [h.precedence]
      decide
    rw [operandText_of_le hafter, Expr.text_update_after, operandText_of_le hle, h.text_eq,
      String.toList_empty, List.nil_append]
    exact ⟨hempty, hsign⟩

end signs

/-- **Signs that meet.** A sign in front of an argument is written as two of them exactly
if the same sign is at the left end of the argument where the printer does not look for
it: behind it a call, a member access, an increment or a decrement follows. -/
theorem unary_doubles_iff (options : PrintOptions) (sign : Sign) (data : NodeData) (a : Expr) :
    [sign.char, sign.char] <+:
        ((Expr.unary data sign.operator a).node.printExpression options).toList ↔
      Fuses sign a := by
  change [sign.char, sign.char] <+: (Expr.unary data sign.operator a).text options ↔ _
  rw [doubles_iff]
  exact ⟨fun h => fuses_of_operand h.1 h.2, Fuses.operand⟩

/-- The literal `-1`. -/
def minusOne : Expr := .literal .blank (.number (.one true))

/-- The first element of it, `-1[0]`. -/
def minusOneElement : Expr := .access .blank true minusOne (.literal .blank (.number (.zero false)))

/-- The signs of `- -1` are kept apart, those of `--1[0]` are read as a decrement. -/
theorem minusOneElement_doubles :
    (Expr.unary .blank .minus minusOne).node.printExpression {} = "- -1" ∧
    (Expr.unary .blank .minus minusOneElement).node.printExpression {} = "--1[0]" ∧
    ['-', '-'] <+: ((Expr.unary .blank .minus minusOneElement).node.printExpression {}).toList :=
  ⟨by decide +kernel, by decide +kernel, by decide +kernel⟩

end EsFront
