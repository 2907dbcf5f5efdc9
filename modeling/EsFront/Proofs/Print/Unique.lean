/-
Printed expressions are uniquely readable.

Each form of a plain expression is read back if its parts are (`reads_unary`,
`reads_join`, `reads_new` and so on), hence every plain expression is
(`Plain.reads`). So the printed text determines the expression, up to what it
does not show (`erase_eq_of_printExpression`).
-/
import EsFront.Proofs.Print.Plain
import EsFront.Proofs.Print.Reads

namespace EsFront

variable {options : PrintOptions} {e : Expr}

/-! ### Leaves -/

/-- An expression that is written as one word. -/
theorem reads_word {word : List Char} (htext : e.text options = word)
    (hchars : ∀ c ∈ word, isNameChar c = true) (hne : word ≠ [])
    (hkeyword : ∀ op : UnaryOperator, op.isKeyword = true → op.text.toList ≠ word)
    (hprimary : ∀ rest, Boundary rest → readPrimary (word ++ rest) = some (e.erase, rest)) :
    Reads options e := by
  subst htext
  refine Reads.of_primary ?_ (fun rest hrest => Leading.read?_word hchars hne hkeyword hrest)
    hprimary
  cases htext : e.text options with
  | nil => exact absurd htext hne
  | cons c cs => exact ⟨c, cs, rfl, by simp [opens, hchars c (htext ▸ List.mem_cons_self)]⟩

/-- A word that stands for the expression written so. -/
theorem reads_ofWord {word : List Char} (htext : e.text options = word)
    (hchars : ∀ c ∈ word, isNameChar c = true) (hstart : ∃ c ∈ word.head?, c.isDigit = false)
    (hnew : word ≠ "new".toList)
    (hkeyword : ∀ op : UnaryOperator, op.isKeyword = true → op.text.toList ≠ word)
    (herase : Expr.ofWord word = e.erase) : Reads options e := by
  have hne : word ≠ [] := by
    rintro rfl
    obtain ⟨c, hc, -⟩ := hstart
    cases hc
  exact reads_word htext hchars hne hkeyword fun rest hrest =>
    herase ▸ readPrimary_word hchars hstart hnew hrest

theorem IsName.toList_ne {name word : String} (h : IsName name) (hword : word ∈ reservedWords) :
    name.toList ≠ word.toList := by
  intro heq
  exact h.notReserved (String.toList_inj.1 heq ▸ hword)

theorem reads_identifier (data : NodeData) {name : String} (isBinder : Bool)
    (info : ResolutionInfo) (h : IsName name) :
    Reads options (Expr.identifier data name isBinder info) := by
  have hkeyword : ∀ op : UnaryOperator, op.isKeyword = true → op.text ∈ reservedWords := by
    intro op hop
    cases op <;> simp_all [UnaryOperator.isKeyword, UnaryOperator.text, reservedWords]
  refine reads_ofWord (Expr.text_identifier options data name isBinder info) h.chars h.start
    (h.toList_ne (by decide)) (fun op hop heq => h.toList_ne (hkeyword op hop) heq.symm) ?_
  rw [Expr.ofWord, if_neg (h.toList_ne (by decide)), if_neg (h.toList_ne (by decide)),
    if_neg (h.toList_ne (by decide)), if_neg (h.toList_ne (by decide)), Expr.name,
    String.ofList_toList]
  rfl

theorem reads_this (data : NodeData) : Reads options (Expr.this data) :=
  reads_ofWord (Expr.text_this options data) (List.all_eq_true.1 (by decide))
    ⟨'t', rfl, by decide⟩ (by decide)
    (by intro op _; cases op <;> decide) rfl

theorem reads_null (data : NodeData) : Reads options (Expr.literal data .null) :=
  reads_ofWord (Expr.text_literal options data .null) (List.all_eq_true.1 (by decide))
    ⟨'n', rfl, by decide⟩ (by decide) (by intro op _; cases op <;> decide) rfl

theorem reads_boolean (data : NodeData) (b : Bool) :
    Reads options (Expr.literal data (.boolean b)) := by
  cases b with
  | true =>
    exact reads_ofWord (Expr.text_literal options data (.boolean true))
      (List.all_eq_true.1 (by decide))
      ⟨'t', rfl, by decide⟩ (by decide) (by intro op _; cases op <;> decide) rfl
  | false =>
    exact reads_ofWord (Expr.text_literal options data (.boolean false))
      (List.all_eq_true.1 (by decide))
      ⟨'f', rfl, by decide⟩ (by decide) (by intro op _; cases op <;> decide) rfl

/-- An expression that starts with a bracket or a quote. -/
theorem reads_opening {c : Char} {cs : List Char} (htext : e.text options = c :: cs)
    (hc : c ∈ ['(', '[', '\x7b', '"'])
    (hprimary : ∀ rest, Boundary rest →
      readPrimary (e.text options ++ rest) = some (e.erase, rest)) : Reads options e := by
  have hopens : ∀ c ∈ ['(', '[', '\x7b', '"'], opens c = true := List.all_eq_true.1 (by decide)
  refine Reads.of_primary ⟨c, cs, htext, hopens c hc⟩ (fun rest _ => ?_) hprimary
  rw [htext]
  exact Leading.read?_of_opening _ hc

theorem readText_quote (s : String) (rest : List Char) :
    Expr.readText (s.toList.flatMap Json.escapeChar ++ '"' :: rest)
      = some (Expr.literal .blank (.string s), rest) := by
  rw [Expr.readText, Json.unquoteFrom_flatMap]
  simp

theorem text_string (data : NodeData) (s : String) :
    (Expr.literal data (.string s)).text options
      = '"' :: (s.toList.flatMap Json.escapeChar ++ ['"']) := by
  rw [Expr.text_literal]
  simp [literalText, Json.quote, Json.quoteChars]

theorem reads_string (data : NodeData) (s : String) :
    Reads options (Expr.literal data (.string s)) := by
  refine reads_opening (text_string data s) (by decide) fun rest _ => ?_
  rw [text_string, List.cons_append, List.append_assoc, List.singleton_append, readPrimary,
    readText_quote]
  rfl

theorem reads_number (data : NodeData) {d : Double} (h : d.IsNatural) :
    Reads options (Expr.literal data (.number d)) := by
  obtain ⟨digits, htext, hne, hdigits, hvalue⟩ := h.display_spec
  have htext' : (Expr.literal data (.number d)).text options = digits := by
    rw [Expr.text_literal, ← htext]
    rfl
  have hname : ∀ c ∈ digits, isNameChar c = true := fun c hc => by
    simp [isNameChar, Char.isAlphanum, hdigits c hc]
  have hletter : ∀ op : UnaryOperator, ∃ c ∈ op.text.toList, c.isDigit = false := by
    intro op
    cases op <;> exact ⟨_, List.mem_cons_self, by decide⟩
  refine reads_word htext' hname hne (fun op _ heq => ?_) fun rest hrest => ?_
  · obtain ⟨c, hc, hdigit⟩ := hletter op
    rw [hdigits c (heq ▸ hc)] at hdigit
    cases hdigit
  · rw [readPrimary_digits hdigits hne hrest, Expr.ofDigits?, hvalue]
    rfl

/-! ### Compound expressions -/

section compound

variable (data : NodeData)

theorem reads_array {elements : List (Option Expr)}
    (h : ∀ e, some e ∈ elements → Reads options e) :
    Reads options (Expr.array data elements) := by
  have htext := Expr.text_array options data elements
  refine reads_opening htext (by decide) fun rest _ => ?_
  rw [htext, List.cons_append, readPrimary, readElements_text elements h, Expr.erase_array]
  rfl

theorem sign_of_signClash {op : UnaryOperator} {p : Printed} (h : signClash op p = true) :
    op = .minus ∨ op = .plus := by
  simp only [signClash, Bool.and_eq_true, Bool.or_eq_true, decide_eq_true_eq] at h
  exact h.1

theorem signClash_of_front {op : UnaryOperator} {p : Printed} {c : Char}
    (hop : op = .minus ∨ op = .plus) (hc : op.text.toList = [c])
    (hfront : c ∈ p.front.toList.head?) : signClash op p = true := by
  cases hp : p.front.toList with
  | nil =>
    rw [hp] at hfront
    cases hfront
  | cons d cs =>
    rw [hp] at hfront
    cases hfront
    simp [signClash, hop, hc, hp]

/-- The operator in front of an operand is found again, because the printer
puts a blank between two signs that would make another one. -/
theorem leading_unary (op : UnaryOperator) {a : Expr} (h : Reads options a) (rest : List Char) :
    Leading.read? ((Expr.unary data op a).text options ++ rest)
      = some (.unary op, a.operandText options .unary ++ rest) := by
  rw [Expr.text_unary, List.append_assoc, List.append_assoc]
  cases hop : op.isKeyword with
  | true => exact Leading.read?_keyword hop _
  | false =>
    obtain ⟨c, cs, htext, hc⟩ :=
      h.start_bracketed (decide ((a.shown options).precedence < .unary))
    rw [Child.operandText_eq, htext, Bool.false_or]
    refine Leading.read?_sign hop ?_ (fun hclash hsign heq => ?_) sign_of_signClash
    · rintro rfl
      exact absurd hc (by decide)
    · -- Without a blank, the operand would start with the same sign.
      have hsigns : c = '+' ∨ c = '-' := by
        rcases hsign with rfl | rfl
        · exact .inr (List.cons.inj heq).1.symm
        · exact .inl (List.cons.inj heq).1.symm
      by_cases hprec : (a.shown options).precedence < .unary
      · rw [decide_eq_true hprec] at htext
        have hbracket : '(' = c := (List.cons.inj htext).1
        rcases hsigns with rfl | rfl
        all_goals exact absurd hbracket (by decide)
      · rw [decide_eq_false hprec] at htext
        have hfront := h.front (Nat.not_lt.1 hprec) c (by
          change c ∈ (bracketed false (a.text options)).head?
          rw [htext]
          rfl) hsigns
        rw [signClash_of_front hsign heq hfront] at hclash
        cases hclash

theorem reads_unary (op : UnaryOperator) {a : Expr} (h : Reads options a) :
    Reads options (Expr.unary data op a) := by
  have hop : op.text.toList ≠ [] := by cases op <;> decide
  have hopens : op.text.toList.head?.all opens = true := by cases op <;> decide
  refine Reads.of_leading rfl rfl hop ((Option.all_eq_true _ _).1 hopens)
    (Expr.text_unary options data op a) fun rest hrest => ?_
  have hread : readUnary (a.operandText options .unary ++ rest) = some (a.erase, rest) := by
    rw [Child.operandText_eq]
    exact h.unary_bracketed least_le hrest
  refine readUnary_of_unary (leading_unary data op h rest) ?_ hread
  rw [Expr.text_unary]
  have hlength := List.length_pos_of_ne_nil hop
  simp only [List.length_append]
  omega

theorem reads_update_before (op : UpdateOperator) {a : Expr} (h : Reads options a) :
    Reads options (Expr.update data op true a) := by
  have htext := Expr.text_update_before options data op a
  have hop : op.text.toList ≠ [] := by cases op <;> decide
  have hopens : op.text.toList.head?.all opens = true := by cases op <;> decide
  refine Reads.of_leading rfl rfl hop ((Option.all_eq_true _ _).1 hopens) htext fun rest hrest => ?_
  have hread : readChain true (a.operandText options .callMember ++ rest)
      = some (a.erase, rest) := by
    rw [Child.operandText_eq, h.chain_bracketed (fun hn => ⟨least_le hn, .inl rfl⟩) hrest.boundary,
      chainLoop_closed true hrest]
  rw [htext, List.append_assoc]
  refine readUnary_of_update (Leading.read?_update op _) ?_ hread
  have hlength := List.length_pos_of_ne_nil hop
  simp only [List.length_append]
  omega

theorem reads_update_after (op : UpdateOperator) {a : Expr} (h : Reads options a) :
    Reads options (Expr.update data op false a) := by
  have htext := Expr.text_update_after options data op a
  have hboundary : ∀ rest, Boundary (op.text.toList ++ rest) := by
    intro rest
    cases op <;> exact boundary_cons (by decide)
  -- the operand is chained, so no operator stands in front of it
  have hleading : ∀ rest, Leading.read?
      ((Expr.update data op false a).text options ++ rest) = none := by
    intro rest
    rw [htext, List.append_assoc, Child.operandText_eq]
    exact h.leading_bracketed (fun hn => Nat.le_trans (by decide) (least_le hn)) (hboundary rest)
  refine Reads.of_unary ?_ ?_ (fun _ rest _ => hleading rest) (fun hprec => ?_) fun rest hrest => ?_
  · obtain ⟨c, cs, hcs, hc⟩ :=
      h.start_bracketed (decide ((a.shown options).precedence < .callMember))
    rw [htext, Child.operandText_eq, hcs]
    exact ⟨c, _, rfl, hc⟩
  · exact fun c hc hsign =>
      absurd hsign (Reads.front_of_leading (fun rest _ => hleading rest) c hc)
  · exact absurd hprec (show ¬ Precedence.callMember ≤ .afterOperand by decide)
  · rw [readUnary, hleading rest, htext, List.append_assoc, Child.operandText_eq]
    simp only
    rw [h.chain_bracketed (fun hn => ⟨least_le hn, .inl rfl⟩) (hboundary rest), chainLoop_update]
    simp [trailing?_text]
    rfl

/-- How the levels of an operator between operands relate: the left operand may
bind as the operator does, the right one only where nothing can follow. -/
theorem Joint.levels (joint : Joint) :
    .assignment ≤ joint.precedence ∧ joint.precedence < .unary ∧
      joint.precedence ≤ joint.left ∧ .conditional < joint.left ∧
      .assignment ≤ joint.right ∧ joint.precedence ≤ joint.right ∧
      (joint.precedence < joint.right ∨ joint.precedence ≤ .conditional) ∧
      (joint.right ≤ .conditional → joint.precedence ≤ .conditional) := by
  rcases joint with op | op | op
  all_goals cases op <;> decide

theorem reads_join (joint : Joint) {left right : Expr} (hleft : Reads options left)
    (hright : Reads options right) : Reads options (joint.join data left right) := by
  have htext := joint.text_join options data left right
  have hprec := joint.precedence_join options data left right
  obtain ⟨hassignment, hunary, hpl, hcl, har, hpr, hnext, hlow⟩ := joint.levels
  refine Reads.of_binary ?_ (hprec ▸ hunary) (hprec ▸ hassignment) ?_
  · obtain ⟨c, cs, hcs, hc⟩ :=
      hleft.start_bracketed (decide ((left.shown options).precedence < joint.left))
    rw [htext, Child.operandText_eq, hcs]
    exact ⟨c, _, rfl, hc⟩
  · rw [hprec]
    intro least rest hleast hclosed hfollow hlowest
    -- the right operand is read where nothing that binds as tightly can follow
    have hread : readBinary joint.right (right.operandText options joint.right ++ rest)
        = some (right.erase, rest) := by
      rw [Child.operandText_eq, hright.binary_bracketed (fun hn => ?_) hclosed]
      · refine binaryLoop_stop ?_
        rcases hnext with hlt | hle
        · exact Nat.lt_of_le_of_lt hfollow hlt
        · rw [hlowest hle]
          exact Nat.lt_of_lt_of_le (by decide) har
      · have := least_le hn
        exact ⟨Nat.le_trans har this, this, Nat.le_trans hfollow (Nat.le_trans hpr this),
          fun h => hlowest (hlow (Nat.le_trans this h))⟩
    have hlength := (List.suffix_append (right.operandText options joint.right) rest).length_le
    rw [htext, List.append_assoc, List.cons_append, List.append_assoc, List.cons_append,
      Child.operandText_eq, hleft.binary_bracketed (fun hn => ?_) (closed_cons (by decide)),
      binaryLoop_text joint hleast hread hlength, joint.erase_join]
    have := least_le hn
    rw [follow_text]
    exact ⟨Nat.le_trans hassignment (Nat.le_trans hpl this),
      Nat.le_trans hleast (Nat.le_trans hpl this), Nat.le_trans hpl this, fun h => absurd h (Nat.not_le.2 (Nat.lt_of_lt_of_le hcl this))⟩

theorem reads_conditional {test consequent alternate : Expr} (htest : Reads options test)
    (hconsequent : Reads options consequent) (halternate : Reads options alternate) :
    Reads options (Expr.conditional data test consequent alternate) := by
  have htext := Expr.text_conditional options data test consequent alternate
  refine Reads.of_binary ?_ (show Precedence.conditional < .unary by decide)
    (show Precedence.assignment ≤ .conditional by decide) ?_
  · obtain ⟨c, cs, hcs, hc⟩ :=
      htest.start_bracketed (decide ((test.shown options).precedence < .logicalOr))
    rw [htext, Child.operandText_eq, hcs]
    exact ⟨c, _, rfl, hc⟩
  · intro least rest hleast hclosed _ hlowest
    change least ≤ .conditional at hleast
    have hfollow : follow rest = .lowest := hlowest (Nat.le_refl _)
    -- the consequent ends at the colon, the alternate where the whole ends
    have hsecond := hconsequent.item (closed_cons (c := ' ') (by decide))
      (follow_colon (' ' :: (alternate.operandText options .assignment ++ rest)))
    have hthird := halternate.item hclosed hfollow
    rw [htext]
    simp only [List.append_assoc, List.cons_append]
    rw [Child.operandText_eq options .logicalOr,
      htest.binary_bracketed (fun hn => ?_) (closed_cons (by decide)),
      binaryLoop_question hleast hsecond hthird]
    · rfl
    · simp only [List.length_append, List.length_cons]
      omega
    · simp only [List.length_append, List.length_cons]
      omega
    · have := least_le hn
      rw [follow_question]
      exact ⟨Nat.le_trans (by decide) this, Nat.le_trans hleast (Nat.le_trans (by decide) this),
        Nat.le_trans (by decide) this,
        fun h => absurd h (Nat.not_le.2 (Nat.lt_of_lt_of_le (by decide) this))⟩

theorem reads_call {callee : Expr} {arguments : List Expr} (hcallee : Reads options callee)
    (h : ∀ a ∈ arguments, Reads options a) : Reads options (Expr.call data callee arguments) := by
  refine hcallee.of_chained (Expr.text_call options data callee arguments)
    least_le ⟨'(', _, rfl, by decide⟩
    (fun hcall => by cases hcall) fun calls rest hcall _ => ?_
  obtain rfl | hcall := hcall
  · rw [Expr.erase_call, Expr.argumentsText, List.cons_append, List.append_assoc,
      List.singleton_append]
    refine chainLoop_call (readArguments_text arguments h rest) ?_
    simp only [List.length_append, List.length_cons]
    omega
  · cases hcall

theorem reads_named (key : NodeData) {object : Expr} {name : String} (isBinder : Bool)
    (info : ResolutionInfo) (hobject : Reads options object) (h : IsName name) :
    Reads options (Expr.access data false object (Expr.identifier key name isBinder info)) := by
  have htext := Expr.text_named options data object (Expr.identifier key name isBinder info)
  have hkey : Child.operandText options .primary (Expr.identifier key name isBinder info)
      = name.toList := Expr.text_identifier options key name isBinder info
  rw [hkey] at htext
  refine hobject.of_chained htext (fun hn => ?_) ⟨'.', _, rfl, by decide⟩ id
    fun calls rest _ hrest => ?_
  · exact least_le (Bool.or_eq_false_iff.1 hn).2
  · rw [List.cons_append, chainLoop_named calls h.chars hrest, Expr.name, String.ofList_toList]
    rfl

theorem reads_computed {object key : Expr} (hobject : Reads options object)
    (hkey : Reads options key) : Reads options (Expr.access data true object key) := by
  refine hobject.of_chained (Expr.text_computed options data object key)
    least_le ⟨'[', _, rfl, by decide⟩ id
    fun calls rest _ _ => ?_
  have hread := hkey.sequence (']' :: rest) (closed_cons (by decide)) (by
    intro c hc
    cases hc
    decide)
  rw [List.cons_append, List.append_assoc, List.singleton_append, chainLoop_computed calls hread]
  · rfl
  · simp only [List.length_append, List.length_cons]
    omega

theorem reads_new {callee : Expr} {arguments : List Expr} (hcallee : Reads options callee)
    (h : ∀ a ∈ arguments, Reads options a) : Reads options (Expr.new data callee arguments) := by
  have htext := Expr.text_new options data callee arguments
  refine Reads.of_primary ⟨'n', _, htext, by decide⟩ (fun rest _ => ?_) fun rest _ => ?_
  · rw [htext]
    exact Leading.read?_new _
  · have hchain : readChain false (bracketed ((callee.shown options).containsCall ||
        decide ((callee.shown options).precedence < .callMember)) (callee.text options) ++
          (Expr.argumentsText options arguments ++ rest))
        = chainLoop false callee.erase (Expr.argumentsText options arguments ++ rest) := by
      refine hcallee.chain_bracketed (fun hn => ?_) (boundary_cons (by decide))
      rw [Bool.or_eq_false_iff] at hn
      exact ⟨least_le hn.2, .inr hn.1⟩
    rw [Expr.argumentsText, List.cons_append, List.append_assoc, List.singleton_append,
      chainLoop_arguments] at hchain
    rw [htext, Expr.erase_new]
    simp only [List.cons_append, List.append_assoc, Expr.argumentsText]
    refine readPrimary_new hchain ?_ (readArguments_text arguments h rest)
    simp only [List.length_append, List.length_cons]
    omega

theorem reads_sequence {first second : Expr} {more : List Expr}
    (h : ∀ e ∈ first :: second :: more, Reads options e) :
    Reads options (Expr.sequence data (first :: second :: more)) := by
  have htext := Expr.text_sequence options data (first :: second :: more)
  have hprec : ∀ {least : Precedence}, .assignment ≤ least → ¬ least ≤ .sequence :=
    fun h => Nat.not_le.2 (Nat.lt_of_lt_of_le (by decide) h)
  refine ⟨?_, fun h => absurd h (hprec (by decide)), fun h => absurd h (hprec (by decide)),
    fun h => absurd h (hprec (by decide)), fun h => absurd h (hprec (by decide)),
    fun h => absurd h (hprec (by decide)), fun rest hclosed hrest => ?_⟩
  · obtain ⟨c, cs, hcs, hc⟩ := (h first List.mem_cons_self).start_bracketed
      (decide ((first.shown options).precedence < .assignment))
    rw [← Child.operandText_eq] at hcs
    obtain ⟨after, hafter⟩ :=
      commaText_start ((second :: more).map (·.operandText options .assignment)) hcs
    exact ⟨c, after, htext.trans hafter, hc⟩
  · rw [htext, readSequence, readList_text (first :: second :: more) (by simp) h hclosed hrest,
      Expr.erase_sequence]
    rfl

/-! ### Objects -/

/-- How a key is written. -/
def keyText (options : PrintOptions) (computed : Bool) (key : Expr) : List Char :=
  if computed then '[' :: (key.operandText options .assignment ++ [']'])
  else key.operandText options .primary

theorem readKey_keyText {computed : Bool} {key : Expr} (hkey : computed = false → IsKey key)
    (h : Reads options key) (rest : List Char) :
    readKey (keyText options computed key ++ ':' :: rest)
      = some ((computed, key.erase), ':' :: rest) := by
  cases computed with
  | true =>
    have hread := h.item (closed_cons (by decide)) (follow_bracket (':' :: rest))
    rw [keyText, if_pos rfl, List.cons_append, List.append_assoc, List.singleton_append, readKey,
      hread]
    simp
  | false =>
    rw [keyText, if_neg (by decide)]
    cases hkey rfl with
    | @name kdata name isBinder info hname =>
      have htext : Child.operandText options .primary (Expr.identifier kdata name isBinder info)
          = name.toList := Expr.text_identifier options kdata name isBinder info
      have hne : name.toList ≠ [] := by
        obtain ⟨c, hc, -⟩ := hname.start
        intro hnil
        rw [hnil] at hc
        cases hc
      rw [htext, readKey_name hname.chars hne (boundary_cons (by decide)), Expr.name,
        String.ofList_toList]
      rfl
    | text kdata s =>
      have htext : Child.operandText options .primary (Expr.literal kdata (.string s))
          = '"' :: (s.toList.flatMap Json.escapeChar ++ ['"']) := text_string kdata s
      rw [htext, List.cons_append, List.append_assoc, List.singleton_append, readKey,
        readText_quote]
      rfl

theorem readMember_text {m : Member} (hkey : m.computed = false → IsKey m.key)
    (h : Reads options m.key) (hvalue : Reads options m.value) {rest : List Char}
    (hclosed : Closed rest) (hfollow : follow rest = .lowest) :
    readMember (m.child.text options ++ rest) = some (m.child.erase, rest) := by
  have htext : m.child.text options = keyText options m.computed m.key ++
      ':' :: ' ' :: m.value.operandText options .assignment :=
    Expr.text_member options m.data m.computed m.key m.value
  rw [htext, List.append_assoc, List.cons_append, List.cons_append, readMember,
    readKey_keyText hkey h]
  simp only [Option.bind_eq_bind, Option.bind_some, expect_cons]
  rw [if_pos, hvalue.item hclosed hfollow]
  · rfl
  · simp only [List.length_append, List.length_cons]
    omega

theorem readMembers_text (members : List Member) (hne : members ≠ [])
    (hkey : ∀ m ∈ members, m.computed = false → IsKey m.key)
    (h : ∀ m ∈ members, Reads options m.key) (hvalue : ∀ m ∈ members, Reads options m.value)
    (rest : List Char) :
    readMembers (commaText (members.map (·.child.text options)) ++ ' ' :: '\x7d' :: rest)
      = some (members.map (·.child.erase), rest) := by
  match members with
  | [m] =>
    exact readMembers_last (readMember_text (hkey m List.mem_cons_self) (h m List.mem_cons_self)
      (hvalue m List.mem_cons_self) (closed_cons (by decide)) (follow_brace rest))
  | m :: next :: members =>
    have ih := readMembers_text (next :: members) (by simp)
      (fun m hm => hkey m (List.mem_cons_of_mem _ hm))
      (fun m hm => h m (List.mem_cons_of_mem _ hm))
      (fun m hm => hvalue m (List.mem_cons_of_mem _ hm)) rest
    rw [List.map_cons, List.map_cons, commaText, List.append_assoc, List.cons_append,
      List.cons_append]
    exact readMembers_more (readMember_text (hkey m List.mem_cons_self) (h m List.mem_cons_self)
      (hvalue m List.mem_cons_self) (closed_cons (by decide)) (follow_comma _))
      (length_lt_of_comma _ _) ih

theorem reads_object {members : List Member}
    (hkey : ∀ m ∈ members, m.computed = false → IsKey m.key)
    (h : ∀ m ∈ members, Reads options m.key) (hvalue : ∀ m ∈ members, Reads options m.value) :
    Reads options (Expr.object data (members.map Member.child)) := by
  have htext := Expr.text_object options data (members.map Member.child)
  refine reads_opening htext (by decide) fun rest _ => ?_
  rw [htext, List.isEmpty_map, List.map_map, Expr.erase_object, List.map_map]
  cases members with
  | nil =>
    rw [List.isEmpty_nil, if_pos rfl, List.cons_append, List.singleton_append, readPrimary]
    rfl
  | cons m members =>
    have hread := readMembers_text (m :: members) (by simp) hkey h hvalue rest
    rw [List.isEmpty_cons, if_neg (by decide), List.cons_append, List.cons_append,
      List.append_assoc]
    exact readPrimary_object hread

end compound

/-! ### Every plain expression -/

/-- **Reading back.** The text of a plain expression is read as that
expression. -/
theorem Plain.reads (options : PrintOptions) (h : Plain e) : Reads options e := by
  induction h with
  | identifier data isBinder info h => exact reads_identifier data isBinder info h
  | @literal data value h =>
    cases value with
    | null => exact reads_null data
    | boolean b => exact reads_boolean data b
    | string s => exact reads_string data s
    | number d => exact reads_number data (of_decide_eq_true h)
    | regExp pattern flags => cases h
  | this data => exact reads_this data
  | array data _ ih => exact reads_array data ih
  | object data hkey _ _ ihkey ihvalue => exact reads_object data hkey ihkey ihvalue
  | unary data op _ ih => exact reads_unary data op ih
  | update data op before _ ih =>
    cases before with
    | true => exact reads_update_before data op ih
    | false => exact reads_update_after data op ih
  | join data joint _ _ ihleft ihright => exact reads_join data joint ihleft ihright
  | conditional data _ _ _ ihtest ihconsequent ihalternate =>
    exact reads_conditional data ihtest ihconsequent ihalternate
  | call data _ _ ihcallee ih => exact reads_call data ihcallee ih
  | new data _ _ ihcallee ih => exact reads_new data ihcallee ih
  | named data key isBinder info _ hname ih => exact reads_named data key isBinder info ih hname
  | computed data _ _ ihobject ihkey => exact reads_computed data ihobject ihkey
  | sequence data _ ih => exact reads_sequence data ih

/-- The reader takes the printed text of a plain expression back to the
expression without what the text does not show. -/
theorem readSequence_printExpression (options : PrintOptions)
    (h : ∀ any ∈ e.node.nodes, any.isPlain = true) :
    readSequence (e.node.printExpression options).toList = some (e.erase, []) := by
  have hread := ((plain_of_nodes e h).reads options).sequence [] closed_nil (by
    intro c hc
    cases hc)
  rw [List.append_nil] at hread
  exact hread

/-- **Unique readability.** Two plain expressions with the same printed text are
the same tree, the data of nodes, marks of binders and results of resolution
apart. -/
theorem erase_eq_of_printExpression (options : PrintOptions) (e₁ e₂ : Expr)
    (h₁ : ∀ any ∈ e₁.node.nodes, any.isPlain = true) (h₂ : ∀ any ∈ e₂.node.nodes, any.isPlain = true)
    (htext : e₁.node.printExpression options = e₂.node.printExpression options) :
    e₁.erase = e₂.erase := by
  have hread₁ := readSequence_printExpression options h₁
  have hread₂ := readSequence_printExpression options h₂
  rw [htext, hread₂] at hread₁
  exact (congrArg Prod.fst (Option.some.inj hread₁)).symm

/-- `new (f(x).g)(- -1, [, a])` with the given data and marks in all its nodes. -/
def nestedNew (data : NodeData) (isBinder : Bool) (info : ResolutionInfo) : Expr :=
  .new data
    (.access data false
      (.call data (.identifier data "f" isBinder info) [.identifier data "x" isBinder info])
      (.identifier data "g" isBinder info))
    [.unary data .minus (.unary data .minus (.literal data (.number (.one false)))),
      .array data [none, some (.identifier data "a" isBinder info)]]

theorem nestedNew_erase :
    (∀ any ∈ (nestedNew .blank false .unresolved).node.nodes, any.isPlain = true) ∧
    (∀ any ∈ (nestedNew ⟨7, none, none, [], []⟩ true ⟨some 3, some 1⟩).node.nodes,
      any.isPlain = true) ∧
    (nestedNew .blank false .unresolved).node.printExpression {} = "new (f(x).g)(- -1, [, a])" ∧
    (nestedNew ⟨7, none, none, [], []⟩ true ⟨some 3, some 1⟩).node.printExpression {}
      = "new (f(x).g)(- -1, [, a])" ∧
    (nestedNew .blank false .unresolved).erase
      = (nestedNew ⟨7, none, none, [], []⟩ true ⟨some 3, some 1⟩).erase :=
  ⟨by decide +kernel, by decide +kernel, by decide +kernel, by decide +kernel,
    erase_eq_of_printExpression {} _ _ (by decide +kernel) (by decide +kernel)
      (by decide +kernel)⟩

/-- The sign of a zero cannot be told from an operator in front of it, so a
natural number must not have one. -/
example :
    (Expr.literal .blank (.number (.zero true))).node.printExpression {}
      = (Expr.unary .blank .minus (Expr.literal .blank (.number (.zero false)))).node.printExpression
          {} := by
  decide +kernel

end EsFront
