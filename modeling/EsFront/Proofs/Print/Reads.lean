/-
What it means that a printed expression is read back.

`Reads` says what each function of the reader makes of the text of an
expression, whatever comes after it as long as it does not go on with the
expression. A form of some precedence has to be read by the function for that
precedence; what the functions for the lower ones make of it follows
(`Reads.of_chain`, `Reads.of_unary`, `Reads.of_binary`). Operands
(`Reads.chain_bracketed` and its like) and lists (`readList_text`) are read by
what is known of their parts.
-/
import EsFront.Proofs.Print.Reading

namespace EsFront

variable {options : PrintOptions} {e : Expr}

/-- The characters with which an expression can start. -/
def opens (c : Char) : Bool :=
  isNameChar c || c ∈ ['(', '[', '\x7b', '"', '+', '-', '!', '~']

/-- The text of an expression is read as that expression, up to what a text
does not show. -/
structure Reads (options : PrintOptions) (e : Expr) : Prop where
  start : ∃ c cs, e.text options = c :: cs ∧ opens c = true
  /-- A sign at the very front is known to the printer. -/
  front : .unary ≤ (e.shown options).precedence → ∀ c ∈ (e.text options).head?,
    c = '+' ∨ c = '-' → c ∈ (e.shown options).front.toList.head?
  leading : .afterOperand ≤ (e.shown options).precedence → ∀ rest, Boundary rest →
    Leading.read? (e.text options ++ rest) = none
  chain : .callMember ≤ (e.shown options).precedence → ∀ calls rest,
    (calls = true ∨ (e.shown options).containsCall = false) → Boundary rest →
      readChain calls (e.text options ++ rest) = chainLoop calls e.erase rest
  unary : .unary ≤ (e.shown options).precedence → ∀ rest, Closed rest →
    readUnary (e.text options ++ rest) = some (e.erase, rest)
  binary : .assignment ≤ (e.shown options).precedence → ∀ least rest,
    least ≤ (e.shown options).precedence → Closed rest →
      follow rest ≤ (e.shown options).precedence →
        ((e.shown options).precedence ≤ .conditional → follow rest = .lowest) →
          readBinary least (e.text options ++ rest) = binaryLoop least e.erase rest
  sequence : ∀ rest, Closed rest → (∀ c ∈ rest.head?, c ≠ ' ' ∧ c ≠ ',') →
    readSequence (e.text options ++ rest) = some (e.erase, rest)

/-! ### From one precedence to the lower ones -/

section steps

variable {cs rest : List Char} {found : Expr}

theorem readUnary_of_chain (hleading : Leading.read? cs = none)
    (hchain : readChain true cs = chainLoop true found rest) (hrest : Closed rest) :
    readUnary cs = some (found, rest) := by
  rw [readUnary, hleading]
  simp [hchain, chainLoop_closed true hrest, trailing?_closed hrest]

/-- An operator in front of an operand. -/
theorem readUnary_of_unary {op : UnaryOperator} {after : List Char}
    (hleading : Leading.read? cs = some (.unary op, after)) (hlength : after.length < cs.length)
    (h : readUnary after = some (found, rest)) :
    readUnary cs = some (.unary .blank op found, rest) := by
  rw [readUnary, hleading]
  simp [hlength, h]

theorem readUnary_of_update {op : UpdateOperator} {after : List Char}
    (hleading : Leading.read? cs = some (.update op, after)) (hlength : after.length < cs.length)
    (h : readChain true after = some (found, rest)) :
    readUnary cs = some (.update .blank op true found, rest) := by
  rw [readUnary, hleading]
  simp [hlength, h]

theorem readBinary_of_unary (least : Precedence) (h : readUnary cs = some (found, rest))
    (hlength : rest.length ≤ cs.length) :
    readBinary least cs = binaryLoop least found rest := by
  rw [readBinary, h]
  exact if_pos hlength

/-- A list of one expression is that expression. -/
theorem readSequence_of_binary (h : readBinary .assignment cs = some (found, rest))
    (hrest : ∀ c ∈ rest.head?, c ≠ ' ' ∧ c ≠ ',') : readSequence cs = some (found, rest) := by
  have hlist : readList cs = some ([found], rest) := by
    rw [readList, h]
    cases rest with
    | nil => rfl
    | cons c rest =>
      have hc := (hrest c rfl).2
      simp [hc]
  rw [readSequence, hlist]
  rfl

end steps

namespace Reads

/-- A form that is read as an operand of operators. -/
theorem of_binary (hstart : ∃ c cs, e.text options = c :: cs ∧ opens c = true)
    (hprec : (e.shown options).precedence < .unary)
    (hleast : .assignment ≤ (e.shown options).precedence)
    (hbinary : ∀ least rest, least ≤ (e.shown options).precedence → Closed rest →
      follow rest ≤ (e.shown options).precedence →
        ((e.shown options).precedence ≤ .conditional → follow rest = .lowest) →
          readBinary least (e.text options ++ rest) = binaryLoop least e.erase rest) :
    Reads options e where
  start := hstart
  front h := absurd hprec (Nat.not_lt.2 h)
  leading h := absurd (Nat.lt_of_lt_of_le hprec (by decide)) (Nat.not_lt.2 h)
  chain h := absurd (Nat.lt_of_lt_of_le hprec (by decide)) (Nat.not_lt.2 h)
  unary h := absurd hprec (Nat.not_lt.2 h)
  binary _ := hbinary
  sequence rest hclosed hrest := by
    have hfollow : follow rest = .lowest := follow_of_not_blank fun c hc => (hrest c hc).1
    refine readSequence_of_binary ?_ hrest
    rw [hbinary .assignment rest hleast hclosed (hfollow ▸ Nat.zero_le _) fun _ => hfollow]
    exact binaryLoop_stop (hfollow ▸ by decide)

/-- A form that is read as an operand of operators in front. -/
theorem of_unary (hstart : ∃ c cs, e.text options = c :: cs ∧ opens c = true)
    (hfront : ∀ c ∈ (e.text options).head?,
      c = '+' ∨ c = '-' → c ∈ (e.shown options).front.toList.head?)
    (hleading : .afterOperand ≤ (e.shown options).precedence → ∀ rest, Boundary rest →
      Leading.read? (e.text options ++ rest) = none)
    (hchain : .callMember ≤ (e.shown options).precedence → ∀ calls rest,
      (calls = true ∨ (e.shown options).containsCall = false) → Boundary rest →
        readChain calls (e.text options ++ rest) = chainLoop calls e.erase rest)
    (hunary : ∀ rest, Closed rest → readUnary (e.text options ++ rest) = some (e.erase, rest)) :
    Reads options e where
  start := hstart
  front _ := hfront
  leading := hleading
  chain := hchain
  unary _ := hunary
  binary _ least rest _ hclosed _ _ :=
    readBinary_of_unary least (hunary rest hclosed) (List.suffix_append _ rest).length_le
  sequence rest hclosed hrest := by
    have hfollow : follow rest = .lowest := follow_of_not_blank fun c hc => (hrest c hc).1
    refine readSequence_of_binary ?_ hrest
    rw [readBinary_of_unary .assignment (hunary rest hclosed)
      (List.suffix_append _ rest).length_le]
    exact binaryLoop_stop (hfollow ▸ by decide)

/-- A text that does not start with an operator does not start with a sign. -/
theorem front_of_leading
    (h : ∀ rest, Boundary rest → Leading.read? (e.text options ++ rest) = none) :
    ∀ c ∈ (e.text options).head?, ¬ (c = '+' ∨ c = '-') := by
  intro c hc hsign
  have hnone := h [] boundary_nil
  rw [List.append_nil] at hnone
  cases htext : e.text options with
  | nil =>
    rw [htext] at hc
    cases hc
  | cons d cs =>
    rw [htext] at hc hnone
    cases hc
    exact Leading.read?_ne_none hsign hnone

/-- A form with an operator in front. -/
theorem of_leading (hprec : (e.shown options).precedence = .unary) {op cs : List Char}
    (hop : (e.shown options).front.toList = op) (hne : op ≠ [])
    (hopens : ∀ c ∈ op.head?, opens c = true) (htext : e.text options = op ++ cs)
    (hunary : ∀ rest, Closed rest → readUnary (e.text options ++ rest) = some (e.erase, rest)) :
    Reads options e := by
  cases op with
  | nil => exact absurd rfl hne
  | cons c op =>
    refine of_unary ⟨c, op ++ cs, htext, hopens c rfl⟩ (fun d hd _ => ?_) (fun h => ?_) (fun h => ?_)
      hunary
    · rw [htext] at hd
      rw [hop]
      exact hd
    · rw [hprec] at h
      exact absurd h (by decide)
    · rw [hprec] at h
      exact absurd h (by decide)

/-- A form that other things can be chained to. -/
theorem of_chain (hstart : ∃ c cs, e.text options = c :: cs ∧ opens c = true)
    (hleading : ∀ rest, Boundary rest → Leading.read? (e.text options ++ rest) = none)
    (hchain : ∀ calls rest, (calls = true ∨ (e.shown options).containsCall = false) →
      Boundary rest → readChain calls (e.text options ++ rest) = chainLoop calls e.erase rest) :
    Reads options e :=
  of_unary hstart (fun c hc hsign => absurd hsign (front_of_leading hleading c hc))
    (fun _ => hleading) (fun _ => hchain) fun rest hrest =>
      readUnary_of_chain (hleading rest hrest.boundary)
        (hchain true rest (.inl rfl) hrest.boundary) hrest

/-- A form that stands for itself. -/
theorem of_primary (hstart : ∃ c cs, e.text options = c :: cs ∧ opens c = true)
    (hleading : ∀ rest, Boundary rest → Leading.read? (e.text options ++ rest) = none)
    (hprimary : ∀ rest, Boundary rest →
      readPrimary (e.text options ++ rest) = some (e.erase, rest)) : Reads options e := by
  refine of_chain hstart hleading fun calls rest _ hrest => ?_
  rw [readChain, hprimary rest hrest]
  exact if_pos (List.suffix_append _ rest).length_le

/-! ### Operands in brackets or without -/

section operands

variable {needed calls : Bool} {rest : List Char}

theorem primary_bracketed (h : Reads options e) (rest : List Char) :
    readPrimary ('(' :: (e.text options ++ [')']) ++ rest) = some (e.erase, rest) := by
  have hread := h.sequence (')' :: rest) (closed_cons (by decide)) (by
    intro c hc
    cases hc
    decide)
  rw [List.cons_append, List.append_assoc, List.singleton_append, readPrimary, hread]
  simp

theorem chain_bracketed (h : Reads options e)
    (hneeded : needed = false → .callMember ≤ (e.shown options).precedence ∧
      (calls = true ∨ (e.shown options).containsCall = false))
    (hrest : Boundary rest) :
    readChain calls (bracketed needed (e.text options) ++ rest) = chainLoop calls e.erase rest := by
  cases needed with
  | true =>
    rw [bracketed, if_pos rfl, readChain, h.primary_bracketed]
    exact if_pos (List.suffix_append _ rest).length_le
  | false => exact h.chain (hneeded rfl).1 calls rest (hneeded rfl).2 hrest

theorem leading_bracketed (h : Reads options e)
    (hneeded : needed = false → .afterOperand ≤ (e.shown options).precedence)
    (hrest : Boundary rest) :
    Leading.read? (bracketed needed (e.text options) ++ rest) = none := by
  cases needed with
  | true => exact Leading.read?_of_opening _ (by decide)
  | false => exact h.leading (hneeded rfl) rest hrest

theorem unary_bracketed (h : Reads options e)
    (hneeded : needed = false → .unary ≤ (e.shown options).precedence) (hrest : Closed rest) :
    readUnary (bracketed needed (e.text options) ++ rest) = some (e.erase, rest) := by
  cases needed with
  | true =>
    refine readUnary_of_chain (Leading.read?_of_opening _ (by decide)) ?_ hrest
    exact h.chain_bracketed (fun h => by cases h) hrest.boundary
  | false => exact h.unary (hneeded rfl) rest hrest

theorem binary_bracketed (h : Reads options e) {least : Precedence}
    (hneeded : needed = false → .assignment ≤ (e.shown options).precedence ∧
      least ≤ (e.shown options).precedence ∧ follow rest ≤ (e.shown options).precedence ∧
        ((e.shown options).precedence ≤ .conditional → follow rest = .lowest))
    (hrest : Closed rest) :
    readBinary least (bracketed needed (e.text options) ++ rest)
      = binaryLoop least e.erase rest := by
  cases needed with
  | true =>
    exact readBinary_of_unary least (h.unary_bracketed (fun h => by cases h) hrest)
      (List.suffix_append _ rest).length_le
  | false =>
    obtain ⟨hprec, hleast, hfollow, hlow⟩ := hneeded rfl
    exact h.binary hprec least rest hleast hrest hfollow hlow

theorem start_bracketed (h : Reads options e) (needed : Bool) :
    ∃ c cs, bracketed needed (e.text options) = c :: cs ∧ opens c = true := by
  cases needed with
  | true => exact ⟨_, _, rfl, by decide⟩
  | false => exact h.start

end operands

/-- An expression that is chained to another one. -/
theorem of_chained {object : Expr} (h : Reads options object) {needed : Bool}
    {link : List Char}
    (htext : e.text options = bracketed needed (object.text options) ++ link)
    (hneeded : needed = false → .callMember ≤ (object.shown options).precedence)
    (hlink : ∃ c cs, link = c :: cs ∧ isNameChar c = false)
    (hcalls : (e.shown options).containsCall = false → (object.shown options).containsCall = false)
    (hloop : ∀ calls rest, (calls = true ∨ (e.shown options).containsCall = false) →
      Boundary rest → chainLoop calls object.erase (link ++ rest) = chainLoop calls e.erase rest) :
    Reads options e := by
  have hboundary : ∀ rest, Boundary (link ++ rest) := by
    obtain ⟨c, cs, rfl, hc⟩ := hlink
    exact fun rest => boundary_cons hc
  refine of_chain ?_ (fun rest _ => ?_) fun calls rest hcall hrest => ?_
  · obtain ⟨c, cs, hcs, hc⟩ := h.start_bracketed needed
    rw [htext, hcs]
    exact ⟨c, _, rfl, hc⟩
  · rw [htext, List.append_assoc]
    exact h.leading_bracketed (fun hn => Nat.le_trans (by decide) (hneeded hn)) (hboundary rest)
  · rw [htext, List.append_assoc,
      h.chain_bracketed (fun hn => ⟨hneeded hn, hcall.imp_right hcalls⟩) (hboundary rest)]
    exact hloop calls rest hcall hrest

/-- An expression in a place where a comma would end it. -/
theorem item (h : Reads options e) {rest : List Char} (hclosed : Closed rest)
    (hfollow : follow rest = .lowest) :
    readBinary .assignment (e.operandText options .assignment ++ rest) = some (e.erase, rest) := by
  rw [Child.operandText_eq, h.binary_bracketed (fun hn => ⟨least_le hn, least_le hn,
    hfollow ▸ Nat.zero_le _, fun _ => hfollow⟩) hclosed]
  exact binaryLoop_stop (hfollow ▸ by decide)

end Reads

/-! ### Lists -/

/-- A comma ends an expression in a list. -/
theorem follow_comma (rest : List Char) : follow (',' :: rest) = .lowest :=
  follow_of_not_blank fun c hc => by
    cases hc
    decide

theorem follow_bracket (rest : List Char) : follow (']' :: rest) = .lowest :=
  follow_of_not_blank fun c hc => by
    cases hc
    decide

/-- What follows a comma and a blank is shorter than the whole text. -/
theorem length_lt_of_comma (text rest : List Char) :
    rest.length < (text ++ ',' :: ' ' :: rest).length := by
  simp only [List.length_append, List.length_cons]
  omega

theorem commaText_start {first : List Char} (more : List (List Char)) {c : Char} {cs : List Char}
    (h : first = c :: cs) : ∃ rest, commaText (first :: more) = c :: rest := by
  subst h
  cases more with
  | nil => exact ⟨cs, rfl⟩
  | cons next more => exact ⟨_, rfl⟩

theorem readList_text (es : List Expr) (hne : es ≠ []) (h : ∀ e ∈ es, Reads options e)
    {rest : List Char} (hclosed : Closed rest) (hrest : ∀ c ∈ rest.head?, c ≠ ' ' ∧ c ≠ ',') :
    readList (commaText (es.map (·.operandText options .assignment)) ++ rest)
      = some (es.map Child.erase, rest) := by
  match es with
  | [e] =>
    have hfollow : follow rest = .lowest := follow_of_not_blank fun c hc => (hrest c hc).1
    rw [readList, List.map_singleton, commaText, (h e List.mem_cons_self).item hclosed hfollow]
    cases rest with
    | nil => rfl
    | cons c rest => simp [(hrest c rfl).2]
  | e :: next :: es =>
    have ih := readList_text (next :: es) (by simp) (fun e he => h e (List.mem_cons_of_mem _ he))
      hclosed hrest
    rw [List.map_cons, List.map_cons, commaText, List.append_assoc, readList,
      List.cons_append, List.cons_append,
      (h e List.mem_cons_self).item (closed_cons (by decide)) (follow_comma _)]
    refine (if_pos (length_lt_of_comma _ _)).trans ?_
    simp only [List.map_cons] at ih
    simp [ih]

/-- An expression in a list does not start like the end of one or like a hole. -/
theorem Reads.item_head (h : Reads options e) (rest : List Char) :
    ∀ c ∈ (e.operandText options .assignment ++ rest).head?, c ≠ ']' ∧ c ≠ ',' := by
  obtain ⟨c, cs, htext, hc⟩ :=
    h.start_bracketed (decide ((e.shown options).precedence < .assignment))
  rw [Child.operandText_eq, htext]
  rintro d ⟨⟩
  constructor
  · rintro rfl
    exact absurd hc (by decide)
  · rintro rfl
    exact absurd hc (by decide)

theorem readArguments_text (es : List Expr) (h : ∀ e ∈ es, Reads options e) (rest : List Char) :
    readArguments (commaText (es.map (·.operandText options .assignment)) ++ ')' :: rest)
      = some (es.map Child.erase, rest) := by
  cases es with
  | nil =>
    rw [List.map_nil, commaText, List.nil_append, readArguments]
    rfl
  | cons e es =>
    refine readArguments_of_list ?_ (readList_text (e :: es) (by simp) h (closed_cons (by decide))
      (by intro c hc; cases hc; decide))
    obtain ⟨c, cs, htext, hc⟩ := (h e List.mem_cons_self).start_bracketed
      (decide ((e.shown options).precedence < .assignment))
    rw [← Child.operandText_eq] at htext
    obtain ⟨after, hafter⟩ := commaText_start (es.map (·.operandText options .assignment)) htext
    rw [List.map_cons, hafter]
    rintro ⟨⟩
    exact absurd hc (by decide)

theorem readElements_text (elements : List (Option Expr))
    (h : ∀ e, some e ∈ elements → Reads options e) (rest : List Char) :
    readElements (elementsText (elements.map (·.map (·.operandText options .assignment))) ++ rest)
      = some (elements.map (·.map Child.erase), rest) := by
  match elements with
  | [] =>
    rw [List.map_nil, elementsText, List.singleton_append, readElements]
    rfl
  | [none] =>
    rw [List.map_singleton, Option.map_none, elementsText, List.cons_append, List.singleton_append,
      readElements]
    rfl
  | none :: next :: elements =>
    have ih := readElements_text (next :: elements)
      (fun e he => h e (List.mem_cons_of_mem _ he)) rest
    rw [List.map_cons, List.map_cons, Option.map_none, elementsText, List.cons_append,
      List.cons_append, readElements]
    simp only [List.map_cons] at ih
    simp [ih]
  | [some e] =>
    have he := h e List.mem_cons_self
    rw [List.map_singleton, Option.map_some, elementsText, List.append_assoc, List.singleton_append]
    exact readElements_last (he.item_head _) (he.item (closed_cons (by decide)) (follow_bracket _))
  | some e :: next :: elements =>
    have he := h e List.mem_cons_self
    have ih := readElements_text (next :: elements)
      (fun e he => h e (List.mem_cons_of_mem _ he)) rest
    rw [List.map_cons, List.map_cons, Option.map_some, elementsText, List.append_assoc,
      List.cons_append, List.cons_append]
    exact readElements_more (he.item_head _) (he.item (closed_cons (by decide)) (follow_comma _))
      (length_lt_of_comma _ _) ih

end EsFront
