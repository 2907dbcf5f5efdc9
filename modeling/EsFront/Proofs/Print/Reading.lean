/-
How the reader moves over printed text.

Small facts about single steps of the reader, each about a text whose start is
known: a word in front of something that is not part of it, an operator between
blanks, the end of a list.

What comes after an expression decides where reading it stops:

* `Boundary` — no name goes on there;
* `Closed` — nothing is chained to the expression either;
* `follow` — how tightly the operator there binds, if there is one.
-/
import Mathlib.Data.Bool.AllAny
import EsFront.Proofs.Print.Reader
import EsFront.Proofs.Text.Runs

namespace EsFront

/-! ### What comes after an expression -/

/-- No name goes on here. -/
def Boundary (rest : List Char) : Prop := ∀ c ∈ rest.head?, isNameChar c = false

/-- Here stands nothing that could be chained to an expression, nor an operator
right behind it. -/
def Closed (rest : List Char) : Prop := ∀ c ∈ rest.head?, c ∈ [' ', ')', ']', ',']

/-- The precedence of the operator between blanks that stands here, or the
lowest one. -/
def follow : List Char → Precedence
  | ' ' :: '?' :: ' ' :: _ => .conditional
  | cs =>
    match Joint.read? cs with
    | some (joint, _) => joint.precedence
    | none => .lowest

theorem boundary_cons {c : Char} {rest : List Char} (h : isNameChar c = false) :
    Boundary (c :: rest) := stops_cons h

theorem boundary_nil : Boundary [] := by
  intro c hc
  cases hc

theorem closed_nil : Closed [] := by
  intro c hc
  cases hc

theorem closed_cons {c : Char} {rest : List Char} (h : c ∈ [' ', ')', ']', ',']) :
    Closed (c :: rest) := by
  intro d hd
  cases hd
  exact h

theorem Closed.boundary {rest : List Char} (h : Closed rest) : Boundary rest := by
  intro c hc
  have hnone : ∀ c ∈ [' ', ')', ']', ','], isNameChar c = false :=
    List.all_iff_forall_prop.1 (by decide)
  exact hnone c (h c hc)

/-- Without a blank there is no operator between blanks. -/
theorem follow_of_not_blank {rest : List Char} (h : ∀ c ∈ rest.head?, c ≠ ' ') :
    follow rest = .lowest := by
  cases rest with
  | nil => rfl
  | cons c rest =>
    have hc : c ≠ ' ' := h c rfl
    simp [follow, Joint.read?, hc]

/-! ### Words -/

section words

variable {word rest : List Char}

theorem wordOf_append (hword : ∀ c ∈ word, isNameChar c = true) (hrest : Boundary rest) :
    wordOf (word ++ rest) = word := takeWhile_run hword hrest

theorem afterWord_append (hword : ∀ c ∈ word, isNameChar c = true) (hrest : Boundary rest) :
    afterWord (word ++ rest) = rest := dropWhile_run hword hrest

@[simp] theorem expect_cons (c : Char) (rest : List Char) : expect c (c :: rest) = some rest := by
  simp [expect]

end words

/-! ### Operators -/

namespace Joint

theorem text_not_blank (joint : Joint) : ∀ c ∈ joint.text.toList, (c != ' ') = true := by
  refine List.all_eq_true.1 ?_
  rcases joint with op | op | op
  all_goals cases op <;> decide

theorem find?_text (joint : Joint) :
    all.find? (·.text.toList = joint.text.toList) = some joint := by
  rcases joint with op | op | op
  all_goals cases op <;> decide

/-- No operator between operands starts like what ends an operand otherwise. -/
theorem text_head (joint : Joint) :
    joint.text.toList.head? ≠ some '?' ∧ joint.text.toList.head? ≠ some ':' ∧
      joint.text.toList.head? ≠ some '\x7d' := by
  rcases joint with op | op | op
  all_goals cases op <;> decide

theorem read?_text (joint : Joint) (rest : List Char) :
    read? (' ' :: (joint.text.toList ++ ' ' :: rest)) = some (joint, rest) := by
  have hblank : Stops (· != ' ') (' ' :: rest) := stops_cons (by decide)
  have hdrop : (joint.text.toList ++ ' ' :: rest).dropWhile (· != ' ') = ' ' :: rest :=
    dropWhile_run joint.text_not_blank hblank
  have htake : (joint.text.toList ++ ' ' :: rest).takeWhile (· != ' ') = joint.text.toList :=
    takeWhile_run joint.text_not_blank hblank
  rw [read?, hdrop, htake]
  simp only [find?_text]
  rfl

/-- What stands after a blank and does not start like an operator is none. -/
theorem read?_of_head {c : Char} (rest : List Char) (hc : c ≠ ' ')
    (h : ∀ joint : Joint, joint.text.toList.head? ≠ some c) : read? (' ' :: c :: rest) = none := by
  have hfind : all.find? (·.text.toList = (c :: rest).takeWhile (· != ' ')) = none := by
    refine List.find?_eq_none.2 fun joint _ hjoint => h joint ?_
    rw [of_decide_eq_true hjoint, List.head?_takeWhile]
    simp [hc]
  rw [read?]
  split
  · rw [hfind]
    rfl
  · rfl

end Joint

/-- An operator between operands is not taken for the sign of a condition. -/
theorem Joint.text_ne_question (joint : Joint) (rest cs : List Char) :
    ' ' :: (joint.text.toList ++ ' ' :: rest) ≠ ' ' :: '?' :: ' ' :: cs := by
  intro h
  have hhead := joint.text_head.1
  cases htext : joint.text.toList with
  | nil =>
    rw [htext] at h
    simp at h
  | cons c text =>
    rw [htext] at h hhead
    simp only [List.cons_append, List.cons.injEq, true_and] at h
    exact hhead (congrArg some h.1)

theorem follow_text (joint : Joint) (rest : List Char) :
    follow (' ' :: (joint.text.toList ++ ' ' :: rest)) = joint.precedence := by
  unfold follow
  split
  case h_1 cs h => exact absurd h (joint.text_ne_question rest cs)
  case h_2 => rw [joint.read?_text]

theorem follow_question (rest : List Char) :
    follow (' ' :: '?' :: ' ' :: rest) = .conditional := rfl

theorem follow_colon (rest : List Char) : follow (' ' :: ':' :: rest) = .lowest := by
  have hread := Joint.read?_of_head rest (by decide) fun joint => joint.text_head.2.1
  rw [follow, hread]
  simp

theorem follow_brace (rest : List Char) : follow (' ' :: '\x7d' :: rest) = .lowest := by
  have hread := Joint.read?_of_head rest (by decide) fun joint => joint.text_head.2.2
  rw [follow, hread]
  simp

/-- Where no sign stands, an operator is a word. -/
theorem Leading.read?_of_not_sign {cs : List Char}
    (hsign : ∀ c ∈ cs.head?, c ∉ ['+', '-', '!', '~']) :
    Leading.read? cs =
      ([.typeOf, .void, .delete].find? fun op : UnaryOperator => op.text.toList = wordOf cs).map
        fun op => (.unary op, dropBlank (afterWord cs)) := by
  unfold Leading.read?
  split
  case h_1 => exact absurd (by decide) (hsign '+' rfl)
  case h_2 => exact absurd (by decide) (hsign '-' rfl)
  case h_3 => exact absurd (by decide) (hsign '+' rfl)
  case h_4 => exact absurd (by decide) (hsign '-' rfl)
  case h_5 => exact absurd (by decide) (hsign '!' rfl)
  case h_6 => exact absurd (by decide) (hsign '~' rfl)
  case h_7 => rfl

/-- Where neither a sign nor one of the words that are operators stands, there
is no operator. -/
theorem Leading.read?_eq_none {cs : List Char}
    (hsign : ∀ c ∈ cs.head?, c ∉ ['+', '-', '!', '~'])
    (hword : ∀ op : UnaryOperator, op.isKeyword = true → op.text.toList ≠ wordOf cs) :
    Leading.read? cs = none := by
  have hkeyword : ∀ op ∈ ([.typeOf, .void, .delete] : List UnaryOperator), op.isKeyword = true := by
    decide
  rw [Leading.read?_of_not_sign hsign,
    List.find?_eq_none.2 fun op hop h => hword op (hkeyword op hop) (of_decide_eq_true h)]
  rfl

theorem Leading.read?_ne_none {c : Char} {cs : List Char} (h : c = '+' ∨ c = '-') :
    Leading.read? (c :: cs) ≠ none := by
  rcases h with rfl | rfl
  · unfold Leading.read?
    split <;> simp_all
  · unfold Leading.read?
    split <;> simp_all

/-- A bracket or a quote is not an operator. -/
theorem Leading.read?_of_opening {c : Char} (rest : List Char) (h : c ∈ ['(', '[', '\x7b', '"']) :
    Leading.read? (c :: rest) = none := by
  have hname : ∀ c ∈ ['(', '[', '\x7b', '"'], isNameChar c = false :=
    List.all_iff_forall_prop.1 (by decide)
  have hsign : ∀ c ∈ ['(', '[', '\x7b', '"'], c ∉ ['+', '-', '!', '~'] :=
    List.all_iff_forall_prop.1 (by decide)
  refine Leading.read?_eq_none (fun d hd => ?_) fun op hop => ?_
  · cases hd
    exact hsign c h
  · rw [wordOf, List.takeWhile_cons_of_neg (by rw [hname c h]; decide)]
    cases op <;> simp [UnaryOperator.text]

/-- A word that is not an operator. -/
theorem Leading.read?_word {word rest : List Char} (hchars : ∀ c ∈ word, isNameChar c = true)
    (hne : word ≠ [])
    (hkeyword : ∀ op : UnaryOperator, op.isKeyword = true → op.text.toList ≠ word)
    (hrest : Boundary rest) : Leading.read? (word ++ rest) = none := by
  refine Leading.read?_eq_none ?_ ?_
  · cases word with
    | nil => exact absurd rfl hne
    | cons c word =>
      have hnone : ∀ c ∈ ['+', '-', '!', '~'], isNameChar c = false :=
        List.all_iff_forall_prop.1 (by decide)
      rintro d ⟨⟩ hmem
      have hc := hchars c List.mem_cons_self
      rw [hnone c hmem] at hc
      cases hc
  · rw [wordOf_append hchars hrest]
    exact hkeyword

theorem Leading.read?_new (cs : List Char) :
    Leading.read? ('n' :: 'e' :: 'w' :: ' ' :: cs) = none := by
  have hword : ∀ c ∈ ['n', 'e', 'w'], isNameChar c = true := List.all_eq_true.1 (by decide)
  have hkeyword : ∀ op : UnaryOperator, op.isKeyword = true → op.text.toList ≠ ['n', 'e', 'w'] := by
    intro op _
    cases op <;> decide
  exact Leading.read?_word hword (by simp) hkeyword (boundary_cons (by decide))

/-- What a word that is an operator is made of. -/
theorem UnaryOperator.text_of_keyword {op : UnaryOperator} (hop : op.isKeyword = true) :
    (∀ c ∈ op.text.toList, isNameChar c = true) ∧
      (∀ c ∈ op.text.toList.head?, c ∉ ['+', '-', '!', '~']) ∧
      [.typeOf, .void, .delete].find? (fun op' : UnaryOperator => op'.text.toList = op.text.toList)
        = some op := by
  refine ⟨List.all_eq_true.1 ?_, fun c hc => of_decide_eq_true
    ((Option.all_eq_true (fun c => decide (c ∉ ['+', '-', '!', '~'])) _).1 ?_ c hc), ?_⟩
  all_goals
    cases op with
    | typeOf => decide
    | void => decide
    | delete => decide
    | minus => cases hop
    | plus => cases hop
    | not => cases hop
    | bitwiseNot => cases hop

/-- A word in front of its operand. -/
theorem Leading.read?_keyword {op : UnaryOperator} (hop : op.isKeyword = true) (rest : List Char) :
    Leading.read? (op.text.toList ++ ' ' :: rest) = some (.unary op, rest) := by
  obtain ⟨hchars, hhead, hfind⟩ := UnaryOperator.text_of_keyword hop
  have hblank : Boundary (' ' :: rest) := boundary_cons (by decide)
  have hsign : ∀ c ∈ (op.text.toList ++ ' ' :: rest).head?, c ∉ ['+', '-', '!', '~'] := by
    intro c hc
    cases htext : op.text.toList with
    | nil =>
      rw [htext] at hc
      cases hc
      decide
    | cons d text =>
      rw [htext] at hc hhead
      exact hhead c hc
  rw [Leading.read?_of_not_sign hsign, wordOf_append hchars hblank, afterWord_append hchars hblank,
    hfind]
  rfl

/-- A sign in front of an operand, with a blank between them where the operand
could be taken for part of the sign. -/
theorem Leading.read?_sign {op : UnaryOperator} (hop : op.isKeyword = false) {blank : Bool}
    {c : Char} {cs : List Char} (hc : c ≠ ' ')
    (hclash : blank = false → op = .minus ∨ op = .plus → op.text.toList ≠ [c])
    (hblank : blank = true → op = .minus ∨ op = .plus) :
    Leading.read? (op.text.toList ++ ((if blank then [' '] else []) ++ c :: cs))
      = some (.unary op, c :: cs) := by
  cases op with
  | minus =>
    cases blank with
    | true => rfl
    | false =>
      have hne : c ≠ '-' := fun h => hclash rfl (.inl rfl) (by rw [h]; rfl)
      simp [UnaryOperator.text, Leading.read?, hne, dropBlank, hc]
  | plus =>
    cases blank with
    | true => rfl
    | false =>
      have hne : c ≠ '+' := fun h => hclash rfl (.inr rfl) (by rw [h]; rfl)
      simp [UnaryOperator.text, Leading.read?, hne, dropBlank, hc]
  | not =>
    cases blank with
    | true => exact absurd (hblank rfl) (by decide)
    | false => rfl
  | bitwiseNot =>
    cases blank with
    | true => exact absurd (hblank rfl) (by decide)
    | false => rfl
  | typeOf => cases hop
  | void => cases hop
  | delete => cases hop

theorem Leading.read?_update (op : UpdateOperator) (rest : List Char) :
    Leading.read? (op.text.toList ++ rest) = some (.update op, rest) := by
  cases op <;> rfl

/-! ### Loops -/

section loops

variable {e : Expr} {rest : List Char}

/-- Nothing is chained to an expression in front of a closed end. -/
theorem chainLoop_closed (calls : Bool) (h : Closed rest) :
    chainLoop calls e rest = some (e, rest) := by
  rw [chainLoop.eq_def]
  split
  case h_1 => exact absurd (h '.' rfl) (by decide)
  case h_2 => exact absurd (h '[' rfl) (by decide)
  case h_3 => exact absurd (h '(' rfl) (by decide)
  case h_4 => rfl

/-- An increment or decrement is not chained either. -/
theorem chainLoop_update (op : UpdateOperator) :
    chainLoop true e (op.text.toList ++ rest) = some (e, op.text.toList ++ rest) := by
  rw [chainLoop.eq_def]
  cases op <;> simp [UpdateOperator.text]

/-- Without calls, a chain ends in front of arguments. -/
theorem chainLoop_arguments : chainLoop false e ('(' :: rest) = some (e, '(' :: rest) := by
  rw [chainLoop]
  simp

theorem chainLoop_call {arguments : List Expr} {cs : List Char}
    (h : readArguments cs = some (arguments, rest)) (hlength : rest.length ≤ cs.length) :
    chainLoop true e ('(' :: cs) = chainLoop true (.call .blank e arguments) rest := by
  rw [chainLoop]
  simp [h, hlength]

theorem chainLoop_named (calls : Bool) {word : List Char}
    (hword : ∀ c ∈ word, isNameChar c = true) (hrest : Boundary rest) :
    chainLoop calls e ('.' :: (word ++ rest))
      = chainLoop calls (.access .blank false e (.name word)) rest := by
  rw [chainLoop, wordOf_append hword hrest, afterWord_append hword hrest]

theorem chainLoop_computed (calls : Bool) {key : Expr} {cs : List Char}
    (h : readSequence cs = some (key, ']' :: rest)) (hlength : rest.length ≤ cs.length) :
    chainLoop calls e ('[' :: cs) = chainLoop calls (.access .blank true e key) rest := by
  rw [chainLoop]
  simp [h, hlength]

theorem trailing?_closed (h : Closed rest) : trailing? rest = none := by
  unfold trailing?
  split
  case h_1 => exact absurd (h '+' rfl) (by decide)
  case h_2 => exact absurd (h '-' rfl) (by decide)
  case h_3 => rfl

theorem trailing?_text (op : UpdateOperator) :
    trailing? (op.text.toList ++ rest) = some (op, rest) := by
  cases op <;> simp [UpdateOperator.text, trailing?]

/-- An operator that binds less tightly than asked for ends an operand. -/
theorem binaryLoop_stop {least : Precedence} (h : follow rest < least) :
    binaryLoop least e rest = some (e, rest) := by
  unfold follow at h
  rw [binaryLoop.eq_def]
  split
  case h_1 cs => exact if_neg (Nat.not_le.2 h)
  case h_2 hne =>
    split at h
    case h_1 cs heq => exact absurd rfl (hne _)
    case h_2 =>
      cases hread : Joint.read? rest with
      | none => rfl
      | some read =>
        obtain ⟨joint, after⟩ := read
        rw [hread] at h
        exact if_neg (Nat.not_le.2 h)

/-- One more operator and its right operand. -/
theorem binaryLoop_text {least : Precedence} (joint : Joint) {right : Expr} {after : List Char}
    (hleast : least ≤ joint.precedence) (h : readBinary joint.right rest = some (right, after))
    (hlength : after.length ≤ rest.length) :
    binaryLoop least e (' ' :: (joint.text.toList ++ ' ' :: rest))
      = binaryLoop least (joint.join .blank e right) after := by
  rw [binaryLoop.eq_def]
  split
  case h_1 cs heq => exact absurd heq (joint.text_ne_question rest cs)
  case h_2 =>
    rw [joint.read?_text]
    have hrest : rest.length < joint.text.toList.length + (rest.length + 1) + 1 := by omega
    simp [hleast, h, hlength, hrest]

/-- A condition and the two expressions to choose from. -/
theorem binaryLoop_question {least : Precedence} {consequent alternate : Expr}
    {middle after : List Char} (hleast : least ≤ .conditional)
    (hconsequent : readBinary .assignment rest = some (consequent, ' ' :: ':' :: ' ' :: middle))
    (halternate : readBinary .assignment middle = some (alternate, after))
    (hmiddle : middle.length ≤ rest.length) (hafter : after.length ≤ rest.length) :
    binaryLoop least e (' ' :: '?' :: ' ' :: rest)
      = binaryLoop least (.conditional .blank e consequent alternate) after := by
  rw [binaryLoop]
  simp [hleast, hconsequent, halternate, hmiddle, hafter]

end loops

/-! ### Lists -/

section lists

variable {cs rest : List Char}

theorem readArguments_of_list {es : List Expr} (hcs : ')' ∉ cs.head?)
    (h : readList cs = some (es, ')' :: rest)) : readArguments cs = some (es, rest) := by
  rw [readArguments.eq_def]
  split
  case h_1 => exact absurd rfl hcs
  case h_2 => simp [h]

/-- An element of an array that is not the last one. -/
theorem readElements_more {e : Expr} {elements : List (Option Expr)} {after : List Char}
    (hcs : ∀ c ∈ cs.head?, c ≠ ']' ∧ c ≠ ',')
    (h : readBinary .assignment cs = some (e, ',' :: ' ' :: rest))
    (hlength : rest.length < cs.length) (hrest : readElements rest = some (elements, after)) :
    readElements cs = some (some e :: elements, after) := by
  rw [readElements.eq_def]
  split
  case h_1 => exact absurd rfl (hcs ']' rfl).1
  case h_2 => exact absurd rfl (hcs ',' rfl).2
  case h_3 => exact absurd rfl (hcs ',' rfl).2
  case h_4 => simp [h, hrest, hlength]

/-- The last element of an array, if it is not a hole. -/
theorem readElements_last {e : Expr} (hcs : ∀ c ∈ cs.head?, c ≠ ']' ∧ c ≠ ',')
    (h : readBinary .assignment cs = some (e, ']' :: rest)) :
    readElements cs = some ([some e], rest) := by
  rw [readElements.eq_def]
  split
  case h_1 => exact absurd rfl (hcs ']' rfl).1
  case h_2 => exact absurd rfl (hcs ',' rfl).2
  case h_3 => exact absurd rfl (hcs ',' rfl).2
  case h_4 => simp [h]

end lists

/-! ### Primary expressions -/

section primary

variable {cs word rest : List Char}

/-- Where a character of a name stands, a word is read. -/
theorem readPrimary_of_name (h : ∀ c ∈ cs.head?, isNameChar c = true) :
    readPrimary cs =
      if (wordOf cs).head?.any Char.isDigit then
        (Expr.ofDigits? (wordOf cs)).map fun e => (e, afterWord cs)
      else if wordOf cs = "new".toList then do
        let after ← expect ' ' (afterWord cs)
        if after.length < cs.length then
          let (callee, middle) ← readChain false after
          let middle ← expect '(' middle
          if middle.length < cs.length then
            let (arguments, rest) ← readArguments middle
            some (.new .blank callee arguments, rest)
          else none
        else none
      else if wordOf cs = [] then none
      else some (Expr.ofWord (wordOf cs), afterWord cs) := by
  rw [readPrimary.eq_def]
  split
  case h_1 => exact absurd (h '(' rfl) (by decide)
  case h_2 => exact absurd (h '[' rfl) (by decide)
  case h_3 => exact absurd (h '\x7b' rfl) (by decide)
  case h_4 => exact absurd (h '\x7b' rfl) (by decide)
  case h_5 => exact absurd (h '"' rfl) (by decide)
  case h_6 => rfl

/-- A word that is not the start of something longer. -/
theorem readPrimary_word (hword : ∀ c ∈ word, isNameChar c = true)
    (hstart : ∃ c ∈ word.head?, c.isDigit = false) (hnew : word ≠ "new".toList)
    (hrest : Boundary rest) : readPrimary (word ++ rest) = some (Expr.ofWord word, rest) := by
  obtain ⟨c, hc, hdigit⟩ := hstart
  cases word with
  | nil => cases hc
  | cons d word =>
    cases hc
    rw [readPrimary_of_name (fun e he => by cases he; exact hword c List.mem_cons_self),
      wordOf_append hword hrest, afterWord_append hword hrest, if_neg (by simp [hdigit]),
      if_neg hnew, if_neg (by simp)]

theorem readPrimary_digits (hword : ∀ c ∈ word, c.isDigit = true) (hne : word ≠ [])
    (hrest : Boundary rest) :
    readPrimary (word ++ rest) = (Expr.ofDigits? word).map fun e => (e, rest) := by
  have hname : ∀ c ∈ word, isNameChar c = true := fun c hc => by
    simp [isNameChar, Char.isAlphanum, hword c hc]
  cases word with
  | nil => exact absurd rfl hne
  | cons d word =>
    rw [readPrimary_of_name (fun e he => by cases he; exact hname d List.mem_cons_self),
      wordOf_append hname hrest, afterWord_append hname hrest,
      if_pos (by simp [hword d List.mem_cons_self])]

theorem readPrimary_new {callee : Expr} {arguments : List Expr} {middle : List Char}
    (hcallee : readChain false cs = some (callee, '(' :: middle))
    (hlength : middle.length ≤ cs.length)
    (harguments : readArguments middle = some (arguments, rest)) :
    readPrimary ('n' :: 'e' :: 'w' :: ' ' :: cs) = some (.new .blank callee arguments, rest) := by
  have hblank : Boundary (' ' :: cs) := boundary_cons (by decide)
  have hnew : ∀ c ∈ "new".toList, isNameChar c = true := List.all_eq_true.1 (by decide)
  have hword : wordOf ('n' :: 'e' :: 'w' :: ' ' :: cs) = "new".toList :=
    wordOf_append hnew hblank
  have hafter : afterWord ('n' :: 'e' :: 'w' :: ' ' :: cs) = ' ' :: cs :=
    afterWord_append hnew hblank
  have hcs : cs.length < ('n' :: 'e' :: 'w' :: ' ' :: cs).length := by
    simp only [List.length_cons]
    omega
  rw [readPrimary_of_name (fun e he => by cases he; decide), hword, hafter,
    if_neg (by decide), if_pos rfl]
  simp only [Option.bind_eq_bind, Option.bind_some, expect_cons, hcallee, harguments, if_pos hcs,
    if_pos (Nat.lt_of_le_of_lt hlength hcs)]

theorem readPrimary_object {members : List (Child .property)}
    (h : readMembers cs = some (members, rest)) :
    readPrimary ('\x7b' :: ' ' :: cs) = some (.object .blank members, rest) := by
  rw [readPrimary, h]
  rfl

end primary

/-! ### Keys of members -/

section keys

variable {word rest : List Char}

theorem readKey_name (hword : ∀ c ∈ word, isNameChar c = true) (hne : word ≠ [])
    (hrest : Boundary rest) : readKey (word ++ rest) = some ((false, Expr.name word), rest) := by
  cases word with
  | nil => exact absurd rfl hne
  | cons c word =>
    have hname := hword c List.mem_cons_self
    rw [readKey.eq_def]
    split
    case h_1 heq =>
      cases heq
      exact absurd hname (by decide)
    case h_2 heq =>
      cases heq
      exact absurd hname (by decide)
    case h_3 => rw [wordOf_append hword hrest, afterWord_append hword hrest]

theorem readMembers_more {m : Child .property} {members : List (Child .property)}
    {cs after : List Char} (h : readMember cs = some (m, ',' :: ' ' :: rest))
    (hlength : rest.length < cs.length) (hrest : readMembers rest = some (members, after)) :
    readMembers cs = some (m :: members, after) := by
  rw [readMembers, h]
  simp [hrest, hlength]

theorem readMembers_last {m : Child .property} {cs : List Char}
    (h : readMember cs = some (m, ' ' :: '\x7d' :: rest)) :
    readMembers cs = some ([m], rest) := by
  rw [readMembers, h]
  simp

end keys

end EsFront
