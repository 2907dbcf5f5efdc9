/-
A reader of printed statements.

It reads the statements that can be told by their first word, for the spacing that the
printer uses. An `else` goes to the nearest `if` before it. As in the reader of
expressions, every function gives what it has read together with the rest of the text,
and goes on with that rest only if it is short enough.

* `readTest` — an expression in the head of a statement;
* `readStatement` — a statement;
* `readPhrase` — the same after its first word;
* `readBlock` — statements up to a closing brace.
-/
import EsFront.Proofs.Print.Statement
import EsFront.Proofs.Print.Unique

namespace EsFront

/-! ### Words -/

/-- The characters of words: those of names and all that are not ASCII. -/
def isSpellingChar (c : Char) : Bool := isNameChar c || 128 ≤ c.toNat

/-- The word at the start of a text. -/
def spelling (cs : List Char) : List Char := cs.takeWhile isSpellingChar

/-- The text after that word. -/
def afterSpelling (cs : List Char) : List Char := cs.dropWhile isSpellingChar

/-- An identifier of which only the name is known. -/
def Ident.named (word : List Char) : Ident := ⟨⟨String.ofList word, false, .unresolved⟩, .blank⟩

/-- The text after the word `else` between blanks. -/
def afterElse? : List Char → Option (List Char)
  | ' ' :: 'e' :: 'l' :: 's' :: 'e' :: ' ' :: rest => some rest
  | _ => none

/-- The text after a blank and the word `while`. -/
def afterWhile? : List Char → Option (List Char)
  | ' ' :: 'w' :: 'h' :: 'i' :: 'l' :: 'e' :: rest => some rest
  | _ => none

/-- The text after a blank and the word `in` between blanks. -/
def afterIn? : List Char → Option (List Char)
  | ' ' :: 'i' :: 'n' :: ' ' :: rest => some rest
  | _ => none

/-! ### Statements -/

/-- An expression in the head of a statement: a name that is not all ASCII, or what the
reader of expressions reads. -/
def readTest (cs : List Char) : Option (Expr × List Char) :=
  if (spelling cs).all isNameChar then readSequence cs
  else some ((Ident.named (spelling cs)).expr, afterSpelling cs)

/-- A blank and an expression in brackets. -/
def readHead : List Char → Option (Expr × List Char)
  | ' ' :: '(' :: cs => do
    let (test, rest) ← readTest cs
    let rest ← expect ')' rest
    some (test, rest)
  | _ => none

/-- The two names in the head of a loop over properties, up to the blank behind it. -/
def readNames (cs : List Char) : Option ((Ident × Ident) × List Char) := do
  let after ← afterIn? (afterSpelling cs)
  let rest ← expect ')' (afterSpelling after)
  some ((.named (spelling cs), .named (spelling after)), rest)

mutual

def readStatement (cs : List Char) : Option (Stmt × List Char) :=
  match cs with
  | ';' :: rest => some (.empty .blank, rest)
  | '\x7b' :: inside => do
    let (body, rest) ← readBlock inside
    some (.block .blank body, rest)
  | cs =>
    if (afterSpelling cs).length < cs.length then readPhrase (spelling cs) (afterSpelling cs)
    else none
termination_by 2 * cs.length

/-- A statement after its first word. -/
def readPhrase (word cs : List Char) : Option (Stmt × List Char) :=
  if word = "if".toList then do
    let (test, after) ← readHead cs
    let after ← expect ' ' after
    if after.length < cs.length then
      let (consequent, after) ← readStatement after
      match afterElse? after with
      | none => some (.ifThen .blank test consequent, after)
      | some after =>
        if after.length < cs.length then
          let (alternate, rest) ← readStatement after
          some (.ifElse .blank test consequent alternate, rest)
        else none
    else none
  else if word = "while".toList then do
    let (test, after) ← readHead cs
    let after ← expect ' ' after
    if after.length < cs.length then
      let (body, rest) ← readStatement after
      some (.whileLoop .blank test body, rest)
    else none
  else if word = "do".toList then do
    let after ← expect ' ' cs
    if after.length < cs.length then
      let (body, after) ← readStatement after
      let after ← afterWhile? after
      let (test, after) ← readHead after
      let rest ← expect ';' after
      some (.doWhile .blank body test, rest)
    else none
  else if word = "for".toList then
    match cs with
    | ' ' :: '(' :: ';' :: ';' :: ')' :: ' ' :: after => do
      let (body, rest) ← readStatement after
      some (.forever .blank body, rest)
    | ' ' :: '(' :: names => do
      let ((left, right), after) ← readNames names
      let after ← expect ' ' after
      if after.length < names.length then
        let (body, rest) ← readStatement after
        some (.forIn .blank left right body, rest)
      else none
    | _ => none
  else if word = "debugger".toList then do
    let rest ← expect ';' cs
    some (.debugger .blank, rest)
  else
    match cs with
    | ';' :: rest => some (.expression .blank (Ident.named word).expr, rest)
    | ':' :: ' ' :: after => do
      let (body, rest) ← readStatement after
      some (.labeled .blank (.named word) body, rest)
    | _ => none
termination_by 2 * cs.length + 1

/-- The statements of a block, up to its closing brace. -/
def readBlock (cs : List Char) : Option (List Stmt × List Char) :=
  match cs with
  | ' ' :: cs => readBlock cs
  | '\n' :: cs => readBlock cs
  | '\x7d' :: rest => some ([], rest)
  | cs => do
    let (s, after) ← readStatement cs
    if after.length < cs.length then
      let (body, rest) ← readBlock after
      some (s :: body, rest)
    else none
termination_by 2 * cs.length + 1

end

/-! ### Reading words -/

section words

variable {word rest : List Char}

/-- No word goes on at the start of the text. -/
def WordEnds (rest : List Char) : Prop := ∀ c ∈ rest.head?, isSpellingChar c = false

theorem wordEnds_cons {c : Char} (rest : List Char) (h : isSpellingChar c = false) :
    WordEnds (c :: rest) := stops_cons h

theorem spelling_append (hword : ∀ c ∈ word, isSpellingChar c = true) (hrest : WordEnds rest) :
    spelling (word ++ rest) = word := takeWhile_run hword hrest

theorem afterSpelling_append (hword : ∀ c ∈ word, isSpellingChar c = true) (hrest : WordEnds rest) :
    afterSpelling (word ++ rest) = rest := dropWhile_run hword hrest

theorem head?_word_ne (hword : ∀ c ∈ word, isSpellingChar c = true) (hne : word ≠ []) {c : Char}
    (hc : isSpellingChar c = false) (rest : List Char) : (word ++ rest).head? ≠ some c := by
  intro hhead
  rw [List.head?_append_of_ne_nil _ hne] at hhead
  exact Bool.false_ne_true (hc.symm.trans (hword c (List.mem_of_mem_head? hhead)))

/-- A statement that starts with a word is read by that word. -/
theorem readStatement_word (hword : ∀ c ∈ word, isSpellingChar c = true) (hne : word ≠ [])
    (hrest : WordEnds rest) : readStatement (word ++ rest) = readPhrase word rest := by
  have hlength : rest.length < (word ++ rest).length := by
    have := List.length_pos_of_ne_nil hne
    rw [List.length_append]
    omega
  have hstart : ∀ (c : Char) (cs : List Char), isSpellingChar c = false →
      word ++ rest ≠ c :: cs := by
    intro c cs hc heq
    exact head?_word_ne hword hne hc rest (by rw [heq, List.head?_cons])
  rw [readStatement, spelling_append hword hrest, afterSpelling_append hword hrest,
    if_pos hlength]
  · exact fun cs => hstart ';' cs (by decide)
  · exact fun cs => hstart '\x7b' cs (by decide)

end words

/-! ### Reading phrases -/

section phrases

variable {cs after rest : List Char} {test : Expr} {s t : Stmt}

theorem readPhrase_ifThen (hhead : readHead cs = some (test, ' ' :: after))
    (hlength : after.length < cs.length) (hconsequent : readStatement after = some (s, rest))
    (helse : afterElse? rest = none) :
    readPhrase "if".toList cs = some (.ifThen .blank test s, rest) := by
  rw [readPhrase.eq_def, if_pos rfl]
  simp [hhead, hlength, hconsequent, helse]

theorem readPhrase_ifElse {middle : List Char} (hhead : readHead cs = some (test, ' ' :: after))
    (hlength : after.length < cs.length) (hconsequent : readStatement after = some (s, middle))
    {behind : List Char} (helse : afterElse? middle = some behind)
    (hbehind : behind.length < cs.length) (halternate : readStatement behind = some (t, rest)) :
    readPhrase "if".toList cs = some (.ifElse .blank test s t, rest) := by
  rw [readPhrase.eq_def, if_pos rfl]
  simp [hhead, hlength, hconsequent, helse, hbehind, halternate]

theorem readPhrase_while (hhead : readHead cs = some (test, ' ' :: after))
    (hlength : after.length < cs.length) (hbody : readStatement after = some (s, rest)) :
    readPhrase "while".toList cs = some (.whileLoop .blank test s, rest) := by
  rw [readPhrase.eq_def, if_neg (by decide), if_pos rfl]
  simp [hhead, hlength, hbody]

theorem readPhrase_do {middle behind : List Char} (hbody : readStatement after = some (s, middle))
    (hwhile : afterWhile? middle = some behind)
    (hhead : readHead behind = some (test, ';' :: rest)) :
    readPhrase "do".toList (' ' :: after) = some (.doWhile .blank s test, rest) := by
  rw [readPhrase.eq_def, if_neg (by decide), if_neg (by decide), if_pos rfl]
  simp [hbody, hwhile, hhead]

theorem readPhrase_forever (hbody : readStatement after = some (s, rest)) :
    readPhrase "for".toList (' ' :: '(' :: ';' :: ';' :: ')' :: ' ' :: after)
      = some (.forever .blank s, rest) := by
  rw [readPhrase.eq_def, if_neg (by decide), if_neg (by decide), if_neg (by decide), if_pos rfl]
  simp [hbody]

theorem readPhrase_forIn {left right : Ident}
    (hnames : readNames cs = some ((left, right), ' ' :: after)) (hstart : cs.head? ≠ some ';')
    (hlength : after.length < cs.length) (hbody : readStatement after = some (s, rest)) :
    readPhrase "for".toList (' ' :: '(' :: cs) = some (.forIn .blank left right s, rest) := by
  rw [readPhrase.eq_def, if_neg (by decide), if_neg (by decide), if_neg (by decide), if_pos rfl]
  split
  · next heq =>
    -- an empty head would start with a semicolon
    cases heq
    exact absurd rfl hstart
  · next heq =>
    cases heq
    simp [hnames, hbody, hlength]
  · next hhead => exact absurd rfl (hhead cs)

theorem readPhrase_debugger : readPhrase "debugger".toList (';' :: rest)
    = some (.debugger .blank, rest) := by
  rw [readPhrase.eq_def, if_neg (by decide), if_neg (by decide), if_neg (by decide),
    if_neg (by decide), if_pos rfl]
  simp

/-- The words that mean something else where a statement could start with a name. -/
def phraseWords : List String := ["if", "while", "do", "for", "debugger"]

theorem readPhrase_name {word : String} (h : word ∉ phraseWords) (cs : List Char) :
    readPhrase word.toList cs = match cs with
      | ';' :: rest => some (.expression .blank (Ident.named word.toList).expr, rest)
      | ':' :: ' ' :: after => do
        let (body, rest) ← readStatement after
        some (.labeled .blank (.named word.toList) body, rest)
      | _ => none := by
  have hne : ∀ other ∈ phraseWords, word.toList ≠ other.toList := by
    intro other hother heq
    exact h (String.toList_inj.mp heq ▸ hother)
  rw [readPhrase.eq_def, if_neg (hne _ (by decide)), if_neg (hne _ (by decide)),
    if_neg (hne _ (by decide)), if_neg (hne _ (by decide)), if_neg (hne _ (by decide))]

end phrases

/-! ### Reading tests -/

/-- The name at the start of the text, if there is one, is not part of a longer word. -/
def Fenced (cs : List Char) : Prop := WordEnds (afterWord cs)

namespace Fenced

variable {cs : List Char} {c : Char}

theorem of_name (h : ∀ c ∈ cs, isNameChar c = true) : Fenced cs := by
  have hafter : afterWord cs = [] := by simpa using afterWord_append h boundary_nil
  intro c hc
  rw [hafter] at hc
  cases hc

theorem append (h : Fenced cs) (hc : isSpellingChar c = false) (rest : List Char) :
    Fenced (cs ++ c :: rest) := by
  have hname : isNameChar c = false := (Bool.or_eq_false_iff.mp hc).1
  unfold Fenced afterWord at h ⊢
  rw [List.dropWhile_append]
  split
  · rw [List.dropWhile_cons_of_neg (by simp [hname])]
    exact wordEnds_cons rest hc
  · next hne =>
    intro d hd
    rw [List.head?_append_of_ne_nil _ (by simpa using hne)] at hd
    exact h d hd

theorem cons (hc : isSpellingChar c = false) (rest : List Char) : Fenced (c :: rest) :=
  (of_name (by simp) : Fenced []).append hc rest

theorem bracketed (h : Fenced cs) (needed : Bool) : Fenced (EsFront.bracketed needed cs) := by
  cases needed with
  | true => exact cons (by decide) _
  | false => exact h

/-- So the word at the start of the text is a name. -/
theorem all_spelling (h : Fenced cs) {rest : List Char} (hrest : WordEnds rest) :
    (spelling (cs ++ rest)).all isNameChar = true := by
  have hname : ∀ c ∈ wordOf cs, isNameChar c = true := List.all_eq_true.mp List.all_takeWhile
  have hends : WordEnds (afterWord cs ++ rest) := by
    intro c hc
    cases hafter : afterWord cs with
    | nil => exact hrest c (by rwa [hafter] at hc)
    | cons d ds =>
      rw [hafter] at hc
      exact h c (by rwa [hafter])
  have hsplit : wordOf cs ++ (afterWord cs ++ rest) = cs ++ rest := by
    rw [← List.append_assoc, wordOf, afterWord, List.takeWhile_append_dropWhile]
  rw [← hsplit, spelling_append (fun c hc => by simp [isSpellingChar, hname c hc]) hends]
  exact List.all_eq_true.mpr hname

end Fenced

theorem isNameChar_of_isDigit {c : Char} (h : c.isDigit = true) : isNameChar c = true := by
  simp [isNameChar, Char.isAlphanum, h]

theorem fenced_operand {e : Expr} (h : Fenced (e.text {})) (least : Precedence) :
    Fenced (e.operandText {} least) :=
  h.bracketed _

/-- A name at the start of a plain expression is not part of a longer word. -/
theorem Plain.fenced {e : Expr} (h : Plain e) : Fenced (e.text {}) := by
  -- what an expression starts with is a word by itself, a sign, or the start of a part
  induction h with
  | identifier data isBinder info h =>
    rw [Expr.text_identifier]
    exact .of_name h.chars
  | @literal data value h =>
    rw [Expr.text_literal]
    cases value with
    | null => exact .of_name (List.all_eq_true.mp (by decide))
    | boolean b => cases b <;> exact .of_name (List.all_eq_true.mp (by decide))
    | number d =>
      obtain ⟨digits, htext, -, hdigits, -⟩ := (of_decide_eq_true h : d.IsNatural).display_spec
      change Fenced d.display.toList
      rw [htext]
      exact .of_name fun c hc => isNameChar_of_isDigit (hdigits c hc)
    | string s =>
      have hquote : (literalText (.string s) none).toList = Json.quoteChars s.toList :=
        String.toList_ofList
      rw [hquote]
      exact .cons (by decide) _
    | regExp pattern flags => cases h
  | this data =>
    rw [Expr.text_this]
    exact .of_name (List.all_eq_true.mp (by decide))
  | array data _ ih =>
    rw [Expr.text_array]
    exact .cons (by decide) _
  | object data _ _ _ _ _ =>
    rw [Expr.text_object]
    exact .cons (by decide) _
  | unary data op _ ih =>
    rw [Expr.text_unary]
    cases hkeyword : op.isKeyword with
    | true =>
      have hword : Fenced op.text.toList := by
        refine .of_name (List.all_eq_true.mp ?_)
        revert hkeyword
        cases op <;> decide
      exact hword.append (by decide) _
    | false =>
      cases op with
      | minus | plus | not | bitwiseNot => exact .cons (by decide) _
      | typeOf | void | delete => cases hkeyword
  | update data op before _ ih =>
    cases before with
    | true =>
      rw [Expr.text_update_before]
      cases op <;> exact .cons (by decide) _
    | false =>
      rw [Expr.text_update_after]
      cases op <;> exact (fenced_operand ih _).append (by decide) _
  | join data joint _ _ ihleft _ =>
    rw [Joint.text_join]
    exact (fenced_operand ihleft _).append (by decide) _
  | conditional data _ _ _ ihtest _ _ =>
    rw [Expr.text_conditional]
    exact (fenced_operand ihtest _).append (by decide) _
  | call data _ _ ihcallee _ =>
    rw [Expr.text_call]
    exact (fenced_operand ihcallee _).append (by decide) _
  | new data _ _ _ _ =>
    rw [Expr.text_new]
    have hnew : Fenced ['n', 'e', 'w'] := .of_name (List.all_eq_true.mp (by decide))
    exact hnew.append (by decide) _
  | named data key isBinder info _ _ ih =>
    rw [Expr.text_named]
    exact (ih.bracketed _).append (by decide) _
  | computed data _ _ ihobject _ =>
    rw [Expr.text_computed]
    exact (fenced_operand ihobject _).append (by decide) _
  | sequence data _ ih =>
    rw [Expr.text_sequence]
    exact (fenced_operand (ih _ List.mem_cons_self) _).append (by decide) _

end EsFront
