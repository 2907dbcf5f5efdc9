/-
The text of statements decides to which `if` an `else` belongs.

* `IsIdent`, `IsTest` — names that are not reserved, and expressions that can stand in the
  head of a statement;
* `Simple` — statements built from blocks, conditions, labels, loops and names;
* `Stmt.ReadsBack` — the text of a statement is read as that statement, before anything
  that is no `else` of it.

Every simple statement reads back if no `else` in it dangles (`Simple.readsBack`), as is
the case once its consequents are in braces (`Simple.brace`). Since braces do not change
the text, it determines the statement up to braces (`erase_brace_of_print`).
-/
import EsFront.Proofs.Print.Braces
import EsFront.Proofs.Print.StatementReader
import EsFront.Proofs.Syntax.Data

namespace EsFront

/-! ### Names and tests -/

/-- A name that is not reserved. -/
structure IsIdent (name : String) : Prop where
  chars : ∀ c ∈ name.toList, isSpellingChar c = true
  start : ∃ c ∈ name.toList.head?, c.isDigit = false
  notReserved : name ∉ reservedWords ++ phraseWords

instance (name : String) : Decidable (IsIdent name) :=
  decidable_of_iff (name.toList.all isSpellingChar = true ∧
      name.toList.head?.any (!·.isDigit) = true ∧ name ∉ reservedWords ++ phraseWords)
    ⟨fun h => ⟨List.all_eq_true.1 h.1, by simpa [Option.any_eq_true] using h.2.1, h.2.2⟩,
      fun h => ⟨List.all_eq_true.2 h.1, by simpa [Option.any_eq_true] using h.2, h.3⟩⟩

namespace IsIdent

variable {name : String}

theorem ne_nil (h : IsIdent name) : name.toList ≠ [] := by
  obtain ⟨c, hc, -⟩ := h.start
  intro hnil
  rw [hnil] at hc
  cases hc

theorem notPhrase (h : IsIdent name) : name ∉ phraseWords :=
  fun hmem => h.notReserved (List.mem_append_right _ hmem)

/-- Without characters beyond ASCII it is a name of the reader of expressions. -/
theorem isName (h : IsIdent name) (hchars : name.toList.all isNameChar = true) : IsName name where
  chars := List.all_eq_true.mp hchars
  start := h.start
  notReserved hmem := h.notReserved (List.mem_append_left _ hmem)

end IsIdent

/-- What can stand in the head of a statement: an expression that its text determines, or
a name. -/
def IsTest (e : Expr) : Prop :=
  (∀ any ∈ e.node.nodes, any.isPlain = true) ∨ ∃ id : Ident, IsIdent id.name ∧ e = id.expr

theorem Ident.named_toList (id : Ident) :
    Ident.named id.name.toList = ⟨⟨id.name, false, .unresolved⟩, .blank⟩ := by
  rw [Ident.named, String.ofList_toList]

theorem Ident.erase_expr (id : Ident) : id.expr.erase = (Ident.named id.name.toList).expr := by
  rw [id.named_toList]
  rfl

theorem AnyNode.kind_ne_of_isPlain {any : AnyNode} (h : any.isPlain = true) :
    any.kind ≠ .functionExpression := by
  obtain ⟨kind, data, form, fields⟩ := any
  rintro rfl
  cases form
  cases h

namespace IsTest

variable {e : Expr}

theorem flat (h : IsTest e) : (e.node.printed true).Flat := by
  rcases h with hplain | ⟨id, -, rfl⟩
  · exact e.flat (fun any hany => AnyNode.kind_ne_of_isPlain (hplain any hany)) true
  · exact ⟨fun _ => rfl, rfl⟩

theorem brace_eq (h : IsTest e) : e.brace = e := by
  rcases h with hplain | ⟨id, -, rfl⟩
  · have hnode := e.node.brace_of_expression (.inl e.accepted) fun any hany =>
      AnyNode.kind_ne_of_isPlain (hplain any hany)
    rw [Child.brace, hnode]
  · rfl

theorem readTest_text (h : IsTest e) (rest : List Char) :
    readTest (e.text {} ++ ')' :: rest) = some (e.erase, ')' :: rest) := by
  have hends : WordEnds (')' :: rest) := wordEnds_cons rest (by decide)
  have hclosed : Closed (')' :: rest) := closed_cons (by decide)
  have hstop : ∀ c ∈ (')' :: rest).head?, c ≠ ' ' ∧ c ≠ ',' := by simp
  rcases h with hplain | ⟨id, hid, rfl⟩
  · have he := plain_of_nodes e hplain
    rw [readTest, if_pos (he.fenced.all_spelling hends)]
    exact (he.reads {}).sequence _ hclosed hstop
  · rw [id.text_expr, readTest, spelling_append hid.chars hends,
      afterSpelling_append hid.chars hends]
    by_cases hchars : id.name.toList.all isNameChar = true
    · rw [if_pos hchars, ← id.text_expr {}]
      exact (reads_identifier id.data id.isBinder id.info (hid.isName hchars)).sequence _ hclosed
        hstop
    · rw [if_neg hchars, id.erase_expr]

theorem readHead_text (h : IsTest e) (rest : List Char) :
    readHead (' ' :: '(' :: (e.text {} ++ ')' :: rest)) = some (e.erase, rest) := by
  simp [readHead, h.readTest_text]

end IsTest

/-! ### Simple statements -/

/-- Statements without comments, built from blocks, conditions, labels, loops and names. An
`else` may stand behind a consequent that ends in an `if` without one only if
`mayDangle` is true. -/
inductive Simple (mayDangle : Bool) : Stmt → Prop where
  | empty {data : NodeData} (hdata : data.comments = []) : Simple mayDangle (.empty data)
  | debugger {data : NodeData} (hdata : data.comments = []) : Simple mayDangle (.debugger data)
  | expression {data : NodeData} (hdata : data.comments = []) {id : Ident} (hid : IsIdent id.name) :
      Simple mayDangle (.expression data id.expr)
  | block {data : NodeData} (hdata : data.comments = []) {body : List Stmt}
      (hbody : ∀ s ∈ body, Simple mayDangle s) : Simple mayDangle (.block data body)
  | labeled {data : NodeData} (hdata : data.comments = []) {label : Ident} {body : Stmt}
      (hlabel : IsIdent label.name) (hbody : Simple mayDangle body) :
      Simple mayDangle (.labeled data label body)
  | ifThen {data : NodeData} (hdata : data.comments = []) {test : Expr} {consequent : Stmt}
      (htest : IsTest test) (hconsequent : Simple mayDangle consequent) :
      Simple mayDangle (.ifThen data test consequent)
  | ifElse {data : NodeData} (hdata : data.comments = []) {test : Expr}
      {consequent alternate : Stmt} (htest : IsTest test) (hconsequent : Simple mayDangle consequent)
      (halternate : Simple mayDangle alternate)
      (hopen : consequent.node.endsOpen = true → mayDangle = true) :
      Simple mayDangle (.ifElse data test consequent alternate)
  | whileLoop {data : NodeData} (hdata : data.comments = []) {test : Expr} {body : Stmt}
      (htest : IsTest test) (hbody : Simple mayDangle body) :
      Simple mayDangle (.whileLoop data test body)
  | doWhile {data : NodeData} (hdata : data.comments = []) {test : Expr} {body : Stmt}
      (hbody : Simple mayDangle body) (htest : IsTest test) :
      Simple mayDangle (.doWhile data body test)
  | forever {data : NodeData} (hdata : data.comments = []) {body : Stmt}
      (hbody : Simple mayDangle body) : Simple mayDangle (.forever data body)
  | forIn {data : NodeData} (hdata : data.comments = []) {left right : Ident} {body : Stmt}
      (hleft : IsIdent left.name) (hright : IsIdent right.name) (hbody : Simple mayDangle body) :
      Simple mayDangle (.forIn data left right body)

theorem Field.brace_ofList {holds : Capability} (children : List (Child holds)) :
    (Field.ofList children).brace = Field.ofList (children.map Child.brace) := by
  induction children with
  | nil => rfl
  | cons child rest ih =>
    rw [Field.ofList, Field.brace, ih]
    rfl

namespace Stmt

theorem brace_block (data : NodeData) (body : List Stmt) :
    (block data body).brace = block data (body.map Child.brace) :=
  congrArg (fun field : Field (.list false) .statement =>
    (⟨_, .mk data .blockStatement (.cons field .nil), rfl⟩ : Stmt)) (Field.brace_ofList body)

theorem erase_block (data : NodeData) (body : List Stmt) :
    (block data body).erase = block .blank (body.map Child.erase) :=
  congrArg (fun field : Field (.list false) .statement =>
    (⟨_, .mk .blank .blockStatement (.cons field .nil), rfl⟩ : Stmt)) (Field.erase_ofList body)

end Stmt

/-- With its consequents in braces, no `else` of a statement dangles. -/
theorem Simple.brace {s : Stmt} (h : Simple true s) : Simple false s.brace := by
  induction h with
  | empty hdata => exact .empty hdata
  | debugger hdata => exact .debugger hdata
  | expression hdata hid => exact .expression hdata hid
  | @block data hdata body _ ih =>
    rw [Stmt.brace_block]
    refine .block hdata fun s hs => ?_
    obtain ⟨t, ht, rfl⟩ := List.mem_map.mp hs
    exact ih t ht
  | labeled hdata hlabel _ ih => exact .labeled hdata hlabel ih
  | @ifThen data hdata test consequent htest _ ih =>
    change Simple false (.ifThen data test.brace consequent.brace)
    rw [htest.brace_eq]
    exact .ifThen hdata htest ih
  | @ifElse data hdata test consequent alternate htest _ _ _ ihconsequent ihalternate =>
    change Simple false (.ifElse data test.brace (Stmt.closed consequent.brace)
      alternate.brace)
    rw [htest.brace_eq]
    cases hopen : consequent.brace.node.endsOpen with
    -- a consequent that ends open has got braces, and a block ends closed
    | true =>
      rw [Stmt.closed_of_open _ hopen]
      refine .ifElse hdata htest (.block rfl fun s hs => ?_) ihalternate fun h => ?_
      · rw [List.mem_singleton.mp hs]
        exact ihconsequent
      · cases h
    | false =>
      rw [Stmt.closed_of_closed _ hopen]
      refine .ifElse hdata htest ihconsequent ihalternate fun h => ?_
      exact absurd (hopen.symm.trans h) Bool.false_ne_true
  | @whileLoop data hdata test body htest _ ih =>
    change Simple false (.whileLoop data test.brace body.brace)
    rw [htest.brace_eq]
    exact .whileLoop hdata htest ih
  | @doWhile data hdata test body _ htest ih =>
    change Simple false (.doWhile data body.brace test.brace)
    rw [htest.brace_eq]
    exact .doWhile hdata ih htest
  | forever hdata _ ih => exact .forever hdata ih
  | forIn hdata hleft hright _ ih => exact .forIn hdata hleft hright ih

/-! ### Reading statements back -/

/-- The text of a statement is read as that statement, before anything that is no `else`
of it. -/
structure Stmt.ReadsBack (s : Stmt) : Prop where
  start : ∀ level, ∃ c ∈ (s.textAt level).head?, c ≠ ' ' ∧ c ≠ '\n' ∧ c ≠ '\x7d'
  reads : ∀ level rest, (s.node.endsOpen = true → afterElse? rest = none) →
    readStatement (s.textAt level ++ rest) = some (s.erase, rest)

section blocks

/-- Blanks and ends of lines in a block are skipped. -/
theorem readBlock_blanks {line : List Char} (h : ∀ c ∈ line, c = ' ' ∨ c = '\n')
    (cs : List Char) : readBlock (line ++ cs) = readBlock cs := by
  induction line with
  | nil => rfl
  | cons c line ih =>
    have hline := ih fun c hc => h c (List.mem_cons_of_mem _ hc)
    rcases h c List.mem_cons_self with rfl | rfl
    · rw [List.cons_append, readBlock, hline]
    · rw [List.cons_append, readBlock, hline]

theorem readBlock_statement {s : Stmt} (hs : s.ReadsBack) (level : Nat) {cs : List Char}
    (hcs : afterElse? cs = none) :
    readBlock (s.textAt level ++ cs)
      = (readBlock cs).map fun (body, rest) => (s.erase :: body, rest) := by
  obtain ⟨c, hc, hblank, hline, hbrace⟩ := hs.start level
  obtain ⟨text, htext⟩ := List.head?_eq_some_iff.mp hc
  have hread := hs.reads level cs fun _ => hcs
  rw [htext, List.cons_append] at hread ⊢
  have hlength : cs.length < (c :: (text ++ cs)).length := by
    simp only [List.length_cons, List.length_append]
    omega
  rw [readBlock, hread]
  · simp only [Option.bind_eq_bind, Option.bind_some, if_pos hlength]
    cases readBlock cs <;> rfl
  · exact fun rest h => hblank (List.cons.inj h).1
  · exact fun rest h => hline (List.cons.inj h).1
  · exact fun rest h => hbrace (List.cons.inj h).1

/-- No `else` follows at the end of a line. -/
theorem afterElse?_line (level : Nat) (cs : List Char) :
    afterElse? (lineText level ++ cs) = none := by
  simp [lineText, Piece.render, afterElse?]

/-- The lines of a block are read as its statements. -/
theorem readBlock_lines {body : List Stmt} (h : ∀ s ∈ body, s.ReadsBack) (level : Nat)
    (rest : List Char) :
    readBlock (body.flatMap (fun s => lineText (level + 1) ++ s.textAt (level + 1)) ++
      (lineText level ++ '\x7d' :: rest)) = some (body.map Child.erase, rest) := by
  induction body with
  | nil =>
    rw [List.flatMap_nil, List.nil_append, readBlock_blanks fun c => blank_of_mem_lineText]
    simp [readBlock]
  | cons s body ih =>
    have hbody := ih fun t ht => h t (List.mem_cons_of_mem _ ht)
    -- whether or not more statements follow, the next text starts a line
    have helse : afterElse? (body.flatMap (fun s => lineText (level + 1) ++ s.textAt (level + 1)) ++
        (lineText level ++ '\x7d' :: rest)) = none := by
      cases body with
      | nil => exact afterElse?_line level _
      | cons t body =>
        rw [List.flatMap_cons, List.append_assoc, List.append_assoc]
        exact afterElse?_line (level + 1) _
    rw [List.flatMap_cons, List.append_assoc, List.append_assoc,
      readBlock_blanks fun c => blank_of_mem_lineText,
      readBlock_statement (h s List.mem_cons_self) (level + 1) helse, hbody]
    rfl

end blocks

/-! ### Every simple statement -/

/-- A statement that starts with a word, read by what follows the word. -/
theorem Stmt.ReadsBack.of_word {s : Stmt} (word : List Char)
    (hword : ∀ c ∈ word, isSpellingChar c = true) (hne : word ≠ [])
    (h : ∀ level, ∃ c after, s.textAt level = word ++ c :: after ∧ isSpellingChar c = false ∧
      ∀ rest, (s.node.endsOpen = true → afterElse? rest = none) →
        readPhrase word (c :: (after ++ rest)) = some (s.erase, rest)) : s.ReadsBack where
  start level := by
    obtain ⟨c, after, htext, -, -⟩ := h level
    cases word with
    | nil => exact absurd rfl hne
    | cons d word =>
      have hd := hword d List.mem_cons_self
      have hother : ∀ c, isSpellingChar c = false → d ≠ c := by
        rintro c hc rfl
        exact Bool.false_ne_true (hc.symm.trans hd)
      exact ⟨d, by simp [htext], hother ' ' (by decide), hother '\n' (by decide),
        hother '\x7d' (by decide)⟩
  reads level rest hrest := by
    obtain ⟨c, after, htext, hc, hreads⟩ := h level
    rw [htext, List.append_assoc, List.cons_append,
      readStatement_word hword hne (wordEnds_cons _ hc)]
    exact hreads rest hrest

section forms

variable {data : NodeData} (hdata : data.comments = [])

include hdata

theorem readsBack_empty : (Stmt.empty data).ReadsBack where
  start level := ⟨';', by simp [Stmt.textAt_empty hdata], by decide⟩
  reads level rest _ := by
    rw [Stmt.textAt_empty hdata, List.singleton_append, readStatement]
    rfl

theorem readsBack_block {body : List Stmt} (h : ∀ s ∈ body, s.ReadsBack) :
    (Stmt.block data body).ReadsBack := by
  cases body with
  | nil =>
    constructor
    · exact fun level => ⟨'\x7b', by simp [Stmt.textAt_block_nil hdata], by decide⟩
    · intro level rest _
      rw [Stmt.textAt_block_nil hdata, Stmt.erase_block]
      simp [readStatement, readBlock]
  | cons s body =>
    constructor
    · exact fun level => ⟨'\x7b', by simp [Stmt.textAt_block hdata], by decide⟩
    · intro level rest _
      have hlines := readBlock_lines h level rest
      rw [Stmt.textAt_block hdata level (List.cons_ne_nil s body), Stmt.erase_block,
        List.cons_append, List.append_assoc, List.append_assoc, List.singleton_append,
        readStatement, hlines]
      rfl

theorem readsBack_debugger : (Stmt.debugger data).ReadsBack := by
  refine .of_word "debugger".toList (List.all_eq_true.mp (by decide)) (by decide) fun level =>
    ⟨';', [], Stmt.textAt_debugger hdata level, by decide, fun rest _ => ?_⟩
  exact readPhrase_debugger

theorem readsBack_expression {id : Ident} (hid : IsIdent id.name) :
    (Stmt.expression data id.expr).ReadsBack := by
  refine .of_word _ hid.chars hid.ne_nil fun level =>
    ⟨';', [], Stmt.textAt_expression hdata level id, by decide, fun rest _ => ?_⟩
  rw [readPhrase_name hid.notPhrase, id.named_toList]
  rfl

theorem readsBack_labeled {label : Ident} (hlabel : IsIdent label.name) {body : Stmt}
    (hbody : body.ReadsBack) : (Stmt.labeled data label body).ReadsBack := by
  refine .of_word _ hlabel.chars hlabel.ne_nil fun level =>
    ⟨':', _, Stmt.textAt_labeled hdata level label body, by decide, fun rest hrest => ?_⟩
  rw [List.cons_append, readPhrase_name hlabel.notPhrase, label.named_toList]
  simp only [hbody.reads level rest hrest]
  rfl

section tests

variable {test : Expr} (htest : IsTest test)

include htest

theorem readsBack_ifThen {consequent : Stmt} (hconsequent : consequent.ReadsBack) :
    (Stmt.ifThen data test consequent).ReadsBack := by
  refine .of_word "if".toList (List.all_eq_true.mp (by decide)) (by decide) fun level =>
    ⟨' ', _, Stmt.textAt_ifThen hdata level htest.flat consequent, by decide, fun rest hrest => ?_⟩
  have helse := hrest rfl
  simp only [List.cons_append, List.append_assoc]
  refine readPhrase_ifThen (htest.readHead_text _) ?_
    (hconsequent.reads level rest fun _ => helse) helse
  simp only [List.length_cons, List.length_append]
  omega

theorem readsBack_while {body : Stmt} (hbody : body.ReadsBack) :
    (Stmt.whileLoop data test body).ReadsBack := by
  refine .of_word "while".toList (List.all_eq_true.mp (by decide)) (by decide) fun level =>
    ⟨' ', _, Stmt.textAt_whileLoop hdata level htest.flat body, by decide, fun rest hrest => ?_⟩
  simp only [List.cons_append, List.append_assoc]
  refine readPhrase_while (htest.readHead_text _) ?_ (hbody.reads level rest hrest)
  simp only [List.length_cons, List.length_append]
  omega

theorem readsBack_ifElse {consequent alternate : Stmt} (hconsequent : consequent.ReadsBack)
    (halternate : alternate.ReadsBack) (hclosed : consequent.node.endsOpen = false) :
    (Stmt.ifElse data test consequent alternate).ReadsBack := by
  have hopenIf : (consequent.node.printed true).openIf = false := by
    rw [Node.openIf_printed, hclosed]
  refine .of_word "if".toList (List.all_eq_true.mp (by decide)) (by decide) fun level =>
    ⟨' ', _, Stmt.textAt_ifElse hdata level htest.flat hopenIf alternate, by decide,
      fun rest hrest => ?_⟩
  simp only [List.cons_append, List.append_assoc]
  -- the consequent is closed, so the `else` behind it is not its own
  have hthen := hconsequent.reads level
    (' ' :: 'e' :: 'l' :: 's' :: 'e' :: ' ' :: (alternate.textAt level ++ rest))
    fun hopen => absurd (hclosed.symm.trans hopen) Bool.false_ne_true
  refine readPhrase_ifElse (htest.readHead_text _) ?_ hthen rfl ?_
    (halternate.reads level rest hrest)
  · simp only [List.length_cons, List.length_append]
    omega
  · simp only [List.length_cons, List.length_append]
    omega

theorem readsBack_doWhile {body : Stmt} (hbody : body.ReadsBack) :
    (Stmt.doWhile data body test).ReadsBack := by
  refine .of_word "do".toList (List.all_eq_true.mp (by decide)) (by decide) fun level =>
    ⟨' ', _, Stmt.textAt_doWhile hdata level htest.flat body, by decide, fun rest _ => ?_⟩
  simp only [List.cons_append, List.append_assoc, List.nil_append]
  exact readPhrase_do (hbody.reads level _ fun _ => rfl) rfl (htest.readHead_text _)

end tests

theorem readsBack_forever {body : Stmt} (hbody : body.ReadsBack) :
    (Stmt.forever data body).ReadsBack := by
  refine .of_word "for".toList (List.all_eq_true.mp (by decide)) (by decide) fun level =>
    ⟨' ', _, Stmt.textAt_forever hdata level body, by decide, fun rest hrest => ?_⟩
  exact readPhrase_forever (hbody.reads level rest hrest)

theorem readsBack_forIn {left right : Ident} (hleft : IsIdent left.name)
    (hright : IsIdent right.name) {body : Stmt} (hbody : body.ReadsBack) :
    (Stmt.forIn data left right body).ReadsBack := by
  refine .of_word "for".toList (List.all_eq_true.mp (by decide)) (by decide) fun level =>
    ⟨' ', _, Stmt.textAt_forIn hdata level left right body, by decide, fun rest hrest => ?_⟩
  simp only [List.cons_append, List.append_assoc]
  have hnames : readNames (left.name.toList ++ ' ' :: 'i' :: 'n' :: ' ' :: (right.name.toList ++
      ')' :: ' ' :: (body.textAt level ++ rest)))
        = some ((.named left.name.toList, .named right.name.toList),
            ' ' :: (body.textAt level ++ rest)) := by
    have hblank := wordEnds_cons ('i' :: 'n' :: ' ' :: (right.name.toList ++
      ')' :: ' ' :: (body.textAt level ++ rest))) (by decide : isSpellingChar ' ' = false)
    have hclosing := wordEnds_cons (' ' :: (body.textAt level ++ rest))
      (by decide : isSpellingChar ')' = false)
    simp [readNames, spelling_append hleft.chars hblank, afterSpelling_append hleft.chars hblank,
      afterIn?, spelling_append hright.chars hclosing, afterSpelling_append hright.chars hclosing]
  rw [readPhrase_forIn hnames ?_ ?_ (hbody.reads level rest hrest), left.named_toList,
    right.named_toList]
  · rfl
  · exact head?_word_ne hleft.chars hleft.ne_nil (by decide) _
  · simp only [List.length_cons, List.length_append]
    omega

end forms

/-- **Simple statements are read back.** If no `else` dangles, the text of a simple statement
is read as that statement. -/
theorem Simple.readsBack {s : Stmt} (h : Simple false s) : s.ReadsBack := by
  induction h with
  | empty hdata => exact readsBack_empty hdata
  | debugger hdata => exact readsBack_debugger hdata
  | expression hdata hid => exact readsBack_expression hdata hid
  | block hdata _ ih => exact readsBack_block hdata ih
  | labeled hdata hlabel _ ih => exact readsBack_labeled hdata hlabel ih
  | ifThen hdata htest _ ih => exact readsBack_ifThen hdata htest ih
  | ifElse hdata htest _ _ hopen ihconsequent ihalternate =>
    refine readsBack_ifElse hdata htest ihconsequent ihalternate ?_
    exact Bool.eq_false_iff.mpr fun h => Bool.false_ne_true (hopen h)
  | whileLoop hdata htest _ ih => exact readsBack_while hdata htest ih
  | doWhile hdata _ htest ih => exact readsBack_doWhile hdata htest ih
  | forever hdata _ ih => exact readsBack_forever hdata ih
  | forIn hdata hleft hright _ ih => exact readsBack_forIn hdata hleft hright ih

/-! ### Programs of one statement -/

/-- The program of one statement. -/
def Stmt.alone (s : Stmt) : Program := .mk .blank (.program [] default) (.cons (.ofList [s]) .nil)

/-- A program is printed the same with its consequents in braces. -/
theorem Program.print_brace (options : PrintOptions) (program : Program) :
    Program.print options program.brace = Program.print options program := by
  have hcomments : Program.comments program.brace = program.comments := by
    obtain ⟨data, form, fields⟩ := program
    cases form
    rfl
  have hpieces : Program.pieces options.preserveComments program.brace
      = program.pieces options.preserveComments := by
    rw [Program.pieces, Program.pieces, hcomments, Node.printed_brace]
  rw [Program.print, Program.print, hpieces]

/-- A statement by itself is printed on a line. -/
theorem Stmt.print_alone {s : Stmt} (h : s.textAt 0 ≠ []) :
    (Program.print {} s.alone).toList = s.textAt 0 ++ ['\n'] := by
  have hpieces : Program.pieces true s.alone = (s.node.printed true).statement 0 := by
    change List.intercalate [Piece.line 0] [(s.node.printed true).statement 0] = _
    exact List.intercalate_singleton
  have hne : (render {} ((s.node.printed true).statement 0)).isEmpty = false := by
    rw [Bool.eq_false_iff, Ne, String.isEmpty_iff, ← String.toList_eq_nil_iff]
    exact h
  simp only [Program.print, hpieces, hne, Bool.not_false, Bool.and_self, if_true,
    String.toList_append]
  rfl

/-- The reader takes the printed text of a statement to the statement with its consequents
in braces. -/
theorem Simple.readStatement_print {s : Stmt} (h : Simple true s) :
    readStatement (Program.print {} s.alone).toList = some (s.brace.erase, ['\n']) := by
  have hreads := h.brace.readsBack
  have hne : Stmt.textAt s.brace 0 ≠ [] := by
    obtain ⟨c, hc, -⟩ := hreads.start 0
    intro hnil
    rw [hnil] at hc
    cases hc
  have hprint : Program.print {} (Stmt.alone s.brace) = Program.print {} s.alone :=
    Program.print_brace {} s.alone
  rw [← hprint, Stmt.print_alone hne]
  exact hreads.reads 0 ['\n'] fun _ => rfl

/-! ### Trees up to the data of their nodes -/

/-- An identifier that is not marked as a binder and of which no resolution is known, or
any other node. -/
def AnyNode.IsUnmarked (any : AnyNode) : Prop :=
  ∀ view ∈ any.identifier?, view.isBinder = false ∧ view.info = .unresolved

instance (any : AnyNode) : Decidable any.IsUnmarked :=
  inferInstanceAs (Decidable (∀ view ∈ any.identifier?,
    view.isBinder = false ∧ view.info = .unresolved))

/-- A tree without the data of its nodes. -/
def Child.withoutData {holds : Capability} (child : Child holds) : Child holds :=
  ⟨child.kind, child.node.mapData fun _ => .blank, child.accepted⟩

theorem Form.erase_of_unmarked {kind : NodeKind} {slots : List Slot} {form : Form kind slots}
    (h : ∀ view ∈ form.identifier?, view.isBinder = false ∧ view.info = .unresolved) :
    form.erase = form := by
  cases form with
  | identifier name isBinder info =>
    obtain ⟨hbinder, hinfo⟩ := h ⟨name, isBinder, info⟩ rfl
    rw [Form.erase]
    exact congrArg₂ (Form.identifier name) hbinder.symm hinfo.symm
  | _ => rfl

mutual

/-- Where no identifier is marked, only data is erased. -/
theorem Node.erase_of_unmarked {kind : NodeKind} : ∀ node : Node kind,
    (∀ any ∈ node.nodes, any.IsUnmarked) → node.erase = node.mapData fun _ => .blank
  | .mk data form fields => fun h => by
    rw [Node.erase, Node.mapData, Form.erase_of_unmarked (h _ (Node.self_mem_nodes _)),
      Fields.erase_of_unmarked fields fun any hany x hx => h x (Node.mem_nodes_of_child hany hx)]

theorem Fields.erase_of_unmarked {slots : List Slot} : ∀ fields : Fields slots,
    (∀ any ∈ fields.children, ∀ x ∈ any.node.nodes, x.IsUnmarked) →
      fields.erase = fields.mapData fun _ => .blank
  | .nil => fun _ => rfl
  | .cons field rest => fun h => by
    rw [Fields.children] at h
    rw [Fields.erase, Fields.mapData,
      Field.erase_of_unmarked field fun any hany => h any (List.mem_append_left _ hany),
      Fields.erase_of_unmarked rest fun any hany => h any (List.mem_append_right _ hany)]

theorem Field.erase_of_unmarked {arity : Arity} {holds : Capability} :
    ∀ field : Field arity holds,
      (∀ any ∈ field.children, ∀ x ∈ any.node.nodes, x.IsUnmarked) →
        field.erase = field.mapData fun _ => .blank
  | .one node accepted => fun h => by
    rw [Field.erase, Field.mapData, Node.erase_of_unmarked node (h _ (List.mem_singleton_self _))]
  | .absent => fun _ => rfl
  | .present node accepted => fun h => by
    rw [Field.erase, Field.mapData, Node.erase_of_unmarked node (h _ (List.mem_singleton_self _))]
  | .nil => fun _ => rfl
  | .cons node accepted rest => fun h => by
    rw [Field.children] at h
    rw [Field.erase, Field.mapData, Node.erase_of_unmarked node (h _ List.mem_cons_self),
      Field.erase_of_unmarked rest fun any hany => h any (List.mem_cons_of_mem _ hany)]
  | .hole rest => fun h => by
    rw [Field.erase, Field.mapData, Field.erase_of_unmarked rest h]

end

theorem Child.erase_of_unmarked {holds : Capability} (child : Child holds)
    (h : ∀ any ∈ child.node.nodes, any.IsUnmarked) : child.erase = child.withoutData := by
  rw [Child.erase, Child.withoutData, child.node.erase_of_unmarked h]

/-! ### The dangling else -/

/-- **The dangling else.** A simple statement is printed like the same statement with its
consequents in braces, and two that are printed alike are the same statement then, apart
from the data of nodes, marks of binders and results of resolution; where there are no
such marks, apart from the data of nodes. -/
theorem erase_brace_of_print (s₁ s₂ : Stmt) (h₁ : Simple true s₁) (h₂ : Simple true s₂) :
    Program.print {} (Stmt.alone s₁.brace) = Program.print {} s₁.alone ∧
    (Program.print {} s₁.alone = Program.print {} s₂.alone →
      s₁.brace.erase = s₂.brace.erase ∧
      ((∀ any ∈ s₁.brace.node.nodes ++ s₂.brace.node.nodes, any.IsUnmarked) →
        s₁.brace.withoutData = s₂.brace.withoutData)) := by
  refine ⟨Program.print_brace {} s₁.alone, fun hprint => ?_⟩
  have herase : s₁.brace.erase = s₂.brace.erase := by
    have hread := h₁.readStatement_print
    rw [hprint, h₂.readStatement_print] at hread
    exact (congrArg Prod.fst (Option.some.inj hread)).symm
  refine ⟨herase, fun hmarks => ?_⟩
  rw [← Child.erase_of_unmarked _ fun any hany => hmarks any (List.mem_append_left _ hany),
    ← Child.erase_of_unmarked _ fun any hany => hmarks any (List.mem_append_right _ hany)]
  exact herase

/-- `if (a) for (;;) if (b) x; else y;` with the `else` meant for the first `if`, and the
loop changed by `close`. -/
def danglingElse (data : NodeData) (close : Stmt → Stmt) : Stmt :=
  let name (text : String) : Ident := ⟨⟨text, false, .unresolved⟩, data⟩
  .ifElse data (name "a").expr
    (close (.forever data (.ifThen data (name "b").expr (.expression data (name "x").expr))))
    (.expression data (name "y").expr)

theorem danglingElse_braced :
    Program.print {} (danglingElse .blank id).alone
      = "if (a) \x7b\n    for (;;) if (b) x;\n\x7d else y;\n" ∧
    Program.print {} (danglingElse ⟨7, none, none, [], []⟩ fun s => .block .blank [s]).alone
      = "if (a) \x7b\n    for (;;) if (b) x;\n\x7d else y;\n" ∧
    (danglingElse .blank id).brace.withoutData
      = (danglingElse ⟨7, none, none, [], []⟩ fun s => .block .blank [s]).brace.withoutData := by
  have hname : ∀ (data : NodeData) (text : String), IsIdent text →
      IsTest (Ident.expr ⟨⟨text, false, .unresolved⟩, data⟩) :=
    fun _ _ h => .inr ⟨_, h, rfl⟩
  have hx : IsIdent "x" := by decide
  have hloop : ∀ data : NodeData, data.comments = [] → Simple true (.forever data (.ifThen data
      (Ident.expr ⟨⟨"b", false, .unresolved⟩, data⟩)
        (.expression data (Ident.expr ⟨⟨"x", false, .unresolved⟩, data⟩)))) := fun data hdata =>
    .forever hdata (.ifThen hdata (hname _ _ (by decide)) (.expression hdata hx))
  have hprint₁ : Program.print {} (danglingElse .blank id).alone
      = "if (a) \x7b\n    for (;;) if (b) x;\n\x7d else y;\n" := by
    decide +kernel
  have hprint₂ :
      Program.print {} (danglingElse ⟨7, none, none, [], []⟩ fun s => .block .blank [s]).alone
        = "if (a) \x7b\n    for (;;) if (b) x;\n\x7d else y;\n" := by
    decide +kernel
  have hsame := erase_brace_of_print (danglingElse .blank id)
    (danglingElse ⟨7, none, none, [], []⟩ fun s => .block .blank [s])
    (.ifElse rfl (hname _ _ (by decide)) (hloop _ rfl) (.expression rfl (by decide)) fun _ => rfl)
    (.ifElse rfl (hname _ _ (by decide)) (.block rfl (by simpa using hloop _ rfl))
      (.expression rfl (by decide)) fun _ => rfl)
  exact ⟨hprint₁, hprint₂, (hsame.2 (hprint₁.trans hprint₂.symm)).2 (by decide +kernel)⟩

end EsFront
