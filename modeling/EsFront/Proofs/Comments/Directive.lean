/-
Directives that are written and read again.

A directive has a normal spelling (`Directive.text`). When the normal spellings of
some directives stand one per line in a doc comment (`docText`), the directives of
the comment are these directives, in this order (`directives_docText`). Parameters may
hold signs, opening braces, line ends and whole directives but their last brace, and
tags and names may be empty; so the proof has to say where a match ends.

* `afterSign?_parts` — the parts of a directive are found where nothing after them
  can make the match longer;
* `scan_text` — the scan finds a directive in its normal spelling and goes on behind it.
-/
import EsFront.Comments.Directive
import EsFront.Proofs.Text.Runs

namespace EsFront

/-- Tag and name are words, and the parameter has no closing brace. -/
def Directive.Plain (d : Directive) : Prop :=
  d.tag.toList.all isWordChar ∧ '\x7d' ∉ d.param.toList ∧ d.name.toList.all isWordChar

instance (d : Directive) : Decidable d.Plain :=
  inferInstanceAs (Decidable (_ ∧ _ ∧ _))

/-- The text of a doc comment with one directive on each line. -/
def docText (ds : List Directive) : String :=
  "*" ++ String.join (ds.map fun d => "\n * " ++ d.text)

/-! ### Characters of words and of gaps -/

theorem not_isWordChar_of_isGap {c : Char} (h : isGap c = true) : isWordChar c = false := by
  rw [isGap, Bool.or_eq_true, decide_eq_true_eq, decide_eq_true_eq] at h
  rcases h with rfl | rfl <;> decide

theorem not_isGap_of_isWordChar {c : Char} (h : isWordChar c = true) : isGap c = false := by
  cases hgap : isGap c with
  | false => rfl
  | true =>
    rw [not_isWordChar_of_isGap hgap] at h
    exact absurd h Bool.false_ne_true

namespace DirectiveMatch

/-! ### One directive -/

/-- The parts of a directive are found, if what stands behind them begins with
neither a blank nor a character of names: then each part is as long as it can be. -/
theorem afterSign?_parts {tag gap param gap' name rest : List Char}
    (htag : ∀ c ∈ tag, isWordChar c = true) (hgap : ∀ c ∈ gap, isGap c = true)
    (hparam : '\x7d' ∉ param) (hgap' : ∀ c ∈ gap', isGap c = true)
    (hname : ∀ c ∈ name, isWordChar c = true) (hword : Stops isWordChar rest)
    (hblank : Stops isGap rest) :
    afterSign? (tag ++ (gap ++ '\x7b' :: (param ++ '\x7d' :: (gap' ++ (name ++ rest)))))
      = some ⟨tag, param, name,
          '@' :: (tag ++ gap ++ '\x7b' :: (param ++ '\x7d' :: (gap' ++ name)))⟩ := by
  have hbrace : ∀ inside, Stops isGap ('\x7b' :: inside) := fun _ => stops_cons (by decide)
  -- the tag ends at a blank or at the brace
  have htagEnd : ∀ inside, Stops isWordChar (gap ++ '\x7b' :: inside) := by
    intro inside
    cases gap with
    | nil => exact stops_cons (by decide)
    | cons c gap => exact stops_cons (not_isWordChar_of_isGap (hgap c List.mem_cons_self))
  have hparamAll : ∀ c ∈ param, decide (c ≠ '\x7d') = true := by
    intro c hc
    rw [decide_eq_true_eq]
    rintro rfl
    exact hparam hc
  have hparamEnd : Stops (fun c => decide (c ≠ '\x7d')) ('\x7d' :: (gap' ++ (name ++ rest))) :=
    stops_cons (by decide)
  -- the blanks behind the parameter end at the name or, if there is none, at the rest
  have hgapEnd : Stops isGap (name ++ rest) := by
    cases name with
    | nil => exact hblank
    | cons c name => exact stops_cons (not_isGap_of_isWordChar (hname c List.mem_cons_self))
  unfold afterSign?
  simp only [takeWhile_run htag (htagEnd _), dropWhile_run htag (htagEnd _),
    takeWhile_run hgap (hbrace _), dropWhile_run hgap (hbrace _),
    takeWhile_run hparamAll hparamEnd, dropWhile_run hparamAll hparamEnd,
    takeWhile_run hgap' hgapEnd, dropWhile_run hgap' hgapEnd, takeWhile_run hname hword]

/-- What is found of a directive in its normal spelling. -/
def ofDirective (d : Directive) : DirectiveMatch :=
  ⟨d.tag.toList, d.param.toList, d.name.toList, d.text.toList⟩

/-- The blank that stands in front of a name, if there is a name. -/
def nameGap (d : Directive) : List Char := if d.name.isEmpty then [] else [' ']

theorem toList_text (d : Directive) : d.text.toList
    = '@' :: (d.tag.toList ++ [' '] ++
        '\x7b' :: (d.param.toList ++ '\x7d' :: (nameGap d ++ d.name.toList))) := by
  rw [Directive.text, nameGap]
  by_cases hname : d.name.isEmpty
  · have hnil : d.name.toList = [] := by
      rw [String.isEmpty_iff] at hname
      rw [hname]
      rfl
    simp [hname, hnil]
  · simp [hname]

theorem afterSign?_text {d : Directive} (hd : d.Plain) {rest : List Char}
    (hword : Stops isWordChar rest) (hblank : Stops isGap rest) :
    afterSign? (d.text.toList.tail ++ rest) = some (ofDirective d) := by
  have hnameGap : ∀ c ∈ nameGap d, isGap c = true := by
    rw [nameGap]
    split <;> simp [isGap]
  have hparts := afterSign?_parts (List.all_eq_true.mp hd.1)
    (by simp [isGap] : ∀ c ∈ [' '], isGap c = true) hd.2.1 hnameGap (List.all_eq_true.mp hd.2.2)
    hword hblank
  rw [ofDirective, toList_text]
  simpa using hparts

/-! ### The scan -/

/-- Characters to be passed over are passed over. -/
theorem scan_drop (skip : Nat) (text : List Char) : scan skip text = scan 0 (text.drop skip) := by
  induction text generalizing skip with
  | nil => simp [scan]
  | cons c text ih =>
    cases skip with
    | zero => rfl
    | succ skip => rw [scan, ih, List.drop_succ_cons]

/-- Nothing is found where there is no sign. -/
theorem scan_append {before : List Char} (h : '@' ∉ before) (rest : List Char) :
    scan 0 (before ++ rest) = scan 0 rest := by
  induction before with
  | nil => rfl
  | cons c before ih =>
    rw [List.mem_cons, not_or] at h
    rw [List.cons_append, scan, if_neg (fun hc => h.1 hc.symm), ih h.2]

/-- The scan finds a directive in its normal spelling and goes on behind it. -/
theorem scan_text {d : Directive} (hd : d.Plain) {rest : List Char}
    (hword : Stops isWordChar rest) (hblank : Stops isGap rest) :
    scan 0 (d.text.toList ++ rest) = ofDirective d :: scan 0 rest := by
  have hfound := afterSign?_text hd hword hblank
  obtain ⟨after, hafter⟩ : ∃ after, d.text.toList = '@' :: after := ⟨_, toList_text d⟩
  have hlength : (ofDirective d).matched.length - 1 = after.length := by
    rw [ofDirective, hafter, List.length_cons, Nat.add_sub_cancel]
  rw [hafter, List.tail_cons] at hfound
  rw [hafter, List.cons_append, scan, if_pos rfl, hfound]
  dsimp only
  rw [hlength, scan_drop, List.drop_left]

/-- On lines of their own all directives are found. -/
theorem scan_lines {ds : List Directive} (h : ∀ d ∈ ds, d.Plain) :
    scan 0 (ds.flatMap fun d => "\n * ".toList ++ d.text.toList) = ds.map ofDirective := by
  induction ds with
  | nil => rfl
  | cons d ds ih =>
    rw [List.forall_mem_cons] at h
    rw [List.flatMap_cons, List.append_assoc, scan_append (by decide), List.map_cons, ← ih h.2]
    -- the next line, if there is one, begins with a line end
    refine scan_text h.1 ?_ ?_
    · cases ds with
      | nil => exact fun c hc => absurd hc (by simp)
      | cons d' ds => exact stops_cons (by decide)
    · cases ds with
      | nil => exact fun c hc => absurd hc (by simp)
      | cons d' ds => exact stops_cons (by decide)

end DirectiveMatch

theorem toList_docText (ds : List Directive) :
    (docText ds).toList = ['*'] ++ ds.flatMap fun d => "\n * ".toList ++ d.text.toList := by
  rw [docText, String.toList_append, String.toList_join, List.flatMap_map]
  simp only [String.toList_append]
  rfl

/-- The directives of a comment that has the normal spellings of plain directives on its
lines are these directives; they are marked with the kind of the comment, and their raw
text is the normal spelling. -/
theorem directives_docText (comment : Comment) {ds : List Directive} (h : ∀ d ∈ ds, d.Plain) :
    { comment with value := docText ds }.directives
      = ds.map fun d => { d with kind := comment.kind, rawText := "* " ++ d.text } := by
  rw [Comment.directives, toList_docText, DirectiveMatch.scan_append (by decide),
    DirectiveMatch.scan_lines h, List.map_map]
  refine List.map_congr_left ?_
  intro d _
  simp [DirectiveMatch.ofDirective]

/-- A parameter that looks like one more line with a directive, and directives without tag
or name. -/
def nestedDirectives : List Directive :=
  [⟨.block, "param", "a\n * @b \x7bc", "x_1", "unread"⟩, ⟨.line, "", "@\x7b @y", "", ""⟩,
    ⟨.block, "return", "", "", ""⟩]

/-- The three directives are found again in their comment. -/
theorem nestedDirectives_docText :
    (∀ d ∈ nestedDirectives, d.Plain) ∧
      (⟨.line, docText nestedDirectives, none, none⟩ : Comment).directives
        = nestedDirectives.map fun d => { d with kind := .line, rawText := "* " ++ d.text } :=
  have hplain : ∀ d ∈ nestedDirectives, d.Plain := by decide
  ⟨hplain, directives_docText ⟨.line, "", none, none⟩ hplain⟩

end EsFront
