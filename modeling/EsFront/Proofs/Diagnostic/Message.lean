/-
What the arguments of a message become.

A template is filled one argument after the other, and each time the whole text
is searched, with the arguments that are in it by then. So the text is the
template with all its placeholders replaced at once (`substitute`) as long as no
argument, by itself or together with what stands around it, makes a placeholder
that is still to come. This is all that can go wrong: main statement
`formatMessage_eq_substitute_iff`.

* `replaceChars_append_cons`, `length_replaceChars`, `replaceChars_eq_self_iff` —
  one argument, in any text;
* `replaceChars_flatMap_iff` — one argument, in a text that is made of the parts
  of a template.
-/
import Mathlib.Data.List.Basic
import Mathlib.Data.List.Induction
import Mathlib.Tactic.Linarith
import EsFront.Diagnostic.Message
import EsFront.Proofs.Text.Runs

namespace EsFront

/-! ### Occurrences -/

/-- How often a pattern stands in a text. -/
def occurrences (pattern text : List Char) : Nat := text.tails.countP pattern.isPrefixOf

/-- What begins a text that goes on with a character either ends before that
character or has it. -/
theorem prefix_or_of_prefix_append {pattern text rest : List Char} {c : Char}
    (h : pattern <+: text ++ c :: rest) : pattern <+: text ∨ text ++ [c] <+: pattern := by
  rcases List.prefix_or_prefix_of_prefix h (List.prefix_append text _) with hshort | ⟨more, rfl⟩
  · exact .inl hshort
  · cases more with
    | nil =>
      rw [List.append_nil]
      exact .inl (List.prefix_refl _)
    | cons d more =>
      have htail := (List.prefix_append_right_inj _).mp h
      rw [(List.cons_prefix_cons.mp htail).1]
      exact .inr ⟨more, by rw [List.append_assoc]; rfl⟩

section pattern

variable {first : Char} {body replacement : List Char}

/-- An occurrence does not reach over the first character of another one. -/
theorem prefix_append_cons_iff (hbody : first ∉ body) (c : Char) (text rest : List Char) :
    first :: body <+: (c :: text) ++ first :: rest ↔ first :: body <+: c :: text := by
  refine ⟨fun h => ?_, fun h => h.trans (List.prefix_append _ _)⟩
  rcases prefix_or_of_prefix_append h with hshort | hlong
  · exact hshort
  · have htail : text ++ [first] <+: body := (List.cons_prefix_cons.mp hlong).2
    exact absurd (htail.subset (List.mem_append_right _ List.mem_cons_self)) hbody

/-- An occurrence does not reach over a character that the pattern does not
have. -/
theorem prefix_append_apart_iff {other : Char} (hother : other ∉ first :: body)
    (text rest : List Char) :
    first :: body <+: text ++ other :: rest ↔ first :: body <+: text := by
  refine ⟨fun h => ?_, fun h => h.trans (List.prefix_append _ _)⟩
  rcases prefix_or_of_prefix_append h with hshort | hlong
  · exact hshort
  · exact absurd (hlong.subset (List.mem_append_right _ List.mem_cons_self)) hother

theorem occurrences_nil : occurrences (first :: body) [] = 0 := rfl

theorem occurrences_cons (pattern : List Char) (c : Char) (text : List Char) :
    occurrences pattern (c :: text)
      = occurrences pattern text + if pattern <+: c :: text then 1 else 0 := by
  rw [occurrences, List.tails, List.countP_cons, occurrences]
  simp only [List.isPrefixOf_iff_prefix]

theorem occurrences_append_of_not_mem {text : List Char} (h : first ∉ text) (rest : List Char) :
    occurrences (first :: body) (text ++ rest) = occurrences (first :: body) rest := by
  induction text with
  | nil => rfl
  | cons c text ih =>
    rw [List.mem_cons, not_or] at h
    have hnot : ¬ first :: body <+: c :: (text ++ rest) :=
      fun hprefix => h.1 (List.cons_prefix_cons.mp hprefix).1
    rw [List.cons_append, occurrences_cons, if_neg hnot, ih h.2, Nat.add_zero]

theorem occurrences_le_append (pattern text rest : List Char) :
    occurrences pattern rest ≤ occurrences pattern (text ++ rest) := by
  induction text with
  | nil => exact Nat.le_refl _
  | cons c text ih =>
    rw [List.cons_append, occurrences_cons]
    exact Nat.le_add_right_of_le ih

theorem occurrences_pattern_append (hbody : first ∉ body) (rest : List Char) :
    occurrences (first :: body) (first :: body ++ rest)
      = occurrences (first :: body) rest + 1 := by
  have hprefix : first :: body <+: first :: (body ++ rest) := ⟨rest, rfl⟩
  rw [List.cons_append, occurrences_cons, if_pos hprefix, occurrences_append_of_not_mem hbody]

theorem occurrences_append_cons (hbody : first ∉ body) (text rest : List Char) :
    occurrences (first :: body) (text ++ first :: rest)
      = occurrences (first :: body) text + occurrences (first :: body) (first :: rest) := by
  induction text with
  | nil => rw [List.nil_append, occurrences_nil, Nat.zero_add]
  | cons c text ih =>
    have hsame := prefix_append_cons_iff hbody c text rest
    rw [List.cons_append] at hsame
    rw [List.cons_append, occurrences_cons, occurrences_cons, ih]
    simp only [hsame]
    omega

theorem occurrences_append_apart {other : Char} (hother : other ∉ first :: body)
    (text rest : List Char) :
    occurrences (first :: body) (text ++ other :: rest)
      = occurrences (first :: body) text + occurrences (first :: body) rest := by
  induction text with
  | nil =>
    have hnot : ¬ first :: body <+: other :: rest := by
      intro h
      rw [(List.cons_prefix_cons.mp h).1] at hother
      exact hother List.mem_cons_self
    rw [List.nil_append, occurrences_cons, if_neg hnot, occurrences_nil, Nat.zero_add, Nat.add_zero]
  | cons c text ih =>
    have hsame := prefix_append_apart_iff hother (c :: text) rest
    rw [List.cons_append] at hsame
    rw [List.cons_append, occurrences_cons, occurrences_cons, ih]
    simp only [hsame]
    omega

/-! ### One argument, in any text -/

theorem replaceChars_skip (pattern replacement text rest : List Char) :
    replaceChars pattern replacement text.length (text ++ rest)
      = replaceChars pattern replacement 0 rest := by
  induction text with
  | nil => rfl
  | cons c text ih => exact ih

theorem replaceChars_pattern_append (rest : List Char) :
    replaceChars (first :: body) replacement 0 (first :: body ++ rest)
      = replacement ++ replaceChars (first :: body) replacement 0 rest := by
  have hprefix : (first :: body).isPrefixOf (first :: (body ++ rest)) = true :=
    List.isPrefixOf_iff_prefix.mpr ⟨rest, rfl⟩
  rw [List.cons_append, replaceChars, if_pos hprefix, List.length_cons, Nat.add_sub_cancel,
    replaceChars_skip]

theorem replaceChars_cons {pattern : List Char} {c : Char} {rest : List Char}
    (h : ¬ pattern <+: c :: rest) :
    replaceChars pattern replacement 0 (c :: rest)
      = c :: replaceChars pattern replacement 0 rest := by
  rw [replaceChars, if_neg (fun hprefix => h (List.isPrefixOf_iff_prefix.mp hprefix))]

/-- A text is searched from left to right: behind an occurrence, or behind a
character where there is none. -/
theorem search_induction {motive : List Char → Prop} (first : Char) (body : List Char)
    (nil : motive []) (found : ∀ rest, motive rest → motive (first :: body ++ rest))
    (char : ∀ c rest, ¬ first :: body <+: c :: rest → motive rest → motive (c :: rest)) :
    ∀ text, motive text := by
  intro text
  induction hlength : text.length using Nat.strongRecOn generalizing text with
  | _ length ih =>
    subst hlength
    cases text with
    | nil => exact nil
    | cons c rest =>
      by_cases hprefix : first :: body <+: c :: rest
      · obtain ⟨after, hafter⟩ := hprefix
        rw [← hafter]
        refine found after (ih _ ?_ after rfl)
        rw [← hafter, List.length_append, List.length_cons]
        omega
      · exact char c rest hprefix (ih _ (Nat.lt_succ_self _) rest rfl)

/-- What stands before the first character of the pattern is searched by
itself. -/
theorem replaceChars_append_cons (hbody : first ∉ body) (text rest : List Char) :
    replaceChars (first :: body) replacement 0 (text ++ first :: rest)
      = replaceChars (first :: body) replacement 0 text
        ++ replaceChars (first :: body) replacement 0 (first :: rest) := by
  induction text using search_induction first body with
  | nil => rfl
  | found text ih =>
    rw [List.append_assoc, replaceChars_pattern_append, replaceChars_pattern_append, ih,
      List.append_assoc]
  | char c text hnot ih =>
    have hnot' : ¬ first :: body <+: c :: (text ++ first :: rest) :=
      fun hprefix => hnot ((prefix_append_cons_iff hbody c text rest).mp hprefix)
    rw [List.cons_append, replaceChars_cons hnot', replaceChars_cons hnot, ih, List.cons_append]

theorem length_replaceChars (replacement : List Char) (hbody : first ∉ body) (text : List Char) :
    (replaceChars (first :: body) replacement 0 text).length
        + occurrences (first :: body) text * (first :: body).length
      = text.length + occurrences (first :: body) text * replacement.length := by
  induction text using search_induction first body with
  | nil => rw [replaceChars, occurrences_nil, Nat.zero_mul, Nat.zero_mul]
  | found rest ih =>
    rw [replaceChars_pattern_append, occurrences_pattern_append hbody, List.length_append,
      List.length_append, Nat.add_mul, Nat.add_mul]
    omega
  | char c rest hnot ih =>
    rw [replaceChars_cons hnot, occurrences_cons, if_neg hnot, Nat.add_zero, List.length_cons,
      @List.length_cons _ c rest]
    omega

theorem replaceChars_self (text : List Char) :
    replaceChars (first :: body) (first :: body) 0 text = text := by
  induction text using search_induction first body with
  | nil => rfl
  | found rest ih => rw [replaceChars_pattern_append, ih]
  | char c rest hnot ih => rw [replaceChars_cons hnot, ih]

/-- A text stays as it is only if nothing is replaced, or is replaced by
itself. -/
theorem replaceChars_eq_self_iff (hbody : first ∉ body) (text : List Char) :
    replaceChars (first :: body) replacement 0 text = text
      ↔ replacement = first :: body ∨ occurrences (first :: body) text = 0 := by
  induction text using search_induction first body with
  | nil => exact ⟨fun _ => .inr occurrences_nil, fun _ => rfl⟩
  | found rest ih =>
    rw [replaceChars_pattern_append, occurrences_pattern_append hbody]
    constructor
    · intro hsame
      have hlengths := congrArg List.length hsame
      have hrest := length_replaceChars replacement hbody rest
      rw [List.length_append, List.length_append] at hlengths
      -- every occurrence would make the text longer or shorter
      have hlength : replacement.length = (first :: body).length := by
        refine Nat.eq_of_mul_eq_mul_left
          (Nat.succ_pos (occurrences (first :: body) rest)) ?_
        rw [Nat.succ_mul, Nat.succ_mul]
        omega
      exact .inl (List.append_inj hsame hlength).1
    · rintro (rfl | hnone)
      · rw [replaceChars_self]
      · exact absurd hnone (Nat.succ_ne_zero _)
  | char c rest hnot ih =>
    rw [replaceChars_cons hnot, occurrences_cons, if_neg hnot, Nat.add_zero, ← ih,
      List.cons.injEq]
    exact ⟨fun h => h.2, fun h => ⟨rfl, h⟩⟩

/-- Equal changes come from equally many replacements, unless nothing changes. -/
theorem eq_of_mul_add_eq {m n a b : ℕ} (h : m * a + n * b = m * b + n * a) (hne : a ≠ b) :
    m = n := by
  have hzero : ((m : ℤ) - n) * ((a : ℤ) - b) = 0 := by
    have hcast : (m : ℤ) * a + n * b = m * b + n * a := by exact_mod_cast h
    linarith
  rcases mul_eq_zero.mp hzero with hmn | hab
  · omega
  · omega

/-- An argument between two texts is put in its place, and the rest of the second
text is filled, exactly when neither text has more of the pattern than `count`
places in the second. -/
theorem replaceChars_between_iff (hbody : first ∉ body) {before after filled : List Char}
    {count : ℕ}
    (hafter : replaceChars (first :: body) replacement 0 after = filled
      ↔ replacement = first :: body ∨ occurrences (first :: body) after = count)
    (hlength : filled.length + count * (first :: body).length
      = after.length + count * replacement.length)
    (hle : count ≤ occurrences (first :: body) after) :
    replaceChars (first :: body) replacement 0 (before ++ (first :: body ++ after))
        = before ++ (replacement ++ filled)
      ↔ replacement = first :: body ∨
        occurrences (first :: body) (before ++ (first :: body ++ after)) = count + 1 := by
  have hsplit : replaceChars (first :: body) replacement 0 (before ++ (first :: body ++ after))
      = replaceChars (first :: body) replacement 0 before
        ++ (replacement ++ replaceChars (first :: body) replacement 0 after) := by
    rw [List.cons_append, replaceChars_append_cons hbody, ← List.cons_append,
      replaceChars_pattern_append]
  have hcount : occurrences (first :: body) (before ++ (first :: body ++ after))
      = occurrences (first :: body) before + (occurrences (first :: body) after + 1) := by
    rw [List.cons_append, occurrences_append_cons hbody, ← List.cons_append,
      occurrences_pattern_append hbody]
  have hlengthBefore := length_replaceChars replacement hbody before
  have hlengthAfter := length_replaceChars replacement hbody after
  rw [hsplit, hcount]
  constructor
  · intro hsame
    have hlengths := congrArg List.length hsame
    simp only [List.length_append] at hlengths
    by_cases hlong : replacement.length = (first :: body).length
    · -- nothing moves, so each text is filled in its own place
      rw [hlong] at hlengthBefore
      obtain ⟨hfirst, hrest⟩ := List.append_inj hsame (by omega)
      have hnone := (replaceChars_eq_self_iff hbody before).mp hfirst
      have hrest := hafter.mp (List.append_inj hrest rfl).2
      rcases hnone with hself | hnone
      · exact .inl hself
      · exact hrest.imp_right fun hrest => by omega
    · -- the text is longer or shorter by the same amount for every replacement
      refine .inr ?_
      have htotal : occurrences (first :: body) before + occurrences (first :: body) after
          = count := by
        refine eq_of_mul_add_eq ?_ hlong
        rw [Nat.add_mul, Nat.add_mul]
        omega
      omega
  · rintro (rfl | htotal)
    · rw [replaceChars_self, hafter.mpr (.inl rfl)]
    · have hnone : occurrences (first :: body) before = 0 := by omega
      rw [(replaceChars_eq_self_iff hbody before).mpr (.inr hnone),
        hafter.mpr (.inr (by omega))]

end pattern

/-! ### Templates and their parts -/

/-- A part of a template: a character, or a placeholder. -/
inductive Segment where
  | char (c : Char)
  | hole (index : Nat)
deriving DecidableEq, Repr

/-- What stands for a part when the given arguments are there. A placeholder
without an argument stands for itself. -/
def Segment.fill (args : List String) : Segment → List Char
  | char c => [c]
  | hole index =>
    match args[index]? with
    | some arg => arg.toList
    | none => placeholder index

/-- The number of the placeholder with which a text begins, if it does. -/
def holeAt? : List Char → Option Nat
  | [] => none
  | c :: rest =>
    let index := Nat.ofDigitChars 10 (rest.takeWhile Char.isDigit) 0
    if (placeholder index).isPrefixOf (c :: rest) then some index else none

/-- The parts of a text, from left to right. The first argument counts
characters of the last placeholder that are still to be passed over. -/
def parts : Nat → List Char → List Segment
  | _, [] => []
  | skip + 1, _ :: rest => parts skip rest
  | 0, c :: rest =>
    match holeAt? (c :: rest) with
    | some index => .hole index :: parts ((placeholder index).length - 1) rest
    | none => .char c :: parts 0 rest

/-- A template with all its placeholders replaced by the arguments at once. -/
def substitute (template : String) (args : List String) : String :=
  String.ofList ((parts 0 template.toList).flatMap (Segment.fill args))

/-- What follows the opening brace of a placeholder. -/
def placeholderBody (index : Nat) : List Char := (toString index).toList ++ ['\x7d']

theorem not_mem_placeholderBody (index : Nat) : '\x7b' ∉ placeholderBody index := by
  intro hmem
  rcases List.mem_append.mp hmem with hdigit | hbrace
  · rw [Nat.toString_eq_ofList_toDigits, String.toList_ofList] at hdigit
    have := Nat.isDigit_of_mem_toDigits (by decide) (by decide) hdigit
    exact absurd this (by decide)
  · exact absurd hbrace (by decide)

theorem holeAt?_eq_some_iff {text : List Char} {index : Nat} :
    holeAt? text = some index ↔ placeholder index <+: text := by
  constructor
  · intro h
    cases text with
    | nil => cases h
    | cons c rest =>
      rw [holeAt?] at h
      split at h
      · rename_i hprefix
        cases h
        exact List.isPrefixOf_iff_prefix.mp hprefix
      · cases h
  · rintro ⟨rest, rfl⟩
    -- the digits end at the closing brace
    have hdigits : ((toString index).toList ++ ['\x7d'] ++ rest).takeWhile Char.isDigit
        = (toString index).toList := by
      rw [List.append_assoc]
      refine takeWhile_run ?_ (stops_cons (by decide))
      intro c hc
      rw [Nat.toString_eq_ofList_toDigits, String.toList_ofList] at hc
      exact Nat.isDigit_of_mem_toDigits (by decide) (by decide) hc
    have hindex : Nat.ofDigitChars 10 ((toString index).toList) 0 = index := by
      rw [Nat.toString_eq_ofList_toDigits, String.toList_ofList, Nat.ofDigitChars_ten_toDigits]
    have hprefix : (placeholder index).isPrefixOf (placeholder index ++ rest) = true :=
      List.isPrefixOf_iff_prefix.mpr (List.prefix_append _ _)
    change holeAt? ('\x7b' :: ((toString index).toList ++ ['\x7d'] ++ rest)) = some index
    rw [holeAt?, hdigits, hindex]
    exact if_pos hprefix

theorem parts_skip (text rest : List Char) : parts text.length (text ++ rest) = parts 0 rest := by
  induction text with
  | nil => rfl
  | cons c text ih => exact ih

theorem parts_placeholder_append (index : Nat) (rest : List Char) :
    parts 0 (placeholder index ++ rest) = .hole index :: parts 0 rest := by
  have hhole : holeAt? ('\x7b' :: (placeholderBody index ++ rest)) = some index :=
    holeAt?_eq_some_iff.mpr (List.prefix_append (placeholder index) rest)
  change parts 0 ('\x7b' :: (placeholderBody index ++ rest)) = _
  rw [parts, hhole]
  exact congrArg _ (parts_skip (placeholderBody index) rest)

theorem parts_cons {c : Char} {rest : List Char} (h : holeAt? (c :: rest) = none) :
    parts 0 (c :: rest) = .char c :: parts 0 rest := by
  rw [parts, h]

/-- A template is read from left to right, by placeholders and characters. -/
theorem parts_induction {motive : List Char → Prop} (nil : motive [])
    (hole : ∀ index rest, motive rest → motive (placeholder index ++ rest))
    (char : ∀ c rest, holeAt? (c :: rest) = none → motive rest → motive (c :: rest)) :
    ∀ text, motive text := by
  intro text
  induction hlength : text.length using Nat.strongRecOn generalizing text with
  | _ length ih =>
    subst hlength
    cases text with
    | nil => exact nil
    | cons c rest =>
      cases hfound : holeAt? (c :: rest) with
      | none => exact char c rest hfound (ih _ (Nat.lt_succ_self _) rest rfl)
      | some index =>
        obtain ⟨after, hafter⟩ := holeAt?_eq_some_iff.mp hfound
        rw [← hafter]
        refine hole index after (ih _ ?_ after rfl)
        rw [← hafter, placeholder, List.cons_append, List.length_cons, List.length_append]
        omega

/-- Without arguments a template stays as it is. -/
theorem flatMap_fill_nil (text : List Char) : (parts 0 text).flatMap (Segment.fill []) = text := by
  induction text using parts_induction with
  | nil => rfl
  | hole index rest ih =>
    rw [parts_placeholder_append, List.flatMap_cons, ih]
    rfl
  | char c rest hnone ih =>
    rw [parts_cons hnone, List.flatMap_cons, ih]
    rfl

/-- The placeholders among the parts are those that occur in the text. -/
theorem count_hole_parts (index : Nat) (text : List Char) :
    (parts 0 text).count (.hole index) = occurrences (placeholder index) text := by
  induction text using parts_induction with
  | nil => rfl
  | hole other rest ih =>
    rw [parts_placeholder_append, List.count_cons, ih]
    by_cases hsame : other = index
    · subst hsame
      rw [if_pos (beq_self_eq_true _)]
      exact (occurrences_pattern_append (not_mem_placeholderBody other) rest).symm
    · have hnot : ¬ placeholder index <+: '\x7b' :: (placeholderBody other ++ rest) := by
        intro hprefix
        have hother := holeAt?_eq_some_iff.mpr (List.prefix_append (placeholder other) rest)
        have hindex := holeAt?_eq_some_iff.mpr hprefix
        exact hsame (Option.some_inj.mp (hother.symm.trans hindex))
      rw [if_neg (by simpa using hsame)]
      change _ = occurrences (placeholder index) ('\x7b' :: (placeholderBody other ++ rest))
      rw [occurrences_cons, if_neg hnot, Nat.add_zero, Nat.add_zero]
      exact (occurrences_append_of_not_mem (not_mem_placeholderBody other) rest).symm
  | char c rest hnone ih =>
    have hnot : ¬ placeholder index <+: c :: rest := by
      intro hprefix
      rw [holeAt?_eq_some_iff.mpr hprefix] at hnone
      cases hnone
    rw [parts_cons hnone, occurrences_cons, if_neg hnot, List.count_cons, ih]
    rfl

/-! ### One argument, in a filled template -/

section fill

variable (args : List String) (arg : String)

theorem Segment.fill_append_of_ne {part : Segment} (h : part ≠ .hole args.length) :
    part.fill (args ++ [arg]) = part.fill args := by
  cases part with
  | char c => rfl
  | hole index =>
    have hne : index ≠ args.length := fun heq => h (congrArg Segment.hole heq)
    have hsame : (args ++ [arg])[index]? = args[index]? := by
      rcases Nat.lt_or_gt_of_ne hne with hlt | hgt
      · exact List.getElem?_append_left hlt
      · rw [List.getElem?_eq_none (Nat.le_of_lt hgt), List.getElem?_eq_none]
        rw [List.length_append]
        exact hgt
    rw [fill, fill, hsame]

theorem Segment.fill_hole_length : (hole args.length).fill args = placeholder args.length := by
  rw [fill, List.getElem?_eq_none (Nat.le_refl _)]

theorem Segment.fill_append_hole_length : (hole args.length).fill (args ++ [arg]) = arg.toList := by
  rw [fill, List.getElem?_concat_length]

/-- A placeholder without an argument occurs wherever the template has it. -/
theorem count_le_occurrences (ps : List Segment) :
    ps.count (.hole args.length)
      ≤ occurrences (placeholder args.length) (ps.flatMap (Segment.fill args)) := by
  induction ps with
  | nil => exact Nat.zero_le _
  | cons part ps ih =>
    rw [List.flatMap_cons, List.count_cons]
    by_cases hsame : part = .hole args.length
    · subst hsame
      have hmore := occurrences_pattern_append (not_mem_placeholderBody args.length)
        (ps.flatMap (Segment.fill args))
      rw [if_pos (beq_self_eq_true _), Segment.fill_hole_length]
      exact Nat.le_trans (Nat.succ_le_succ ih) (Nat.le_of_eq hmore.symm)
    · rw [if_neg (by simpa using hsame), Nat.add_zero]
      exact Nat.le_trans ih (occurrences_le_append _ _ _)

/-- How much longer a template gets by the next argument. -/
theorem length_flatMap_fill (ps : List Segment) :
    (ps.flatMap (Segment.fill (args ++ [arg]))).length
        + ps.count (.hole args.length) * (placeholder args.length).length
      = (ps.flatMap (Segment.fill args)).length
        + ps.count (.hole args.length) * arg.toList.length := by
  induction ps with
  | nil => simp only [List.flatMap_nil, List.count_nil, Nat.zero_mul]
  | cons part ps ih =>
    rw [List.flatMap_cons, List.flatMap_cons, List.length_append, List.length_append,
      List.count_cons]
    by_cases hsame : part = .hole args.length
    · subst hsame
      rw [if_pos (beq_self_eq_true _), Segment.fill_hole_length, Segment.fill_append_hole_length,
        Nat.add_mul, Nat.add_mul]
      omega
    · rw [if_neg (by simpa using hsame), Segment.fill_append_of_ne args arg hsame, Nat.add_zero]
      omega

/-- The next argument is put in its places and nowhere else exactly when its
placeholder occurs nowhere else, or is the argument itself. -/
theorem replaceChars_flatMap_iff (ps : List Segment) :
    replaceChars (placeholder args.length) arg.toList 0 (ps.flatMap (Segment.fill args))
        = ps.flatMap (Segment.fill (args ++ [arg]))
      ↔ arg.toList = placeholder args.length ∨
        occurrences (placeholder args.length) (ps.flatMap (Segment.fill args))
          = ps.count (.hole args.length) := by
  have hbody := not_mem_placeholderBody args.length
  have hsame : ∀ {qs : List Segment}, .hole args.length ∉ qs →
      qs.flatMap (Segment.fill (args ++ [arg])) = qs.flatMap (Segment.fill args) := by
    intro qs hqs
    refine List.flatMap_congr fun part hpart => Segment.fill_append_of_ne args arg ?_
    rintro rfl
    exact hqs hpart
  induction hlength : ps.length using Nat.strongRecOn generalizing ps with
  | _ length ih =>
    subst hlength
    by_cases hmem : .hole args.length ∈ ps
    · -- the text up to the first place of the argument, and the text behind it
      obtain ⟨before, after, rfl, hbefore⟩ := List.eq_append_cons_of_mem hmem
      have hafter := ih after.length (by rw [List.length_append, List.length_cons]; omega) after rfl
      simp only [List.flatMap_append, List.flatMap_cons, hsame hbefore, Segment.fill_hole_length,
        Segment.fill_append_hole_length, List.count_append, List.count_cons_self,
        List.count_eq_zero_of_not_mem hbefore, Nat.zero_add]
      exact replaceChars_between_iff hbody hafter (length_flatMap_fill args arg after)
        (count_le_occurrences args after)
    · rw [hsame hmem, List.count_eq_zero_of_not_mem hmem]
      exact replaceChars_eq_self_iff hbody _

end fill

/-! ### All arguments -/

theorem fillFrom_append (args : List String) (arg : String) :
    ∀ (index : Nat) (text : List Char), fillFrom index text (args ++ [arg])
      = replaceChars (placeholder (index + args.length)) arg.toList 0
        (fillFrom index text args) := by
  induction args with
  | nil => exact fun _ _ => rfl
  | cons other args ih =>
    intro index text
    rw [List.cons_append, fillFrom, ih, fillFrom, List.length_cons, Nat.add_assoc, Nat.add_comm 1]

theorem formatMessage_append (template : String) (args : List String) (arg : String) :
    (formatMessage template (args ++ [arg])).toList
      = replaceChars (placeholder args.length) arg.toList 0
        (formatMessage template args).toList := by
  rw [formatMessage, formatMessage, String.toList_ofList, String.toList_ofList, fillFrom_append,
    Nat.zero_add]

theorem formatMessage_nil (template : String) : formatMessage template [] = template :=
  String.ofList_toList

theorem toList_substitute (template : String) (args : List String) :
    (substitute template args).toList = (parts 0 template.toList).flatMap (Segment.fill args) :=
  String.toList_ofList

theorem substitute_nil (template : String) : substitute template [] = template := by
  rw [substitute, flatMap_fill_nil, String.ofList_toList]

/-- As long as all is well, the next argument keeps it so under one condition. -/
theorem formatMessage_append_eq_iff {template : String} {args : List String}
    (h : formatMessage template args = substitute template args) (arg : String) :
    formatMessage template (args ++ [arg]) = substitute template (args ++ [arg])
      ↔ arg.toList = placeholder args.length ∨
        occurrences (placeholder args.length) (formatMessage template args).toList
          = occurrences (placeholder args.length) template.toList := by
  rw [← String.toList_inj, formatMessage_append, toList_substitute, h, toList_substitute,
    replaceChars_flatMap_iff, count_hole_parts]

/-- With one argument nothing can go wrong. -/
theorem formatMessage_single (template arg : String) :
    formatMessage template [arg] = substitute template [arg] := by
  have h : formatMessage template [] = substitute template [] := by
    rw [formatMessage_nil, substitute_nil]
  refine (formatMessage_append_eq_iff h arg).mpr (.inr ?_)
  rw [formatMessage_nil]

/-- The report of an undefined identifier names it. -/
theorem formatMessage_undefinedIdentifier (name : String) :
    (formatMessage Message.undefinedIdentifier.template [name]).toList
      = "Undefined identifier ".toList ++ (name.toList ++ ['.']) := by
  have hparts : parts 0 Message.undefinedIdentifier.template.toList
      = "Undefined identifier ".toList.map .char ++ [.hole 0, .char '.'] := by
    decide +kernel
  rw [formatMessage_single, toList_substitute, hparts]
  simp [List.flatMap_cons, Segment.fill]

/-- With any first few of the arguments, a template is filled as if all its
placeholders were replaced at once, exactly when each argument finds its
placeholder as often as the template has it, or is that placeholder itself. -/
theorem formatMessage_eq_substitute_iff (template : String) (args : List String) :
    (∀ given, given <+: args → formatMessage template given = substitute template given)
      ↔ ∀ given next, given ++ [next] <+: args →
          next.toList = placeholder given.length ∨
          occurrences (placeholder given.length) (formatMessage template given).toList
            = occurrences (placeholder given.length) template.toList := by
  constructor
  · intro h given next hprefix
    have hgiven := h given ((List.prefix_append given [next]).trans hprefix)
    exact (formatMessage_append_eq_iff hgiven next).mp (h _ hprefix)
  · intro h given
    induction given using List.reverseRecOn with
    | nil =>
      intro _
      rw [formatMessage_nil, substitute_nil]
    | append_singleton given next ih =>
      intro hprefix
      have hgiven := ih ((List.prefix_append given [next]).trans hprefix)
      exact (formatMessage_append_eq_iff hgiven next).mpr (h given next hprefix)

/-- The one message with two places tells of the file and the reason what it is
given, exactly when the place of the reason does not stand in the name of the
file; or the reason is that place. -/
theorem formatMessage_cannotReadFile_iff (file reason : String) :
    formatMessage Message.cannotReadFile.template [file, reason]
        = substitute Message.cannotReadFile.template [file, reason]
      ↔ reason.toList = placeholder 1 ∨ occurrences (placeholder 1) file.toList = 0 := by
  have hparts : parts 0 Message.cannotReadFile.template.toList
      = "Cannot read file '".toList.map .char
        ++ .hole 0 :: ("': ".toList.map .char ++ [.hole 1]) := by
    decide +kernel
  have htext : (formatMessage Message.cannotReadFile.template [file]).toList
      = "Cannot read file ".toList
        ++ '\'' :: (file.toList ++ '\'' :: (": ".toList ++ placeholder 1)) := by
    rw [formatMessage_single, toList_substitute, hparts]
    simp [List.flatMap_cons, Segment.fill]
  have hapart : '\'' ∉ placeholder 1 := by decide
  have hcount : occurrences (placeholder 1) (formatMessage Message.cannotReadFile.template
      [file]).toList = occurrences (placeholder 1) file.toList + 1 := by
    have hstart : occurrences (placeholder 1) "Cannot read file ".toList = 0 := by decide +kernel
    have hend : occurrences (placeholder 1) (": ".toList ++ placeholder 1) = 1 := by decide +kernel
    rw [htext, placeholder, occurrences_append_apart hapart, occurrences_append_apart hapart,
      ← placeholder, hstart, hend, Nat.zero_add]
  have htemplate : occurrences (placeholder 1) Message.cannotReadFile.template.toList = 1 := by
    decide +kernel
  refine (formatMessage_append_eq_iff (formatMessage_single _ file) reason).trans ?_
  change (_ ∨ occurrences (placeholder 1) _ = occurrences (placeholder 1) _) ↔ _
  rw [hcount, htemplate, Nat.add_eq_right]
  exact Iff.rfl

/-- A file that is named like the place of the reason gets the reason as its
name. -/
theorem formatMessage_cannotReadFile_ne :
    formatMessage Message.cannotReadFile.template ["\x7b1\x7d", "gone"]
        = "Cannot read file 'gone': gone" ∧
      substitute Message.cannotReadFile.template ["\x7b1\x7d", "gone"]
        = "Cannot read file '\x7b1\x7d': gone" ∧
      formatMessage Message.cannotReadFile.template ["\x7b1\x7d", "gone"]
        ≠ substitute Message.cannotReadFile.template ["\x7b1\x7d", "gone"] := by
  decide +kernel

end EsFront
