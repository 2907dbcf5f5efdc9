/-
Quoted texts read back.

The scanner, started inside a text, takes the characters that `escapeChar`
writes for a character back to that character (`unquoteFrom_escapeChar`). So
the end of a quoted text can be found, and the text between the quotes is the
one that was written (`unquoteFrom_flatMap`); in particular no text is written
like another one.
-/
import EsFront.Json.Quoted
import EsFront.Json.Token

namespace EsFront.Json

/-- The scanner in the middle of a text, of which it has read `chars`. -/
def Scan.inText (chars : String) : Scan := ⟨.text chars, []⟩

/-- Runs the scanner to the end of the text it is in: the text and the
characters after the closing quote. -/
def unquoteFrom (scan : Scan) : List Char → Option (String × List Char)
  | [] => none
  | c :: rest =>
    match scan.step c with
    | some ⟨.between, [.scalar (.string text)]⟩ => some (text, rest)
    | some next => unquoteFrom next rest
    | none => none

/-- Reading a hexadecimal digit undoes writing it. -/
theorem Scan.hexValue?_hexDigit : ∀ n < 16, Scan.hexValue? (hexDigit n) = some n := by
  decide

theorem unquoteFrom_quote (chars : String) (rest : List Char) :
    unquoteFrom (Scan.inText chars) ('"' :: rest) = some (chars, rest) := by
  simp [unquoteFrom, Scan.inText, Scan.step]

theorem unquoteFrom_shortEscape (chars : String) {letter c : Char} (rest : List Char)
    (hu : letter ≠ 'u') (h : Scan.shortEscape? letter = some c) :
    unquoteFrom (Scan.inText chars) ('\\' :: letter :: rest)
      = unquoteFrom (Scan.inText (chars.push c)) rest := by
  simp [unquoteFrom, Scan.inText, Scan.step, hu, h]

/-- The escape with four hexadecimal digits that is written for a control
character. -/
theorem unquoteFrom_hexEscape (chars : String) {n : Nat} (rest : List Char) (h : n < 0x20) :
    unquoteFrom (Scan.inText chars)
        ('\\' :: 'u' :: '0' :: '0' :: hexDigit (n / 16) :: hexDigit (n % 16) :: rest)
      = unquoteFrom (Scan.inText (chars.push (Char.ofNat n))) rest := by
  have hzero : Scan.hexValue? '0' = some 0 := by decide
  have hhigh := Scan.hexValue?_hexDigit (n / 16) (by omega)
  have hlow := Scan.hexValue?_hexDigit (n % 16) (by omega)
  have hvalue : 16 * (n / 16) + n % 16 = n := Nat.div_add_mod n 16
  have hsmall : ¬ 0xD800 ≤ n := by omega
  have hlower : ¬ 0xDC00 ≤ n := by omega
  simp [unquoteFrom, Scan.inText, Scan.step, Scan.finishHex, hzero, hhigh, hlow, hvalue, hsmall,
    hlower]

theorem unquoteFrom_plain (chars : String) {c : Char} (rest : List Char) (hquote : c ≠ '"')
    (hslash : c ≠ '\\') (h : ¬ c.toNat < 0x20) :
    unquoteFrom (Scan.inText chars) (c :: rest)
      = unquoteFrom (Scan.inText (chars.push c)) rest := by
  simp [unquoteFrom, Scan.inText, Scan.step, hquote, hslash, h]

/-- The three ways in which a character is written. -/
theorem escapeChar_cases (c : Char) :
    (∃ letter, escapeChar c = ['\\', letter] ∧ letter ≠ 'u' ∧ Scan.shortEscape? letter = some c) ∨
    (escapeChar c = ['\\', 'u', '0', '0', hexDigit (c.toNat / 16), hexDigit (c.toNat % 16)] ∧
      c.toNat < 0x20) ∨
    (escapeChar c = [c] ∧ c ≠ '"' ∧ c ≠ '\\' ∧ ¬ c.toNat < 0x20) := by
  by_cases hshort : c ∈ ['"', '\\', '\n', '\r', '\t', '\x08', '\x0c']
  · left
    simp only [List.mem_cons, List.not_mem_nil, or_false] at hshort
    rcases hshort with rfl | rfl | rfl | rfl | rfl | rfl | rfl
    all_goals exact ⟨_, rfl, by decide, by decide⟩
  · right
    simp only [List.mem_cons, List.not_mem_nil, or_false, not_or] at hshort
    by_cases hcontrol : c.toNat < 0x20
    · left
      simp [escapeChar, hshort, hcontrol]
    · right
      simp [escapeChar, hshort, hcontrol]

/-- The scanner reads the written form of a character as that character. -/
theorem unquoteFrom_escapeChar (chars : String) (c : Char) (rest : List Char) :
    unquoteFrom (Scan.inText chars) (escapeChar c ++ rest)
      = unquoteFrom (Scan.inText (chars.push c)) rest := by
  obtain ⟨letter, hc, hu, hletter⟩ | ⟨hc, hcontrol⟩ | ⟨hc, hquote, hslash, hcontrol⟩ :=
    escapeChar_cases c
  · rw [hc]
    exact unquoteFrom_shortEscape chars rest hu hletter
  · have hread := unquoteFrom_hexEscape chars rest hcontrol
    rw [Char.ofNat_toNat] at hread
    rw [hc]
    exact hread
  · rw [hc]
    exact unquoteFrom_plain chars rest hquote hslash hcontrol

/-- Inside a text, the written forms of characters up to the closing quote are
read as those characters. -/
theorem unquoteFrom_flatMap (text : List Char) (chars : String) (rest : List Char) :
    unquoteFrom (Scan.inText chars) (text.flatMap escapeChar ++ '"' :: rest)
      = some (chars ++ String.ofList text, rest) := by
  induction text generalizing chars with
  | nil => simp [unquoteFrom_quote]
  | cons c text ih =>
    rw [List.flatMap_cons, List.append_assoc, unquoteFrom_escapeChar, ih]
    simp [String.ext_iff]

end EsFront.Json
