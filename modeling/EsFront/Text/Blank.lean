/-
Blank characters.

Blanks are the characters with the Unicode property White_Space. Texts are
split into words at blanks, and trimmed of blanks at both ends.
-/
namespace EsFront

/-- Whether a character is a blank. -/
def isBlank (c : Char) : Bool :=
  let n := c.toNat
  (0x09 ≤ n && n ≤ 0x0D) || n = 0x20 || n = 0x85 || n = 0xA0 || n = 0x1680 ||
    (0x2000 ≤ n && n ≤ 0x200A) || n = 0x2028 || n = 0x2029 || n = 0x202F || n = 0x205F ||
    n = 0x3000

/-- Without the blanks at both ends. -/
def trimBlanks (text : String) : String :=
  let front := text.toList.dropWhile isBlank
  String.ofList (front.reverse.dropWhile isBlank).reverse

/-- Adds a character to the words behind it: a blank ends a word. -/
def addToWords (c : Char) : List (List Char) → List (List Char)
  | [] => if isBlank c then [[]] else [[c]]
  | word :: rest => if isBlank c then [] :: word :: rest else (c :: word) :: rest

/-- The words between blanks. -/
def words (text : String) : List String :=
  ((text.toList.foldr addToWords [[]]).filter (!·.isEmpty)).map String.ofList

end EsFront
