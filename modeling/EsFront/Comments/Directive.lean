/-
Directives in doc comments.

A directive is an at sign, a tag, a parameter in braces and an optional name:
`@tag {param} name`. Tag and name are words of ASCII letters, digits and
underscores, possibly empty; blanks and tabs may separate the parts. Matches
are taken from left to right, each as long as it can be, and none overlaps
the one before.
-/
import EsFront.Syntax.Comment

namespace EsFront

/-- The characters of tags and names. -/
def isWordChar (c : Char) : Bool := c.isAlphanum || c = '_'

/-- The characters that may separate the parts of a directive. -/
def isGap (c : Char) : Bool := c = ' ' || c = '\t'

/-- The parts of a directive at the start of a text. -/
structure DirectiveMatch where
  tag : List Char
  param : List Char
  name : List Char
  /-- The matched text. -/
  matched : List Char
deriving DecidableEq, Repr

namespace DirectiveMatch

/-- What follows the at sign, if it is a directive. -/
def afterSign? (text : List Char) : Option DirectiveMatch :=
  let tag := text.takeWhile isWordChar
  let afterTag := text.dropWhile isWordChar
  match afterTag.dropWhile isGap with
  | '\x7b' :: inside =>
    let param := inside.takeWhile (· ≠ '\x7d')
    match inside.dropWhile (· ≠ '\x7d') with
    | '\x7d' :: after =>
      let gap := after.takeWhile isGap
      let name := (after.dropWhile isGap).takeWhile isWordChar
      some
        { tag, param, name
          matched := '@' :: (tag ++ afterTag.takeWhile isGap ++ '\x7b' :: (param ++ '\x7d' ::
            (gap ++ name))) }
    | _ => none
  | _ => none

/-- The directives of a text from left to right. The first argument counts
characters of the last match that are still to be passed over. -/
def scan : Nat → List Char → List DirectiveMatch
  | _, [] => []
  | skip + 1, _ :: rest => scan skip rest
  | 0, c :: rest =>
    if c = '@' then
      match afterSign? rest with
      | some found => found :: scan (found.matched.length - 1) rest
      | none => scan 0 rest
    else scan 0 rest

end DirectiveMatch

namespace Comment

/-- The directives of a comment, in order of appearance. -/
def directives (comment : Comment) : List Directive :=
  (DirectiveMatch.scan 0 comment.value.toList).map fun found =>
    { kind := comment.kind
      tag := String.ofList found.tag
      param := String.ofList found.param
      name := String.ofList found.name
      rawText := "* " ++ String.ofList found.matched }

end Comment

end EsFront
