/-
Quoted text.

A text is written between double quotes with the short escapes of JSON, which
are escapes of JavaScript string literals too. Everything from U+0020 on is
written as it is, quote and backslash apart.
-/
namespace EsFront.Json

/-- The lower-case hexadecimal digit of a number below 16. -/
def hexDigit (n : Nat) : Char := Nat.digitChar n

/-- One character inside a quoted text. -/
def escapeChar (c : Char) : List Char :=
  if c = '"' then ['\\', '"']
  else if c = '\\' then ['\\', '\\']
  else if c = '\n' then ['\\', 'n']
  else if c = '\r' then ['\\', 'r']
  else if c = '\t' then ['\\', 't']
  else if c = '\x08' then ['\\', 'b']
  else if c = '\x0c' then ['\\', 'f']
  else if c.toNat < 0x20 then
    ['\\', 'u', '0', '0', hexDigit (c.toNat / 16), hexDigit (c.toNat % 16)]
  else [c]

/-- The characters of a text between double quotes, with escapes. -/
def quoteChars (chars : List Char) : List Char :=
  '"' :: (chars.flatMap escapeChar ++ ['"'])

/-- A text between double quotes, with escapes. -/
def quote (text : String) : String := String.ofList (quoteChars text.toList)

end EsFront.Json
