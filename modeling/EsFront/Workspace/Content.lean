/-
Contents of files and streams.

Bytes that are UTF-8 are kept as text.
-/
import EsFront.Text.Utf8

namespace EsFront

/-- A number of bytes. -/
abbrev Bytes := List UInt8

/-- The bytes of a text. -/
def utf8 (text : String) : Bytes := text.toUTF8.toList

/-- The content of a file. -/
inductive Content where
  | text (s : String)
  /-- Bytes that are not UTF-8. -/
  | binary (bytes : Bytes)
deriving DecidableEq, Repr, Inhabited

namespace Content

def bytes : Content → Bytes
  | text s => utf8 s
  | binary bytes => bytes

/-- The content with the given bytes. -/
def ofBytes (bytes : Bytes) : Content :=
  match String.fromUTF8? ⟨bytes.toArray⟩ with
  | some s => text s
  | none => binary bytes

/-- The text, with replacement characters for bytes that are none. -/
def lossyText : Content → String
  | text s => s
  | binary bytes => Utf8.decodeLossy bytes

end Content

end EsFront
