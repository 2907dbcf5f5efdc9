/-
UTF-8 with mistakes.

Bytes are read as a text, one byte at a time. A character that breaks off, and
a byte that starts none, are shown as the replacement character.

* `Utf8.step` — what one byte does;
* `Utf8.decodeLossy` — the text of any bytes.
-/
namespace EsFront.Utf8

/-- A character that is being read: the bytes still owed, the bounds of the
next one, and the bits so far. -/
structure Pending where
  owed : Nat
  low : Nat := 0x80
  high : Nat := 0xBF
  bits : Nat
deriving DecidableEq, Repr, Inhabited

/-- A text that is being read, its characters in reverse order. -/
structure Decoding where
  pending : Option Pending := none
  chars : List Char := []
deriving DecidableEq, Repr, Inhabited

/-- Stands for bytes that are no character. -/
def replacement : Char := Char.ofNat 0xFFFD

/-- The character that a byte above the one-byte characters starts. -/
def pending? (b : Nat) : Option Pending :=
  if 0xC2 ≤ b && b ≤ 0xDF then some { owed := 1, bits := b - 0xC0 }
  else if b = 0xE0 then some { owed := 2, low := 0xA0, bits := 0 }
  else if b = 0xED then some { owed := 2, high := 0x9F, bits := 0xD }
  else if 0xE1 ≤ b && b ≤ 0xEF then some { owed := 2, bits := b - 0xE0 }
  else if b = 0xF0 then some { owed := 3, low := 0x90, bits := 0 }
  else if 0xF1 ≤ b && b ≤ 0xF3 then some { owed := 3, bits := b - 0xF0 }
  else if b = 0xF4 then some { owed := 3, high := 0x8F, bits := 4 }
  else none

/-- A byte between two characters. -/
def start (chars : List Char) (b : Nat) : Decoding :=
  if b < 0x80 then ⟨none, Char.ofNat b :: chars⟩
  else
    match pending? b with
    | some p => ⟨some p, chars⟩
    | none => ⟨none, replacement :: chars⟩

/-- Takes one byte. One that does not go on with a character starts anew. -/
def step (d : Decoding) (byte : UInt8) : Decoding :=
  let b := byte.toNat
  match d.pending with
  | none => start d.chars b
  | some p =>
    if p.low ≤ b && b ≤ p.high then
      let bits := p.bits * 64 + (b - 0x80)
      if p.owed ≤ 1 then ⟨none, Char.ofNat bits :: d.chars⟩
      else ⟨some { owed := p.owed - 1, bits }, d.chars⟩
    else start (replacement :: d.chars) b

/-- The text of bytes. -/
def decodeLossy (bytes : List UInt8) : String :=
  let d := bytes.foldl step {}
  let chars := match d.pending with
    | none => d.chars
    | some _ => replacement :: d.chars
  String.ofList chars.reverse

end EsFront.Utf8
