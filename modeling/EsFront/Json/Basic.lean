/-
JSON values.

An object keeps its members in the order in which they were written, repeated
keys included; looking a key up finds the member written last. Numbers keep
the distinction between the tokens that are integers and those that are not:
* `Json.get?`, `Json.text?`, `Json.flag` — reading members of objects;
* `Json.isAbsent` — a member that is missing or `null`;
* `Json.Number.toDouble` — the double a number stands for.
-/
import EsFront.Number.Double

namespace EsFront

namespace Json

/-- A JSON number: an integer token that fits in 64 bits, or a double. -/
inductive Number where
  /-- A non-negative integer below `2 ^ 64`. -/
  | natural (n : Nat)
  /-- The integer `-n`, not below `-2 ^ 63`. -/
  | negative (n : Nat)
  | double (d : Double)
deriving DecidableEq, Repr, Inhabited

namespace Number

/-- The double nearest to the number. -/
def toDouble : Number → Double
  | natural n => (Double.ofNat n).getD (.zero false)
  | negative n => ((Double.ofNat n).getD (.zero false)).neg
  | double d => d

end Number

end Json

/-- A JSON value. -/
inductive Json where
  | null
  | bool (b : Bool)
  | number (n : Json.Number)
  | string (s : String)
  | array (items : List Json)
  | object (members : List (String × Json))
deriving Repr, Inhabited

namespace Json

/-- The value of the last member with the given key. -/
def lookup (key : String) : List (String × Json) → Option Json
  | [] => none
  | (k, v) :: rest =>
    match lookup key rest with
    | some later => some later
    | none => if k = key then some v else none

/-- The value under `key`; `none` when there is none or `raw` is no object. -/
def get? (raw : Json) (key : String) : Option Json :=
  match raw with
  | object members => lookup key members
  | _ => none

/-- A text. -/
def asString? : Json → Option String
  | string s => some s
  | _ => none

/-- A list of values. -/
def asArray? : Json → Option (List Json)
  | array items => some items
  | _ => none

/-- An integer token without sign, point or exponent that fits in 64 bits. -/
def asNatural? : Json → Option Nat
  | number (.natural n) => some n
  | _ => none

def isNull : Json → Bool
  | null => true
  | _ => false

def isObject : Json → Bool
  | object _ => true
  | _ => false

/-- The text under `key`. -/
def text? (raw : Json) (key : String) : Option String := (raw.get? key).bind asString?

/-- The truth value under `key`; false when there is none. -/
def flag (raw : Json) (key : String) : Bool :=
  match raw.get? key with
  | some (bool b) => b
  | _ => false

/-- Whether the member `key` is missing or `null`. -/
def isAbsent (raw : Json) (key : String) : Bool :=
  match raw.get? key with
  | none => true
  | some value => value.isNull

/-- A natural number as a JSON value. -/
def nat (n : Nat) : Json := number (.natural n)

/-- A value, or `null` for `none`. -/
def option {α : Type} (toJson : α → Json) : Option α → Json
  | none => null
  | some a => toJson a

end Json

end EsFront
