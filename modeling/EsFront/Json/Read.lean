/-
Reading JSON text.

`Json.parse` turns the tokens of a text into one value with a stack of the
arrays and objects that are still open. Reading is strict: one value, nothing
after it, and at most `Json.depthLimit` nested arrays and objects.
-/
import EsFront.Json.Token

namespace EsFront.Json

/-- The greatest number of nested arrays and objects. -/
def depthLimit : Nat := 127

/-- An open array or object, its parts so far in reverse order. -/
inductive Frame where
  | array (items : List Json)
  | object (members : List (String × Json))
  /-- An object whose last key still lacks its value. -/
  | member (members : List (String × Json)) (key : String)
deriving Repr

/-- What may come next. -/
inductive Goal where
  | value
  /-- A value, or the end of an empty array. -/
  | firstItem
  /-- A key, or the end of an empty object. -/
  | firstKey
  | key
  | colon
  /-- A comma, or the end of the array or object. -/
  | next
  | done (value : Json)
deriving Repr

/-- The reader between two tokens, the innermost open part first. -/
structure Reader where
  goal : Goal
  stack : List Frame
deriving Repr

namespace Reader

def start : Reader := ⟨.value, []⟩

/-- Puts a complete value into the innermost open part. -/
def put (stack : List Frame) (value : Json) : Option Reader :=
  match stack with
  | [] => some ⟨.done value, []⟩
  | .array items :: outer => some ⟨.next, .array (value :: items) :: outer⟩
  | .member members key :: outer => some ⟨.next, .object ((key, value) :: members) :: outer⟩
  | .object _ :: _ => none

/-- Opens an array or an object. -/
def push (stack : List Frame) (frame : Frame) (goal : Goal) : Option Reader :=
  if stack.length < depthLimit then some ⟨goal, frame :: stack⟩ else none

/-- Moves on by one token. -/
def step (reader : Reader) (token : Token) : Option Reader :=
  match reader.goal, token, reader.stack with
  | .value, .scalar v, stack => put stack v
  | .firstItem, .scalar v, stack => put stack v
  | .value, .openBracket, stack => push stack (.array []) .firstItem
  | .firstItem, .openBracket, stack => push stack (.array []) .firstItem
  | .value, .openBrace, stack => push stack (.object []) .firstKey
  | .firstItem, .openBrace, stack => push stack (.object []) .firstKey
  | .firstItem, .closeBracket, .array items :: outer => put outer (.array items.reverse)
  | .next, .closeBracket, .array items :: outer => put outer (.array items.reverse)
  | .next, .comma, .array items :: outer => some ⟨.value, .array items :: outer⟩
  | .firstKey, .closeBrace, .object members :: outer => put outer (.object members.reverse)
  | .next, .closeBrace, .object members :: outer => put outer (.object members.reverse)
  | .next, .comma, .object members :: outer => some ⟨.key, .object members :: outer⟩
  | .firstKey, .scalar (.string key), .object members :: outer =>
    some ⟨.colon, .member members key :: outer⟩
  | .key, .scalar (.string key), .object members :: outer =>
    some ⟨.colon, .member members key :: outer⟩
  | .colon, .colon, stack => some ⟨.value, stack⟩
  | _, _, _ => none

/-- The value that was read, if it is complete. -/
def result? (reader : Reader) : Option Json :=
  match reader.goal with
  | .done value => some value
  | _ => none

end Reader

/-- The value of a JSON text; `none` when the text is not JSON. -/
def parse (text : String) : Option Json := do
  let tokens ← Token.scan text
  let reader ← tokens.foldlM Reader.step Reader.start
  reader.result?

end EsFront.Json
