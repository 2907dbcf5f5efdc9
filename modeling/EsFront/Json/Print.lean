/-
JSON text.

* `Json.compact` — one line without blanks, members in the order they have;
* `Json.pretty` — two blanks per level, one part a line, every key once and in
  the order of its characters. Of a repeated key the last member counts.
-/
import EsFront.Json.Basic
import EsFront.Json.Quoted
import EsFront.Number.Decimal

namespace EsFront.Json

/-- The text of a number. -/
def Number.text : Number → String
  | natural n => toString n
  | negative n => "-" ++ toString n
  | double d => d.jsonText

mutual

/-- A value on one line. -/
def compact : Json → String
  | null => "null"
  | bool true => "true"
  | bool false => "false"
  | number n => n.text
  | string s => quote s
  | array items => "[" ++ String.intercalate "," (compactItems items) ++ "]"
  | object members => "\x7b" ++ String.intercalate "," (compactMembers members) ++ "\x7d"

def compactItems : List Json → List String
  | [] => []
  | item :: rest => compact item :: compactItems rest

def compactMembers : List (String × Json) → List String
  | [] => []
  | (key, value) :: rest => (quote key ++ ":" ++ compact value) :: compactMembers rest

end

/-- A new line, indented by two blanks per level. -/
def newLine (level : Nat) : String := "\n" ++ String.ofList (List.replicate (2 * level) ' ')

/-- Keeps of each key the last entry, in the order of the keys. -/
def byKey {α : Type} (entries : List (String × α)) : List (String × α) :=
  let last := entries.foldr
    (fun entry kept => if kept.any (·.1 == entry.1) then kept else entry :: kept) []
  last.mergeSort (fun a b => a.1 ≤ b.1)

/-- Parts between an opening and a closing mark, one a line. Every part is a
list of texts. -/
def layout (opening closing : String) (level : Nat) (parts : List (List String)) : List String :=
  match parts with
  | [] => [opening ++ closing]
  | _ =>
    let lines := parts.map (newLine (level + 1) :: ·)
    opening :: (List.intercalate [","] lines ++ [newLine level ++ closing])

mutual

/-- A value over several lines, as it stands at the given level, as a list of
texts. -/
def prettyAt (level : Nat) : Json → List String
  | null => ["null"]
  | bool true => ["true"]
  | bool false => ["false"]
  | number n => [n.text]
  | string s => [quote s]
  | array items => layout "[" "]" level (prettyItems (level + 1) items)
  | object members =>
    layout "\x7b" "\x7d" level
      ((byKey (prettyMembers (level + 1) members)).map fun (key, texts) =>
        (quote key ++ ": ") :: texts)

def prettyItems (level : Nat) : List Json → List (List String)
  | [] => []
  | item :: rest => prettyAt level item :: prettyItems level rest

def prettyMembers (level : Nat) : List (String × Json) → List (String × List String)
  | [] => []
  | (key, value) :: rest => (key, prettyAt level value) :: prettyMembers level rest

end

/-- A value over several lines. -/
def pretty (value : Json) : String := String.join (prettyAt 0 value)

end EsFront.Json
