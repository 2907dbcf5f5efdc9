/-
Maps that remember the order in which their keys came.

The entries are the map: a key is looked up in them, and a new key goes to
their end, so the keys stay in order of first appearance.
-/
namespace EsFront

/-- A map whose keys stay in order of first appearance. -/
structure OrderedMap (κ : Type) (ν : Type) where
  entries : List (κ × ν)
deriving DecidableEq, Repr, Inhabited

namespace OrderedMap

variable {κ ν : Type} [DecidableEq κ]

def empty : OrderedMap κ ν := ⟨[]⟩

/-- Applies `f` to the value under `key`, or to `default` at the end when the
key is new. -/
def updateEntries (key : κ) (default : ν) (f : ν → ν) : List (κ × ν) → List (κ × ν)
  | [] => [(key, f default)]
  | (k, v) :: rest =>
    if k = key then (k, f v) :: rest else (k, v) :: updateEntries key default f rest

/-- Applies `f` to the value under `key`; a new key starts from `default`. -/
def update (map : OrderedMap κ ν) (key : κ) (default : ν) (f : ν → ν) : OrderedMap κ ν :=
  ⟨updateEntries key default f map.entries⟩

/-- The value under `key`. -/
def get? (map : OrderedMap κ ν) (key : κ) : Option ν :=
  (map.entries.find? (·.1 = key)).map (·.2)

def keys (map : OrderedMap κ ν) : List κ := map.entries.map (·.1)

def size (map : OrderedMap κ ν) : Nat := map.entries.length

def isEmpty (map : OrderedMap κ ν) : Bool := map.entries.isEmpty

end OrderedMap

end EsFront
