/-
Maps that hold several values under a key.

The values of one key keep the order in which they were inserted. A key is
present exactly while it has a value; taking its values out removes it.
-/
namespace EsFront

/-- A map with a list of values under each key. -/
structure MultiMap (κ : Type) (ν : Type) where
  groups : List (κ × List ν)
deriving DecidableEq, Repr, Inhabited

namespace MultiMap

variable {κ ν : Type} [DecidableEq κ]

def empty : MultiMap κ ν := ⟨[]⟩

/-- Adds a value to the group of `key`, which is new at the end if need be. -/
def insertGroups (key : κ) (value : ν) : List (κ × List ν) → List (κ × List ν)
  | [] => [(key, [value])]
  | (k, values) :: rest =>
    if k = key then (k, values ++ [value]) :: rest
    else (k, values) :: insertGroups key value rest

/-- Adds a value under `key`, after those already there. -/
def insert (map : MultiMap κ ν) (key : κ) (value : ν) : MultiMap κ ν :=
  ⟨insertGroups key value map.groups⟩

/-- The values under `key`. -/
def find (map : MultiMap κ ν) (key : κ) : List ν :=
  ((map.groups.find? (·.1 = key)).map (·.2)).getD []

/-- The map without `key`. -/
def erase (map : MultiMap κ ν) (key : κ) : MultiMap κ ν :=
  ⟨map.groups.filter (·.1 ≠ key)⟩

/-- Takes the values under `key` out of the map. -/
def take (map : MultiMap κ ν) (key : κ) : List ν × MultiMap κ ν :=
  (map.find key, map.erase key)

/-- All values, group by group. -/
def values (map : MultiMap κ ν) : List ν := map.groups.flatMap (·.2)

/-- The number of keys. -/
def size (map : MultiMap κ ν) : Nat := map.groups.length

def isEmpty (map : MultiMap κ ν) : Bool := map.groups.isEmpty

end MultiMap

end EsFront
