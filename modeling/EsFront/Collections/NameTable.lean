/-
Tables of names.

A name gets the next free handle when it is first met and keeps it, so two
handles are equal exactly when their names are.
-/
namespace EsFront

/-- The handle of a name in a table. -/
structure NameHandle where
  index : Nat
deriving DecidableEq, Repr

/-- Names in order of first appearance. -/
structure NameTable where
  names : List String
deriving DecidableEq, Repr, Inhabited

namespace NameTable

def empty : NameTable := ⟨[]⟩

/-- The handle of a name that is in the table. -/
def find? (table : NameTable) (name : String) : Option NameHandle :=
  (table.names.findIdx? (· = name)).map NameHandle.mk

/-- The handle of a name, which is added if it is new. -/
def intern (table : NameTable) (name : String) : NameHandle × NameTable :=
  match table.find? name with
  | some handle => (handle, table)
  | none => (⟨table.names.length⟩, ⟨table.names ++ [name]⟩)

/-- The name of a handle. -/
def name? (table : NameTable) (handle : NameHandle) : Option String :=
  table.names[handle.index]?

def size (table : NameTable) : Nat := table.names.length

def isEmpty (table : NameTable) : Bool := table.names.isEmpty

end NameTable

end EsFront
