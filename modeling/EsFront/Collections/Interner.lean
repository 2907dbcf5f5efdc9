/-
Interners.

An interner keeps names in a table under handles, so that names are compared by
their handles. All that its users may rely on is part of the type
(`Interner`): a handle is found again under its name however the table grows,
and names with the same handle are the same. The table that numbers names as
they come is one (`NameTable.interner`).
-/
import EsFront.Collections.NameTable

namespace EsFront

/-- A way to keep names in tables of type `σ` under handles of type `κ`. -/
structure Interner (σ κ : Type) where
  empty : σ
  /-- The handle of a name, and the table that has it. -/
  intern : σ → String → κ × σ
  /-- The handle of a name, if the table has one. -/
  find? : σ → String → Option κ
  find?_intern : ∀ table name, find? (intern table name).2 name = some (intern table name).1
  /-- Handles are stable. -/
  find?_intern_of_some : ∀ {table name key}, find? table name = some key →
    ∀ other, find? (intern table other).2 name = some key
  /-- Names with the same handle are the same. -/
  find?_injective : ∀ {table name other key}, find? table name = some key →
    find? table other = some key → name = other

namespace NameTable

theorem getElem?_of_find? {table : NameTable} {name : String} {handle : NameHandle}
    (h : table.find? name = some handle) : table.names[handle.index]? = some name := by
  obtain ⟨i, hi, rfl⟩ := Option.map_eq_some_iff.mp h
  obtain ⟨hlt, hname, -⟩ := List.findIdx?_eq_some_iff_getElem.mp hi
  rw [List.getElem?_eq_getElem hlt, of_decide_eq_true hname]

theorem find?_append_of_some {table : NameTable} {name : String} {handle : NameHandle}
    (h : table.find? name = some handle) (more : List String) :
    find? ⟨table.names ++ more⟩ name = some handle := by
  obtain ⟨i, hi, rfl⟩ := Option.map_eq_some_iff.mp h
  rw [find?, List.findIdx?_append, hi]
  rfl

/-- A name that is new gets the next number. -/
theorem find?_append_new {table : NameTable} {name : String} (h : table.find? name = none) :
    find? ⟨table.names ++ [name]⟩ name = some ⟨table.names.length⟩ := by
  have hnone : table.names.findIdx? (· = name) = none := Option.map_eq_none_iff.mp h
  rw [find?, List.findIdx?_append, hnone]
  simp

/-- The table that numbers names as they come. -/
def interner : Interner NameTable NameHandle where
  empty := empty
  intern := intern
  find? := find?
  find?_intern := by
    intro table name
    unfold intern
    cases h : table.find? name with
    | some handle => exact h
    | none => exact find?_append_new h
  find?_intern_of_some := by
    intro table name handle h other
    unfold intern
    cases table.find? other with
    | some _ => exact h
    | none => exact find?_append_of_some h [other]
  find?_injective := by
    intro table name other handle h h'
    have hname := getElem?_of_find? h
    rw [getElem?_of_find? h'] at hname
    exact (Option.some.inj hname).symm

end NameTable

end EsFront
