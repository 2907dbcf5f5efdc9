/-
Ordered maps that gather values under keys.

A map is looked up after a change as it should be (`OrderedMap.get?_update`),
and a change adds its key at the end if it is new (`OrderedMap.keys_update`).
So a map that is filled pair by pair holds under each key the values that came
with it, in order (`OrderedMap.find_gather`), and its keys are those of the
pairs in order of first appearance (`OrderedMap.keys_gather`).
-/
import EsFront.Collections.OrderedMap
import Mathlib.Data.List.Induction

namespace EsFront.OrderedMap

variable {κ ν : Type} [DecidableEq κ]

/-! ### One change -/

theorem get?_cons (k : κ) (v : ν) (entries : List (κ × ν)) (key : κ) :
    get? ⟨(k, v) :: entries⟩ key = if k = key then some v else get? ⟨entries⟩ key := by
  rw [get?, List.find?_cons]
  by_cases h : k = key
  · rw [if_pos h, decide_eq_true h]
    rfl
  · rw [if_neg h, decide_eq_false h]
    rfl

theorem get?_update (map : OrderedMap κ ν) (key : κ) (default : ν) (f : ν → ν) (other : κ) :
    (map.update key default f).get? other
      = if key = other then some (f ((map.get? key).getD default)) else map.get? other := by
  obtain ⟨entries⟩ := map
  rw [update]
  induction entries with
  | nil =>
    rw [updateEntries, get?_cons]
    rfl
  | cons entry entries ih =>
    obtain ⟨k, v⟩ := entry
    rw [updateEntries]
    by_cases hk : k = key
    · subst hk
      rw [if_pos rfl, get?_cons, get?_cons, get?_cons, if_pos rfl]
      by_cases hother : k = other
      · rw [if_pos hother, if_pos hother]
        rfl
      · rw [if_neg hother, if_neg hother, if_neg hother]
    · rw [if_neg hk, get?_cons, get?_cons, get?_cons, if_neg hk, ih]
      by_cases hother : k = other
      · rw [if_pos hother, if_pos hother, if_neg (fun h => hk (hother.trans h.symm))]
      · rw [if_neg hother, if_neg hother]

theorem keys_update (map : OrderedMap κ ν) (key : κ) (default : ν) (f : ν → ν) :
    (map.update key default f).keys = if key ∈ map.keys then map.keys else map.keys ++ [key] := by
  obtain ⟨entries⟩ := map
  unfold update keys
  dsimp only
  induction entries with
  | nil => rfl
  | cons entry entries ih =>
    obtain ⟨k, v⟩ := entry
    rw [updateEntries]
    by_cases hk : k = key
    · subst hk
      rw [if_pos rfl, List.map_cons, List.map_cons, if_pos List.mem_cons_self]
    · rw [if_neg hk, List.map_cons, List.map_cons, ih]
      simp only [List.mem_cons, Ne.symm hk, false_or]
      split <;> rfl

/-! ### Filling a map -/

/-- Puts a value at the end of those under a key. -/
def push (map : OrderedMap κ (List ν)) (pair : κ × ν) : OrderedMap κ (List ν) :=
  map.update pair.1 [] (· ++ [pair.2])

/-- The values of a list of pairs, gathered under their keys. -/
def gather (pairs : List (κ × ν)) : OrderedMap κ (List ν) := pairs.foldl push .empty

theorem gather_concat (pairs : List (κ × ν)) (pair : κ × ν) :
    gather (pairs ++ [pair]) = (gather pairs).push pair := by
  rw [gather, List.foldl_append]
  rfl

/-- Under a key are the values that came with it, in order. -/
theorem find_gather (pairs : List (κ × ν)) (key : κ) :
    ((gather pairs).get? key).getD [] = (pairs.filter (·.1 = key)).map (·.2) := by
  induction pairs using List.reverseRecOn with
  | nil => rfl
  | append_singleton pairs pair ih =>
    rw [gather_concat, push, get?_update, List.filter_append, List.map_append, ← ih,
      List.filter_cons, List.filter_nil]
    by_cases hkey : pair.1 = key
    · subst hkey
      rw [if_pos rfl, decide_eq_true rfl]
      rfl
    · rw [if_neg hkey, decide_eq_false hkey]
      exact (List.append_nil _).symm

/-- The keys stand in order of first appearance. -/
theorem keys_gather (pairs : List (κ × ν)) :
    (gather pairs).keys = (pairs.map (·.1)).eraseDups := by
  induction pairs using List.reverseRecOn with
  | nil => rfl
  | append_singleton pairs pair ih =>
    rw [gather_concat, push, keys_update, ih, List.map_append, List.eraseDups_append,
      List.map_singleton]
    by_cases hkey : pair.1 ∈ pairs.map (·.1)
    · simp [List.removeAll, hkey]
    · simp [List.removeAll, hkey, List.eraseDups_cons]

theorem nodup_keys_gather (pairs : List (κ × ν)) : (gather pairs).keys.Nodup := by
  induction pairs using List.reverseRecOn with
  | nil => exact List.nodup_nil
  | append_singleton pairs pair ih =>
    rw [gather_concat, push, keys_update]
    split
    · exact ih
    · rename_i hkey
      exact (List.perm_append_singleton _ _).nodup_iff.mpr (List.nodup_cons.mpr ⟨hkey, ih⟩)

/-- In another order the pairs have the same keys. -/
theorem keys_gather_perm {pairs pairs' : List (κ × ν)} (h : pairs.Perm pairs') :
    (gather pairs).keys.Perm (gather pairs').keys := by
  rw [List.perm_ext_iff_of_nodup (nodup_keys_gather pairs) (nodup_keys_gather pairs')]
  intro key
  rw [keys_gather, keys_gather, List.mem_eraseDups, List.mem_eraseDups,
    (h.map (·.1)).mem_iff]

end EsFront.OrderedMap
