/-
Multimaps whose values know their keys.

When every value belongs under one key that can be read off it, and no key has
two groups, then the map is as good as the list of its values: the values under
a key are those of the list that have this key (`MultiMap.Keyed.filter_values`),
and adding or taking out values keeps this so. The order in which the groups are
listed does not matter (`MultiMap.Keyed.find_perm`).
-/
import EsFront.Collections.MultiMap

namespace EsFront.MultiMap

variable {κ ν : Type} [DecidableEq κ]

/-! ### Looking up -/

theorem find_cons (k : κ) (values : List ν) (groups : List (κ × List ν)) (key : κ) :
    find ⟨(k, values) :: groups⟩ key = if k = key then values else find ⟨groups⟩ key := by
  rw [find, List.find?_cons]
  by_cases h : k = key
  · rw [if_pos h, decide_eq_true h]
    rfl
  · rw [if_neg h, decide_eq_false h]
    rfl

theorem find_of_not_mem {map : MultiMap κ ν} {key : κ}
    (h : key ∉ map.groups.map (·.1)) : map.find key = [] := by
  rw [find, List.find?_eq_none.mpr]
  · rfl
  · intro group hgroup heq
    exact h (List.mem_map.mpr ⟨group, hgroup, by simpa using heq⟩)

theorem find_insert (map : MultiMap κ ν) (key : κ) (value : ν) (other : κ) :
    (map.insert key value).find other
      = map.find other ++ if key = other then [value] else [] := by
  obtain ⟨groups⟩ := map
  rw [insert]
  induction groups with
  | nil =>
    rw [insertGroups, find_cons]
    rfl
  | cons group groups ih =>
    obtain ⟨k, values⟩ := group
    rw [insertGroups]
    by_cases hk : k = key
    · subst hk
      rw [if_pos rfl, find_cons, find_cons]
      by_cases hother : k = other
      · rw [if_pos hother, if_pos hother, if_pos hother]
      · rw [if_neg hother, if_neg hother, if_neg hother, List.append_nil]
    · rw [if_neg hk, find_cons, find_cons, ih]
      by_cases hother : k = other
      · rw [if_pos hother, if_pos hother, if_neg (fun h => hk (hother.trans h.symm)),
          List.append_nil]
      · rw [if_neg hother, if_neg hother]

theorem find_erase (map : MultiMap κ ν) (key other : κ) :
    (map.erase key).find other = if key = other then [] else map.find other := by
  obtain ⟨groups⟩ := map
  rw [erase]
  induction groups with
  | nil =>
    rw [List.filter_nil]
    split <;> rfl
  | cons group groups ih =>
    obtain ⟨k, values⟩ := group
    by_cases hk : k = key
    · subst hk
      rw [List.filter_cons_of_neg (by simp), ih, find_cons]
      by_cases hother : k = other
      · rw [if_pos hother, if_pos hother]
      · rw [if_neg hother, if_neg hother, if_neg hother]
    · rw [List.filter_cons_of_pos (by simpa using hk), find_cons, ih, find_cons]
      by_cases hother : k = other
      · rw [if_pos hother, if_pos hother, if_neg (fun h => hk (hother.trans h.symm))]
      · rw [if_neg hother, if_neg hother]

theorem values_insert_perm (map : MultiMap κ ν) (key : κ) (value : ν) :
    (map.insert key value).values.Perm (map.values ++ [value]) := by
  obtain ⟨groups⟩ := map
  rw [insert, values, values]
  induction groups with
  | nil => exact List.Perm.refl _
  | cons group groups ih =>
    obtain ⟨k, values⟩ := group
    rw [insertGroups]
    split
    · rw [List.flatMap_cons, List.flatMap_cons, List.append_assoc, List.append_assoc]
      exact List.perm_append_comm.append_left values
    · rw [List.flatMap_cons, List.flatMap_cons, List.append_assoc]
      exact ih.append_left values

/-! ### Values with keys -/

/-- Every value stands under its own key, and every key has one group. -/
structure Keyed (keyOf : ν → Option κ) (map : MultiMap κ ν) : Prop where
  own : ∀ group ∈ map.groups, ∀ value ∈ group.2, keyOf value = some group.1
  nodup : (map.groups.map (·.1)).Nodup

variable {keyOf : ν → Option κ} {map : MultiMap κ ν}

omit [DecidableEq κ] in
theorem keyed_empty : (empty : MultiMap κ ν).Keyed keyOf where
  own := fun _ h => absurd h List.not_mem_nil
  nodup := List.nodup_nil

theorem mem_insertGroups {key : κ} {value : ν} {group : κ × List ν} :
    ∀ {groups : List (κ × List ν)}, group ∈ insertGroups key value groups →
      group ∈ groups ∨ (group.1 = key ∧
        ∀ v ∈ group.2, v = value ∨ ∃ old ∈ groups, old.1 = key ∧ v ∈ old.2) := by
  intro groups
  induction groups with
  | nil =>
    intro h
    rw [insertGroups, List.mem_singleton] at h
    subst h
    exact .inr ⟨rfl, fun v hv => .inl (List.mem_singleton.mp hv)⟩
  | cons first groups ih =>
    obtain ⟨k, values⟩ := first
    intro h
    rw [insertGroups] at h
    by_cases hk : k = key
    · rw [if_pos hk] at h
      rcases List.mem_cons.mp h with rfl | hrest
      · -- the group of the key has the new value last
        refine .inr ⟨hk, fun v hv => ?_⟩
        rcases List.mem_append.mp hv with hold | hnew
        · exact .inr ⟨(k, values), List.mem_cons_self, hk, hold⟩
        · exact .inl (List.mem_singleton.mp hnew)
      · exact .inl (List.mem_cons_of_mem _ hrest)
    · rw [if_neg hk] at h
      rcases List.mem_cons.mp h with rfl | hrest
      · exact .inl List.mem_cons_self
      · rcases ih hrest with hold | ⟨hkey, hvalues⟩
        · exact .inl (List.mem_cons_of_mem _ hold)
        · refine .inr ⟨hkey, fun v hv => ?_⟩
          rcases hvalues v hv with hv | ⟨old, hmem, hold⟩
          · exact .inl hv
          · exact .inr ⟨old, List.mem_cons_of_mem _ hmem, hold⟩

theorem keys_insertGroups (key : κ) (value : ν) :
    ∀ groups : List (κ × List ν), (insertGroups key value groups).map (·.1)
      = groups.map (·.1) ++ if key ∈ groups.map (·.1) then [] else [key] := by
  intro groups
  induction groups with
  | nil => rfl
  | cons first groups ih =>
    obtain ⟨k, values⟩ := first
    rw [insertGroups, List.map_cons]
    by_cases hk : k = key
    · rw [if_pos hk, if_pos (List.mem_cons.mpr (.inl hk.symm)), List.append_nil, List.map_cons]
    · rw [if_neg hk, List.map_cons, ih, List.cons_append]
      by_cases hmem : key ∈ groups.map (·.1)
      · rw [if_pos hmem, if_pos (List.mem_cons_of_mem _ hmem)]
      · rw [if_neg hmem, if_neg (fun h => (List.mem_cons.mp h).elim (fun h => hk h.symm) hmem)]

theorem Keyed.insert (h : map.Keyed keyOf) {key : κ} {value : ν} (hkey : keyOf value = some key) :
    (map.insert key value).Keyed keyOf where
  own := by
    intro group hgroup v hv
    rcases mem_insertGroups hgroup with hold | ⟨rfl, hvalues⟩
    · exact h.own group hold v hv
    · rcases hvalues v hv with rfl | ⟨old, hmem, heq, hv⟩
      · exact hkey
      · rw [← heq]
        exact h.own old hmem v hv
  nodup := by
    change ((insertGroups key value map.groups).map (·.1)).Nodup
    rw [keys_insertGroups]
    by_cases hmem : key ∈ map.groups.map (·.1)
    · rw [if_pos hmem, List.append_nil]
      exact h.nodup
    · rw [if_neg hmem]
      refine List.nodup_append.mpr ⟨h.nodup, List.nodup_cons.mpr ⟨List.not_mem_nil, List.nodup_nil⟩, ?_⟩
      intro k hk k' hk'
      rintro rfl
      rw [List.mem_singleton] at hk'
      exact hmem (hk' ▸ hk)

theorem Keyed.erase (h : map.Keyed keyOf) (key : κ) : (map.erase key).Keyed keyOf where
  own := fun group hgroup => h.own group (List.mem_filter.mp hgroup).1
  nodup := (List.filter_sublist.map _).nodup h.nodup

/-- The values under a key are the values with this key. -/
theorem Keyed.filter_values (h : map.Keyed keyOf) (key : κ) :
    map.values.filter (keyOf · = some key) = map.find key := by
  obtain ⟨groups⟩ := map
  rw [values]
  induction groups with
  | nil => rfl
  | cons group groups ih =>
    obtain ⟨k, values⟩ := group
    have hnodup := h.nodup
    rw [List.map_cons, List.nodup_cons] at hnodup
    have hrest : (⟨groups⟩ : MultiMap κ ν).Keyed keyOf :=
      ⟨fun group hgroup => h.own group (List.mem_cons_of_mem _ hgroup), hnodup.2⟩
    have hvalues : ∀ v ∈ values, keyOf v = some k := h.own (k, values) List.mem_cons_self
    rw [List.flatMap_cons, List.filter_append, ih hrest, find_cons]
    by_cases hk : k = key
    · -- the other groups have other keys
      subst hk
      have hnone : find ⟨groups⟩ k = [] := find_of_not_mem hnodup.1
      rw [if_pos rfl, hnone, List.append_nil, List.filter_eq_self]
      intro v hv
      simp only [hvalues v hv, decide_true]
    · rw [if_neg hk, List.filter_eq_nil_iff.mpr, List.nil_append]
      intro v hv
      simp only [hvalues v hv, Option.some.injEq, hk, decide_false]
      exact Bool.false_ne_true

theorem Keyed.mem_find (h : map.Keyed keyOf) {value : ν} (hvalue : value ∈ map.values) :
    ∃ key, keyOf value = some key ∧ value ∈ map.find key := by
  obtain ⟨group, hgroup, hmem⟩ := List.mem_flatMap.mp hvalue
  have hkey := h.own group hgroup value hmem
  refine ⟨group.1, hkey, ?_⟩
  rw [← h.filter_values]
  exact List.mem_filter.mpr ⟨hvalue, decide_eq_true hkey⟩

theorem Keyed.values_erase (h : map.Keyed keyOf) (key : κ) :
    (map.erase key).values = map.values.filter (keyOf · ≠ some key) := by
  obtain ⟨groups⟩ := map
  rw [MultiMap.erase, values, values]
  have hown := h.own
  clear h
  induction groups with
  | nil => rfl
  | cons group groups ih =>
    obtain ⟨k, values⟩ := group
    have hvalues : ∀ v ∈ values, keyOf v = some k := hown (k, values) List.mem_cons_self
    have hrest := ih fun group hgroup => hown group (List.mem_cons_of_mem _ hgroup)
    rw [List.flatMap_cons, List.filter_append]
    by_cases hk : k = key
    · subst hk
      -- the group goes, and with it all values that have the key
      have hnone : values.filter (keyOf · ≠ some k) = [] := by
        rw [List.filter_eq_nil_iff]
        intro v hv
        simp only [hvalues v hv, ne_eq, not_true, decide_false]
        exact Bool.false_ne_true
      rw [List.filter_cons_of_neg (by simp), hrest, hnone, List.nil_append]
    · have hall : values.filter (keyOf · ≠ some key) = values := by
        rw [List.filter_eq_self]
        intro v hv
        simp only [hvalues v hv, ne_eq, Option.some.injEq, hk, not_false_iff, decide_true]
      rw [List.filter_cons_of_pos (by simpa using hk), List.flatMap_cons, hrest, hall]

/-! ### The order of the groups -/

/-- A group is what is found under its key. -/
theorem Keyed.find_of_mem (h : map.Keyed keyOf) {key : κ} {values : List ν}
    (hmem : (key, values) ∈ map.groups) : map.find key = values := by
  obtain ⟨groups⟩ := map
  have hnodup := h.nodup
  clear h
  induction groups with
  | nil => exact absurd hmem List.not_mem_nil
  | cons group groups ih =>
    obtain ⟨k, others⟩ := group
    rw [List.map_cons, List.nodup_cons] at hnodup
    rw [find_cons]
    rcases List.mem_cons.mp hmem with heq | hrest
    · cases heq
      rw [if_pos rfl]
    · have hne : k ≠ key := by
        rintro rfl
        exact hnodup.1 (List.mem_map.mpr ⟨_, hrest, rfl⟩)
      rw [if_neg hne, ih hrest hnodup.2]

variable {map' : MultiMap κ ν}

omit [DecidableEq κ] in
theorem Keyed.perm (h : map.Keyed keyOf) (hperm : map'.groups.Perm map.groups) :
    map'.Keyed keyOf where
  own := fun group hgroup => h.own group (hperm.mem_iff.mp hgroup)
  nodup := (hperm.map _).nodup_iff.mpr h.nodup

/-- What is found does not depend on the order in which the groups are listed. -/
theorem Keyed.find_perm (h : map.Keyed keyOf) (hperm : map'.groups.Perm map.groups) (key : κ) :
    map'.find key = map.find key := by
  by_cases hkey : key ∈ map.groups.map (·.1)
  · obtain ⟨⟨k, values⟩, hgroup, rfl⟩ := List.mem_map.mp hkey
    rw [h.find_of_mem hgroup, (h.perm hperm).find_of_mem (hperm.mem_iff.mpr hgroup)]
  · have hkey' : key ∉ map'.groups.map (·.1) := fun hmem => hkey ((hperm.map _).mem_iff.mp hmem)
    rw [find_of_not_mem hkey, find_of_not_mem hkey']

end EsFront.MultiMap
