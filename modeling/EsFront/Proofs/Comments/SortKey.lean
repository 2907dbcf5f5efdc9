/-
The key by which leftover comments are sorted.

A comment has a key in an ordinary lexicographic order: its start, its end and
the start of its range, numbers all of them, and what is missing before
everything. The comparison that sorts comments is the order of their keys
(`precedes_iff_sortKey`), and comments tie exactly when they have one key
(`ties_iff_sortKey`).
-/
import Mathlib.Data.Prod.Lex
import Mathlib.Order.WithBot
import EsFront.Proofs.Comments.Order

namespace EsFront

/-- A position by its line, then by its column. -/
def Position.key (p : Position) : ℕ ×ₗ ℕ := toLex (p.line.toNat, p.column.toNat)

/-- The span of a comment, then the start of its range. -/
def Comment.sortKey (c : Comment) : WithBot ((ℕ ×ₗ ℕ) ×ₗ (ℕ ×ₗ ℕ)) ×ₗ WithBot ℕ :=
  toLex (c.loc.map fun loc => toLex (loc.start.key, loc.stop.key), c.range.map (·.start.toNat))

theorem Position.cmp_eq_compare (a b : Position) : a.cmp b = compare a.key b.key := by
  rw [cmp, UInt32.compare_eq_toNat_compare_toNat, UInt32.compare_eq_toNat_compare_toNat,
    Prod.Lex.compare_def]
  rfl

theorem SourceLocation.cmpSpan_eq_compare (a b : SourceLocation) :
    a.cmpSpan b = compare (toLex (a.start.key, a.stop.key)) (toLex (b.start.key, b.stop.key)) := by
  rw [cmpSpan, Position.cmp_eq_compare, Position.cmp_eq_compare, Prod.Lex.compare_def]
  rfl

theorem WithBot.compare_coe {β : Type} [LinearOrder β] (x y : β) :
    compare (x : WithBot β) y = compare x y := by
  rcases lt_trichotomy x y with hlt | rfl | hgt
  · rw [compare_lt_iff_lt.mpr hlt]
    exact compare_lt_iff_lt.mpr (WithBot.coe_lt_coe.mpr hlt)
  · rw [compare_eq_iff_eq.mpr rfl, compare_eq_iff_eq.mpr rfl]
  · rw [compare_gt_iff_gt.mpr hgt]
    exact compare_gt_iff_gt.mpr (WithBot.coe_lt_coe.mpr hgt)

/-- Optional values compare as the keys of those that are there. -/
theorem compareOptions_eq_compare {α β : Type} [LinearOrder β] {cmp : α → α → Ordering}
    {key : α → β} (h : ∀ a b, cmp a b = compare (key a) (key b)) (a b : Option α) :
    compareOptions cmp a b = compare (α := WithBot β) (a.map key) (b.map key) := by
  cases a with
  | none =>
    cases b with
    | none => exact (compare_eq_iff_eq.mpr (rfl : (⊥ : WithBot β) = ⊥)).symm
    | some b => exact (compare_lt_iff_lt.mpr (WithBot.bot_lt_coe (key b))).symm
  | some a =>
    cases b with
    | none => exact (compare_gt_iff_gt.mpr (WithBot.bot_lt_coe (key a))).symm
    | some b => exact (h a b).trans (WithBot.compare_coe (key a) (key b)).symm

namespace CommentIndex

/-- The comparison is the order of the keys. -/
theorem precedes_iff_sortKey {a b : Comment} : precedes a b ↔ a.sortKey ≤ b.sortKey := by
  have hspan := compareOptions_eq_compare SourceLocation.cmpSpan_eq_compare a.loc b.loc
  have hstart := compareOptions_eq_compare UInt32.compare_eq_toNat_compare_toNat
    (a.range.map (·.start)) (b.range.map (·.start))
  rw [Option.map_map, Option.map_map] at hstart
  have hkeys : (compareOptions SourceLocation.cmpSpan a.loc b.loc).then
      (compareOptions compare (a.range.map (·.start)) (b.range.map (·.start)))
        = compare a.sortKey b.sortKey := by
    rw [hspan, hstart, Prod.Lex.compare_def]
    rfl
  rw [precedes, hkeys, bne_iff_ne]
  exact compare_le_iff_le

/-- Comments tie exactly when they have the same key. -/
theorem ties_iff_sortKey {a b : Comment} : ties precedes a b ↔ a.sortKey = b.sortKey := by
  rw [ties, Bool.and_eq_true, precedes_iff_sortKey, precedes_iff_sortKey, le_antisymm_iff]

/-- Comments are sorted in the order of their keys. -/
theorem pairwise_sortKey (comments : List Comment) :
    (comments.mergeSort precedes).Pairwise (·.sortKey ≤ ·.sortKey) :=
  (List.pairwise_mergeSort precedes_trans precedes_total comments).imp precedes_iff_sortKey.mp

end CommentIndex

end EsFront
