/-
Reading the comments of a program.

The comments are the items of the array under `comments`, one by one
(`comments_eq_ok_iff`). Each has the kind, the text, the location and the range
that its item says (`Comment.ReadFrom`).
-/
import EsFront.Proofs.Estree.Step
import Mathlib.Data.List.Forall2

namespace EsFront

/-- The comment is what the value says. -/
structure Comment.ReadFrom (file : Option String) (raw : Json) (c : Comment) : Prop where
  kind : raw.text? "type" = some c.kind.text
  value : raw.text? "value" = some c.value
  loc : c.loc = raw.location? file
  range : c.range = raw.range?

/-- The items of the comments member, or none when it is no array. -/
def Json.commentItems (raw : Json) : List Json := ((raw.get? "comments").bind asArray?).getD []

theorem CommentKind.ofText?_text (kind : CommentKind) : ofText? kind.text = some kind := by
  cases kind <;> rfl

theorem CommentKind.text_of_ofText? {tag : String} {kind : CommentKind}
    (h : ofText? tag = some kind) : tag = kind.text := by
  have hfound := List.find?_some h
  exact (of_decide_eq_true hfound).symm

namespace Import

theorem comment_eq_ok_iff {file : Option String} {raw : Json} {c : Comment} :
    comment file raw = .ok c ↔ c.ReadFrom file raw := by
  constructor
  · intro h
    unfold comment at h
    split at h
    · cases h
    · rename_i tag htype
      split at h
      · cases h
      · rename_i kind hkind
        split at h
        · cases h
        · rename_i value hvalue
          cases h
          rw [CommentKind.text_of_ofText? hkind] at htype
          exact ⟨htype, hvalue, rfl, rfl⟩
  · intro h
    unfold comment
    rw [h.kind]
    dsimp only
    rw [CommentKind.ofText?_text, h.value, ← h.loc, ← h.range]

/-- A check of a whole list gives the results one by one. -/
theorem mapM_eq_ok_iff {α β : Type} {check : α → Except ImportError β} :
    ∀ {values : List α} {found : List β},
      values.mapM check = .ok found ↔ List.Forall₂ (fun a b => check a = .ok b) values found := by
  intro values
  induction values with
  | nil =>
    intro found
    rw [List.forall₂_nil_left_iff]
    exact ⟨fun h => (Except.ok.inj h).symm, fun h => h ▸ rfl⟩
  | cons value values ih =>
    intro found
    rw [List.mapM_cons, List.forall₂_cons_left_iff]
    constructor
    · intro h
      obtain ⟨first, hfirst, h⟩ := bind_eq_ok.mp h
      obtain ⟨rest, hrest, h⟩ := bind_eq_ok.mp h
      exact ⟨first, rest, hfirst, ih.mp hrest, (Except.ok.inj h).symm⟩
    · rintro ⟨first, rest, hfirst, hrest, rfl⟩
      exact bind_eq_ok.mpr ⟨first, hfirst, bind_eq_ok.mpr ⟨rest, ih.mpr hrest, rfl⟩⟩

/-- The comments of a program are read item by item. -/
theorem comments_eq_ok_iff {file : Option String} {raw : Json} {found : List Comment} :
    comments file raw = .ok found
      ↔ List.Forall₂ (Comment.ReadFrom file) raw.commentItems found := by
  unfold comments Json.commentItems
  cases (raw.get? "comments").bind Json.asArray? with
  | none =>
    rw [Option.getD_none, List.forall₂_nil_left_iff]
    exact ⟨fun h => (Except.ok.inj h).symm, fun h => h ▸ rfl⟩
  | some values =>
    dsimp only [Option.getD_some]
    simp only [mapM_eq_ok_iff, comment_eq_ok_iff]

end Import

end EsFront
