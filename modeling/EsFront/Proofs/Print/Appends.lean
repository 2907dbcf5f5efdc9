/-
What steps of the printer append.

A step appends pieces if it puts their text behind the output and leaves the rest of
the printer as it is; the pieces may depend on the level of indentation that the step
begins at (`Printer.Appends`). Steps that do so can be taken one after the other, in
brackets, between commas, and further in: one lemma for each way in which the printer
puts steps together. The level is raised and lowered in `Appends.indented` alone.
-/
import EsFront.Print.Printer

namespace EsFront

@[simp]
theorem render_append (options : PrintOptions) (pieces more : List Piece) :
    render options (pieces ++ more) = render options pieces ++ render options more := by
  simp [render]

namespace Printer

/-- The printer with some pieces written. -/
def append (printer : Printer) (pieces : List Piece) : Printer :=
  { printer with output := printer.output ++ render printer.options pieces }

theorem append_nil (printer : Printer) : printer.append [] = printer := by
  simp [append, render]

theorem append_append (printer : Printer) (pieces more : List Piece) :
    (printer.append pieces).append more = printer.append (pieces ++ more) := by
  simp [append, String.append_assoc]

/-- The step appends the pieces and does nothing else, with comments or without. -/
def Appends (withComments : Bool) (act : Printing Unit) (pieces : Leveled) : Prop :=
  ∀ printer : Printer, printer.options.preserveComments = withComments →
    act.run printer = ((), printer.append (pieces printer.level))

/-- A step that gives nothing only hands on the printer. -/
theorem run_andThen {α : Type} {act : Printing Unit} {next : Printing α} {printer after : Printer}
    (h : act.run printer = ((), after)) : (do act; next).run printer = next.run after := by
  rw [StateT.run_bind, h]
  rfl

variable {withComments : Bool}

/-! ### Single pieces -/

theorem appends_write {text : String} (piece : Piece) (h : ∀ options, piece.render options = text) :
    Appends withComments (write text) fun _ => [piece] := by
  intro printer _
  simp [write, append, render, h]
  rfl

theorem appends_writeNewLine : Appends withComments writeNewLine fun _ => [.line 0] := by
  intro printer _
  simp [writeNewLine, write, append, render, Piece.render, repeated]
  rfl

theorem appends_writeLine : Appends withComments writeLine fun level => [.line level] := by
  intro printer _
  simp [writeLine, writeNewLine, writeIndent, write, append, render, Piece.render,
    String.append_assoc]
  rfl

theorem appends_writeComment (c : Comment) :
    Appends withComments (writeComment c) fun _ => [.comment c] := by
  intro printer _
  cases hkind : c.kind
  all_goals
    simp [writeComment, hkind, write, append, render, Piece.render, Comment.text,
      String.append_assoc]
    rfl

/-! ### Steps put together -/

namespace Appends

variable {act next : Printing Unit} {pieces more : Leveled}

theorem nil : Appends withComments (pure ()) fun _ => [] := by
  intro printer _
  rw [append_nil]
  rfl

theorem andThen (hact : Appends withComments act pieces) (hnext : Appends withComments next more) :
    Appends withComments (do act; next) fun level => pieces level ++ more level := by
  intro printer hcomments
  rw [run_andThen (hact printer hcomments), ← append_append]
  exact hnext (printer.append _) hcomments

/-- A text in front of what a step appends. -/
theorem text (text : String) (hact : Appends withComments act pieces) :
    Appends withComments (do write text; act) fun level => .text text :: pieces level :=
  (appends_write (.text text) fun _ => rfl).andThen hact

theorem enclose (bracket : Bracket) (hact : Appends withComments act pieces) :
    Appends withComments (enclose bracket act) fun level => enclosed bracket (pieces level) :=
  (appends_write (.opening bracket) fun _ => rfl).andThen
    (hact.andThen (appends_write (.closing bracket) fun _ => rfl))

/-- What is written further in begins one level higher. The level that was raised is not
zero, so it is back where it was once it has been lowered. -/
theorem indented (hact : Appends withComments act pieces) :
    Appends withComments (indented act) fun level => pieces (level + 1) := by
  intro printer hcomments
  have hrun : (Printer.indented act).run printer
      = lowerIndent.run (act.run { printer with level := printer.level + 1 }).2 := rfl
  rw [hrun, hact { printer with level := printer.level + 1 } hcomments]
  rfl

theorem congr (hact : Appends withComments act pieces) (h : ∀ level, pieces level = more level) :
    Appends withComments act more := by
  rwa [← show pieces = more from funext h]

/-- One of two steps. -/
theorem ite (c : Prop) [Decidable c] (hact : Appends withComments act pieces)
    (hnext : Appends withComments next more) :
    Appends withComments (if c then act else next) fun level =>
      if c then pieces level else more level := by
  split
  · exact hact
  · exact hnext

/-- Either there is neither a step nor pieces, or the step appends the pieces. -/
theorem rel_cases {act? : Option (Printing Unit)} {pieces? : Option Leveled}
    (h : Option.Rel (Appends withComments) act? pieces?) :
    (act? = none ∧ pieces? = none) ∨
      ∃ act pieces, act? = some act ∧ pieces? = some pieces ∧ Appends withComments act pieces := by
  cases h with
  | none => exact .inl ⟨rfl, rfl⟩
  | some h => exact .inr ⟨_, _, rfl, rfl, h⟩

section lists

-- the steps and the pieces may be made from different parts of the same things
variable {α β γ : Type} {step : β → Printing Unit} {part : γ → Leveled} {f : α → β} {g : α → γ}
  (h : ∀ a, Appends withComments (step (f a)) (part (g a)))
include h

theorem forM : ∀ as : List α,
    Appends withComments ((as.map f).forM step) fun level => (as.map g).flatMap (part · level)
  | [] => nil
  | a :: as => (h a).andThen (forM as)

theorem separate : ∀ as : List α,
    Appends withComments (separate ((as.map f).map step)) fun level =>
      commaSeparated ((as.map g).map (part · level))
  | [] => nil
  | [a] => by
    simp only [List.map_cons, List.map_nil, commaSeparated, List.intercalate_singleton]
    exact h a
  | a :: next :: as => (h a).andThen ((separate (next :: as)).text ", ")

end lists

end Appends

/-! ### Comments -/

/-- What is only written if comments are wanted. -/
theorem appends_ifComments {act : Printing Unit} {pieces : Leveled} (h : Appends true act pieces) :
    Appends withComments (ifComments act) fun level =>
      if withComments then pieces level else [] := by
  intro printer hcomments
  have hrun : (ifComments act).run printer
      = (if printer.options.preserveComments then act else pure ()).run printer := rfl
  rw [hrun, hcomments]
  cases withComments with
  | true => exact h printer hcomments
  | false => exact Appends.nil printer hcomments

theorem appends_comments {step : Comment → Printing Unit} {part : Comment → Leveled}
    (h : ∀ c, Appends true (step c) (part c)) (comments : List Comment) :
    Appends withComments (ifComments (comments.forM step)) fun level =>
      (if withComments then comments else []).flatMap (part · level) := by
  have hall := Appends.forM (f := id) (g := id) h comments
  rw [List.map_id] at hall
  refine (appends_ifComments hall).congr fun level => ?_
  cases withComments <;> rfl

theorem appends_writeLeading (comments : List Comment) :
    Appends withComments (writeLeading comments) fun level =>
      (if withComments then comments else []).flatMap fun c => [.comment c, .line level] :=
  appends_comments (fun c => (appends_writeComment c).andThen appends_writeLine) comments

/-- The lines in front of a program are not indented. -/
theorem appends_writeUnattached (comments : List Comment) :
    Appends withComments (writeUnattached comments) fun _ =>
      (if withComments then comments else []).flatMap fun c => [.comment c, .line 0] :=
  appends_comments (fun c => (appends_writeComment c).andThen appends_writeNewLine) comments

end Printer

end EsFront
