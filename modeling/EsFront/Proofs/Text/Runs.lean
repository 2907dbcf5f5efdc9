/-
Runs of characters.

Readers take the characters of a class as long as they go on. Where a text is known to
start with such characters, and none of the class comes behind them (`Stops`), exactly
these are taken (`takeWhile_run`) and the text behind them is left (`dropWhile_run`).
-/

namespace EsFront

/-- No character of the class stands at the front. -/
def Stops (p : Char → Bool) (rest : List Char) : Prop := ∀ c ∈ rest.head?, p c = false

section runs

variable {p : Char → Bool} {run rest : List Char}

theorem stops_cons {c : Char} (h : p c = false) : Stops p (c :: rest) := by
  intro a ha
  cases ha
  exact h

theorem takeWhile_run (hrun : ∀ c ∈ run, p c = true) (hrest : Stops p rest) :
    (run ++ rest).takeWhile p = run := by
  rw [List.takeWhile_append_of_pos hrun]
  cases rest with
  | nil => simp
  | cons c rest =>
    have hc : p c = false := hrest c rfl
    simp [hc]

theorem dropWhile_run (hrun : ∀ c ∈ run, p c = true) (hrest : Stops p rest) :
    (run ++ rest).dropWhile p = rest := by
  rw [List.dropWhile_append_of_pos hrun]
  cases rest with
  | nil => simp
  | cons c rest =>
    have hc : p c = false := hrest c rfl
    simp [hc]

end runs

end EsFront
