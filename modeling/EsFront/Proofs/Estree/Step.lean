/-
Successful steps of the import.

A step of the import may be refused, and leaves a state either way. What is
proved of the import is mostly about steps that succeed: `Gives step s a s'`
says that `step`, begun in state `s`, gives `a` and leaves state `s'`. The
laws below take such a step apart along the way it is put together, so that
no later proof opens the monad.
-/
import EsFront.Estree.Import

namespace EsFront.Import

variable {α β : Type} {s s' : ImportState}

/-- The step succeeds: begun in `s` it gives `a` and leaves `s'`. -/
def Gives (step : Import α) (s : ImportState) (a : α) (s' : ImportState) : Prop :=
  step.run.run s = (.ok a, s')

theorem gives_pure {a b : α} : Gives (pure a) s b s' ↔ b = a ∧ s' = s := by
  constructor
  · intro h
    cases h
    exact ⟨rfl, rfl⟩
  · rintro ⟨rfl, rfl⟩
    rfl

theorem gives_throw {e : ImportError} {b : α} : ¬ Gives (throw e) s b s' := by
  intro h
  cases h

/-- A check that does not touch the state. -/
theorem gives_liftM {check : Except ImportError α} {b : α} :
    Gives (liftM check) s b s' ↔ check = .ok b ∧ s' = s := by
  cases check with
  | error e =>
    constructor
    · intro h
      cases h
    · rintro ⟨h, -⟩
      cases h
  | ok a =>
    constructor
    · intro h
      cases h
      exact ⟨rfl, rfl⟩
    · rintro ⟨h, rfl⟩
      cases h
      rfl

theorem gives_get {t : ImportState} : Gives get s t s' ↔ t = s ∧ s' = s := by
  constructor
  · intro h
    cases h
    exact ⟨rfl, rfl⟩
  · rintro ⟨rfl, rfl⟩
    rfl

theorem gives_set {t : ImportState} {u : PUnit} : Gives (set t) s u s' ↔ s' = t := by
  constructor
  · intro h
    cases h
    rfl
  · rintro rfl
    rfl

/-- Two steps succeed one after the other exactly when both do. -/
theorem gives_bind {step : Import α} {next : α → Import β} {b : β} :
    Gives (step >>= next) s b s' ↔ ∃ a t, Gives step s a t ∧ Gives (next a) t b s' := by
  constructor
  · intro h
    rw [Gives, ExceptT.run_bind, StateT.run_bind] at h
    rcases hs : step.run.run s with ⟨result, t⟩
    rw [hs] at h
    cases result with
    | error e => cases h
    | ok a => exact ⟨a, t, hs, h⟩
  · rintro ⟨a, t, hstep, hnext⟩
    rw [Gives, ExceptT.run_bind, StateT.run_bind, hstep]
    exact hnext

/-- Of two branches the one that is chosen gives the result. -/
theorem gives_ite {c : Prop} [Decidable c] {yes no : Import α} {b : α} :
    Gives (if c then yes else no) s b s' ↔ (c ∧ Gives yes s b s') ∨ (¬ c ∧ Gives no s b s') := by
  by_cases h : c
  · simp only [h, if_true, true_and, not_true, false_and, or_false]
  · simp only [h, if_false, false_and, not_false_iff, true_and, false_or]

/-- Two checks succeed one after the other exactly when both do. -/
theorem bind_eq_ok {check : Except ImportError α} {next : α → Except ImportError β} {b : β} :
    check >>= next = .ok b ↔ ∃ a, check = .ok a ∧ next a = .ok b := by
  cases check with
  | error e =>
    constructor
    · intro h
      cases h
    · rintro ⟨a, h, -⟩
      cases h
  | ok a =>
    constructor
    · intro h
      exact ⟨a, rfl, h⟩
    · rintro ⟨b, hb, h⟩
      cases hb
      exact h

end EsFront.Import
