/-
Rounding ratios to 53 bits.

A number is kept as a mantissa with a power of two (`Scaled`). Of those with at
most 53 bits and an exponent that is not too low, each value is meant once
(`Scaled.IsNormal`).

* `Scaled.ofRatio` — the normal form nearest to a ratio of two naturals, ties to
  even;
* `Scaled.ofRatio_isNormal` — it is one.

The exponent is guessed from the bit lengths of the two naturals, which is right
up to one (`le_guess`, `guess_lt`). From one exponent to the next, the ratio is
halved (`halved`).
-/
namespace EsFront

/-- `2 ^ n`. -/
def twoTo (n : Nat) : Nat := Nat.pow 2 n

/-- `num / den` to the nearest natural; a half goes to the even neighbour. -/
def roundRatio (num den : Nat) : Nat :=
  let low := num / den
  let rest := 2 * (num % den)
  if rest < den then low
  else if den < rest then low + 1
  else if low % 2 = 0 then low else low + 1

/-- The number `mantissa · 2 ^ exponent`. -/
@[ext]
structure Scaled where
  mantissa : Nat
  exponent : Int
deriving DecidableEq, Repr, Inhabited

namespace Scaled

/-- The lowest exponent of a normal form. -/
def leastExponent : Int := -1074

/-- The mantissa has at most 53 bits, and no fewer unless the exponent is the
least one. -/
structure IsNormal (s : Scaled) : Prop where
  mantissa_lt : s.mantissa < twoTo 53
  least_le : leastExponent ≤ s.exponent
  normalized : twoTo 52 ≤ s.mantissa ∨ s.exponent = leastExponent

instance (s : Scaled) : Decidable s.IsNormal :=
  decidable_of_iff (s.mantissa < twoTo 53 ∧ leastExponent ≤ s.exponent ∧
      (twoTo 52 ≤ s.mantissa ∨ s.exponent = leastExponent))
    ⟨fun h => ⟨h.1, h.2.1, h.2.2⟩, fun h => ⟨h.1, h.2, h.3⟩⟩

/-- The numerator of the number as a ratio. -/
def numerator (s : Scaled) : Nat :=
  if s.exponent < 0 then s.mantissa else s.mantissa * twoTo s.exponent.natAbs

/-- The denominator of the number as a ratio. -/
def denominator (s : Scaled) : Nat :=
  if s.exponent < 0 then twoTo s.exponent.natAbs else 1

/-- The numerator of `num / den` divided by `2 ^ exponent`. -/
def numeratorAt (num : Nat) (exponent : Int) : Nat :=
  if exponent < 0 then num * twoTo exponent.natAbs else num

/-- The denominator of `num / den` divided by `2 ^ exponent`. -/
def denominatorAt (den : Nat) (exponent : Int) : Nat :=
  if exponent < 0 then den else den * twoTo exponent.natAbs

/-- `num / den` divided by `2 ^ exponent`, to the nearest natural. -/
def mantissaAt (num den : Nat) (exponent : Int) : Nat :=
  roundRatio (numeratorAt num exponent) (denominatorAt den exponent)

/-- `num / den` divided by `2 ^ exponent` has at most 53 bits. -/
def FitsAt (num den : Nat) (exponent : Int) : Prop :=
  numeratorAt num exponent < denominatorAt den exponent * twoTo 53

instance (num den : Nat) (exponent : Int) : Decidable (FitsAt num den exponent) :=
  inferInstanceAs (Decidable (_ < _))

/-- An exponent at which `num / den` has 53 or 54 bits. -/
def guess (num den : Nat) : Int := num.log2 - den.log2 - 53

/-- The exponent at which `num / den` has 53 bits. -/
def freeExponent (num den : Nat) : Int :=
  if FitsAt num den (guess num den) then guess num den else guess num den + 1

/-- The same, or the least exponent when the ratio is smaller than that. -/
def exponentOf (num den : Nat) : Int := max leastExponent (freeExponent num den)

/-- The number nearest to `num / den`, ties to even. A mantissa that is rounded up
to 54 bits is halved. -/
def ofRatio (num den : Nat) : Scaled :=
  let exponent := exponentOf num den
  let mantissa := mantissaAt num den exponent
  if mantissa = twoTo 53 then ⟨twoTo 52, exponent + 1⟩ else ⟨mantissa, exponent⟩

/-! ### Bounds of rounded ratios -/

theorem roundRatio_le {num den bound : Nat} (hden : 0 < den) (h : num ≤ den * bound) :
    roundRatio num den ≤ bound := by
  have hdiv := Nat.div_add_mod num den
  have hlow : num / den ≤ bound := Nat.div_le_of_le_mul h
  -- what is rounded up is not whole
  have hup : 0 < num % den → num / den + 1 ≤ bound := by
    intro hmod
    refine Nat.lt_of_mul_lt_mul_left (a := den) ?_
    omega
  unfold roundRatio
  dsimp only
  split
  · exact hlow
  · split
    · exact hup (by omega)
    · split
      · exact hlow
      · exact hup (by omega)

theorem le_roundRatio {num den bound : Nat} (hden : 0 < den) (h : den * bound ≤ num) :
    bound ≤ roundRatio num den := by
  have hlow : bound ≤ num / den := (Nat.le_div_iff_mul_le hden).mpr (by rwa [Nat.mul_comm])
  unfold roundRatio
  dsimp only
  split
  · exact hlow
  · split
    · exact Nat.le_succ_of_le hlow
    · split
      · exact hlow
      · exact Nat.le_succ_of_le hlow

theorem twoTo_succ (n : Nat) : twoTo (n + 1) = 2 * twoTo n := by
  rw [twoTo, twoTo, Nat.pow_eq, Nat.pow_eq, Nat.pow_succ, Nat.mul_comm]

theorem twoTo_pos (n : Nat) : 0 < twoTo n := Nat.pow_pos (by decide)

theorem twoTo_add (m n : Nat) : twoTo (m + n) = twoTo m * twoTo n := Nat.pow_add 2 m n

/-! ### From one exponent to the next -/

section exponents

variable {num den : Nat} {e e' : Int}

theorem denominatorAt_pos (hden : 0 < den) (e : Int) : 0 < denominatorAt den e := by
  unfold denominatorAt
  split
  · exact hden
  · exact Nat.mul_pos hden (twoTo_pos _)

/-- The next exponent halves the ratio: its numerator is half as large, or its
denominator twice as large. -/
theorem halved (num den : Nat) (e : Int) :
    numeratorAt num e = 2 * numeratorAt num (e + 1) ∧
        denominatorAt den (e + 1) = denominatorAt den e ∨
      numeratorAt num (e + 1) = numeratorAt num e ∧
        denominatorAt den (e + 1) = 2 * denominatorAt den e := by
  unfold numeratorAt denominatorAt
  by_cases h : e < 0
  · left
    have hsize : e.natAbs = (e + 1).natAbs + 1 := by omega
    rw [if_pos h, if_pos h, hsize, twoTo_succ, Nat.mul_left_comm]
    by_cases hnext : e + 1 < 0
    · rw [if_pos hnext, if_pos hnext]
      exact ⟨rfl, rfl⟩
    · have hzero : (e + 1).natAbs = 0 := by omega
      rw [if_neg hnext, if_neg hnext, hzero]
      exact ⟨congrArg (2 * ·) (Nat.mul_one num), Nat.mul_one den⟩
  · right
    have hsize : (e + 1).natAbs = e.natAbs + 1 := by omega
    rw [if_neg h, if_neg h, if_neg (by omega), if_neg (by omega), hsize, twoTo_succ]
    exact ⟨rfl, Nat.mul_left_comm _ _ _⟩

theorem FitsAt.succ (h : FitsAt num den e) : FitsAt num den (e + 1) := by
  unfold FitsAt at h ⊢
  rcases halved num den e with ⟨hnum, hden⟩ | ⟨hnum, hden⟩
  · rw [hden]
    omega
  · rw [hnum, hden, Nat.mul_assoc]
    omega

theorem FitsAt.mono (h : FitsAt num den e) (hle : e ≤ e') : FitsAt num den e' := by
  obtain ⟨n, rfl⟩ := Int.le.dest hle
  induction n with
  | zero => simpa using h
  | succ n ih =>
    have hnext := (ih (by omega)).succ
    rwa [Int.add_assoc] at hnext

/-! ### The exponent -/

theorem twoTo_log2_le (h : 0 < num) : twoTo num.log2 ≤ num := Nat.log2_self_le (by omega)

theorem lt_twoTo_log2 (num : Nat) : num < twoTo (num.log2 + 1) := Nat.lt_log2_self

/-- At the guess there are not more than 54 bits. -/
theorem guess_lt (num : Nat) (hden : 0 < den) :
    numeratorAt num (guess num den) < denominatorAt den (guess num den) * twoTo 54 := by
  have hnum := lt_twoTo_log2 num
  have hlow := twoTo_log2_le hden
  unfold numeratorAt denominatorAt
  generalize hk : (guess num den).natAbs = k
  unfold guess at hk ⊢
  split
  · calc num * twoTo k < twoTo (num.log2 + 1) * twoTo k :=
        Nat.mul_lt_mul_of_pos_right hnum (twoTo_pos k)
      _ = twoTo den.log2 * twoTo 54 := by
        rw [← twoTo_add, ← twoTo_add]
        congr 1
        omega
      _ ≤ den * twoTo 54 := Nat.mul_le_mul_right _ hlow
  · calc num < twoTo (num.log2 + 1) := hnum
      _ = twoTo den.log2 * twoTo k * twoTo 54 := by
        rw [← twoTo_add, ← twoTo_add]
        congr 1
        omega
      _ ≤ den * twoTo k * twoTo 54 := Nat.mul_le_mul_right _ (Nat.mul_le_mul_right _ hlow)

/-- Nor are there less than 53. -/
theorem le_guess (hnum : 0 < num) (den : Nat) :
    denominatorAt den (guess num den) * twoTo 52 ≤ numeratorAt num (guess num den) := by
  have hlow := twoTo_log2_le hnum
  have hden := Nat.le_of_lt (lt_twoTo_log2 den)
  unfold numeratorAt denominatorAt
  generalize hk : (guess num den).natAbs = k
  unfold guess at hk ⊢
  split
  · calc den * twoTo 52 ≤ twoTo (den.log2 + 1) * twoTo 52 := Nat.mul_le_mul_right _ hden
      _ = twoTo num.log2 * twoTo k := by
        rw [← twoTo_add, ← twoTo_add]
        congr 1
        omega
      _ ≤ num * twoTo k := Nat.mul_le_mul_right _ hlow
  · calc den * twoTo k * twoTo 52 ≤ twoTo (den.log2 + 1) * twoTo k * twoTo 52 :=
        Nat.mul_le_mul_right _ (Nat.mul_le_mul_right _ hden)
      _ = twoTo num.log2 := by
        rw [← twoTo_add, ← twoTo_add]
        congr 1
        omega
      _ ≤ num := hlow

/-- The ratio has exactly 53 bits at its exponent. -/
theorem fitsAt_freeExponent (num : Nat) (hden : 0 < den) :
    FitsAt num den (freeExponent num den) := by
  unfold freeExponent
  split
  · assumption
  · have h := guess_lt num hden
    unfold FitsAt
    rw [twoTo_succ 53, Nat.mul_left_comm] at h
    rcases halved num den (guess num den) with ⟨hnext, hsame⟩ | ⟨hsame, hnext⟩
    · rw [hsame]
      omega
    · rw [hsame, hnext, Nat.mul_assoc]
      exact h

theorem le_freeExponent (hnum : 0 < num) (den : Nat) :
    denominatorAt den (freeExponent num den) * twoTo 52 ≤ numeratorAt num (freeExponent num den) := by
  unfold freeExponent
  split
  · exact le_guess hnum den
  · rename_i h
    unfold FitsAt at h
    rw [twoTo_succ 52, Nat.mul_left_comm] at h
    rcases halved num den (guess num den) with ⟨hnext, hsame⟩ | ⟨hsame, hnext⟩
    · rw [hsame]
      omega
    · rw [hsame, hnext, Nat.mul_assoc]
      omega

theorem fitsAt_exponentOf (num : Nat) (hden : 0 < den) : FitsAt num den (exponentOf num den) :=
  (fitsAt_freeExponent num hden).mono (Int.le_max_right _ _)

/-- Only at the least exponent are there fewer bits. -/
theorem le_exponentOf (hnum : 0 < num) (den : Nat) (h : leastExponent < exponentOf num den) :
    denominatorAt den (exponentOf num den) * twoTo 52 ≤ numeratorAt num (exponentOf num den) := by
  have hfree : exponentOf num den = freeExponent num den := by
    unfold exponentOf at h ⊢
    omega
  rw [hfree]
  exact le_freeExponent hnum den

theorem exponentOf_le_ofRatio (num den : Nat) :
    exponentOf num den ≤ (ofRatio num den).exponent := by
  rw [ofRatio]
  simp only [apply_ite Scaled.exponent]
  split
  · exact Int.le_add_one (Int.le_refl _)
  · exact Int.le_refl _

/-- What is nearest to a ratio is in normal form. -/
theorem ofRatio_isNormal (hnum : 0 < num) (hden : 0 < den) : (ofRatio num den).IsNormal := by
  have hleast : leastExponent ≤ exponentOf num den := Int.le_max_left _ _
  unfold ofRatio
  dsimp only
  split
  · exact ⟨show twoTo 52 < twoTo 53 by decide, Int.le_add_one hleast, .inl (Nat.le_refl _)⟩
  · rename_i hne
    have hpos := denominatorAt_pos hden (exponentOf num den)
    have hle : mantissaAt num den (exponentOf num den) ≤ twoTo 53 :=
      roundRatio_le hpos (Nat.le_of_lt (fitsAt_exponentOf num hden))
    refine ⟨Nat.lt_of_le_of_ne hle hne, hleast, ?_⟩
    rcases Int.lt_or_eq_of_le hleast with hlt | heq
    · exact .inl (le_roundRatio hpos (le_exponentOf hnum den hlt))
    · exact .inr heq.symm

end exponents

end Scaled

end EsFront
