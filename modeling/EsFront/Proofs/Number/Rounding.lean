/-
The ratios that round to a double.

`Scaled.readsBack` decides by integer arithmetic whether a ratio lies between
the midpoints to the two neighbours of a double. Here the same is said with
rational numbers (`Scaled.Covers`, `Scaled.readsBack_iff`), and shown to mean
what it should:

* `Scaled.Covers.unique` — no ratio reads back as two positive normal forms;
* `Scaled.covers_ofRatio` — the one that is nearest to a ratio reads it back;
* `Double.ofNat_eq` — a natural number that reads back as a double is rounded
  to that double.
-/
import Mathlib.Algebra.Order.Field.Power
import Mathlib.Data.Rat.Cast.Order
import Mathlib.Tactic.FieldSimp
import Mathlib.Tactic.Linarith
import Mathlib.Tactic.NormNum
import Mathlib.Tactic.Positivity
import Mathlib.Tactic.Ring
import EsFront.Number.Decimal

namespace EsFront.Scaled

/-- The value. -/
def size (s : Scaled) : ℚ := s.mantissa * 2 ^ s.exponent

theorem denominator_pos (s : Scaled) : 0 < s.denominator := by
  unfold denominator
  split
  · exact twoTo_pos _
  · exact Nat.one_pos

theorem ratio_eq_size (s : Scaled) : (s.numerator : ℚ) / s.denominator = s.size := by
  unfold numerator denominator size
  by_cases h : s.exponent < 0
  · obtain ⟨n, hn⟩ : ∃ n : ℕ, s.exponent = -(n : ℤ) := ⟨s.exponent.natAbs, by omega⟩
    rw [if_pos h, if_pos h, hn, zpow_neg, zpow_natCast, div_eq_mul_inv]
    simp [twoTo]
  · obtain ⟨n, hn⟩ : ∃ n : ℕ, s.exponent = n := ⟨s.exponent.natAbs, by omega⟩
    rw [if_neg h, if_neg h, hn, zpow_natCast]
    simp [twoTo]

/-- Halfway to the next smaller double. -/
def lower (s : Scaled) : ℚ := s.lowerMidpoint.size

/-- Halfway to the next larger double. -/
def upper (s : Scaled) : ℚ := s.upperMidpoint.size

theorem upper_eq (s : Scaled) : s.upper = (s.mantissa + 1 / 2) * 2 ^ s.exponent := by
  rw [upper, upperMidpoint, size, zpow_sub_one₀ (by norm_num)]
  push_cast
  ring

/-- Below the least double of a binade the gap is half as wide. -/
theorem lower_of_least {s : Scaled} (hm : s.mantissa = twoTo 52)
    (he : leastExponent < s.exponent) : s.lower = (2 ^ 52 - 1 / 4) * 2 ^ s.exponent := by
  have hexp : (2 : ℚ) ^ (s.exponent - 2) = 2 ^ s.exponent / 4 := by
    rw [zpow_sub₀ (by norm_num)]
    norm_num
  rw [lower, lowerMidpoint, if_pos ⟨hm, he⟩, size, hm]
  simp only [hexp]
  norm_num [twoTo]
  ring

theorem lower_of_not_least {s : Scaled} (hpos : 0 < s.mantissa)
    (h : ¬ (s.mantissa = twoTo 52 ∧ leastExponent < s.exponent)) :
    s.lower = (s.mantissa - 1 / 2) * 2 ^ s.exponent := by
  rw [lower, lowerMidpoint, if_neg h, size]
  simp only
  rw [zpow_sub_one₀ (by norm_num), Nat.cast_sub (by omega)]
  push_cast
  ring

/-- The lower midpoint in both cases together. -/
theorem lower_le {s : Scaled} (hpos : 0 < s.mantissa) :
    (s.mantissa - 1 / 2) * 2 ^ s.exponent ≤ s.lower ∧
      s.lower ≤ (s.mantissa - 1 / 4) * 2 ^ s.exponent := by
  have hp : (0 : ℚ) < 2 ^ s.exponent := by positivity
  by_cases h : s.mantissa = twoTo 52 ∧ leastExponent < s.exponent
  · have hm : (s.mantissa : ℚ) = 2 ^ 52 := by
      rw [h.1]
      norm_num [twoTo]
    rw [lower_of_least h.1 h.2, hm]
    exact ⟨by linarith, le_refl _⟩
  · rw [lower_of_not_least hpos h]
    exact ⟨le_refl _, by linarith⟩

/-- The ratios that round to a number: those between the midpoints, which
belong to it when its mantissa is even. -/
structure Covers (s : Scaled) (x : ℚ) : Prop where
  lower_le : s.lower ≤ x
  le_upper : x ≤ s.upper
  inside : s.mantissa % 2 = 0 ∨ s.lower < x ∧ x < s.upper

theorem compareRatios_eq {a b c d : ℕ} (hb : 0 < b) (hd : 0 < d) :
    compareRatios a b c d = compare ((a : ℚ) / b) ((c : ℚ) / d) := by
  have hb' : (0 : ℚ) < b := by exact_mod_cast hb
  have hd' : (0 : ℚ) < d := by exact_mod_cast hd
  unfold compareRatios
  rcases lt_trichotomy (a * d) (c * b) with h | h | h
  · have hlt : (a : ℚ) / b < c / d := by
      rw [div_lt_div_iff₀ hb' hd']
      exact_mod_cast h
    rw [compare_lt_iff_lt.2 h, compare_lt_iff_lt.2 hlt]
  · have heq : (a : ℚ) / b = c / d := by
      rw [div_eq_div_iff hb'.ne' hd'.ne']
      exact_mod_cast h
    rw [compare_eq_iff_eq.2 h, compare_eq_iff_eq.2 heq]
  · have hlt : (c : ℚ) / d < a / b := by
      rw [div_lt_div_iff₀ hd' hb']
      exact_mod_cast h
    rw [compare_gt_iff_gt.2 h, compare_gt_iff_gt.2 hlt]

/-- A comparison that an equality passes only if `even` says so. -/
theorem ordering_match {x y : ℚ} (even : Bool) :
    (match compare x y with
      | .lt => true
      | .eq => even
      | .gt => false) = true ↔ x < y ∨ x = y ∧ even = true := by
  rcases lt_trichotomy x y with h | h | h
  · simp [compare_lt_iff_lt.2 h, h]
  · simp [h]
  · simp [compare_gt_iff_gt.2 h, h.not_gt, h.ne']

theorem readsBack_iff (s : Scaled) {num den : ℕ} (hden : 0 < den) :
    s.readsBack num den = true ↔ s.Covers (num / den) := by
  have hlow := s.lowerMidpoint.denominator_pos
  have hup := s.upperMidpoint.denominator_pos
  unfold readsBack
  simp only [compareRatios_eq hlow hden, compareRatios_eq hden hup, Bool.and_eq_true,
    ratio_eq_size]
  refine (and_congr (ordering_match _) (ordering_match _)).trans ?_
  rw [decide_eq_true_eq]
  change (s.lower < _ ∨ s.lower = _ ∧ _) ∧ (_ < s.upper ∨ _ = s.upper ∧ _) ↔ _
  constructor
  · rintro ⟨hl, hu⟩
    refine ⟨?_, ?_, ?_⟩
    · rcases hl with hl | hl
      · exact hl.le
      · exact hl.1.le
    · rcases hu with hu | hu
      · exact hu.le
      · exact hu.1.le
    · rcases hl with hl | hl
      · rcases hu with hu | hu
        · exact .inr ⟨hl, hu⟩
        · exact .inl hu.2
      · exact .inl hl.2
  · rintro ⟨hl, hu, heven | ⟨hl', hu'⟩⟩
    · -- an even mantissa has the midpoints too
      exact ⟨hl.lt_or_eq.imp_right fun h => ⟨h, heven⟩,
        hu.lt_or_eq.imp_right fun h => ⟨h, heven⟩⟩
    · exact ⟨.inl hl', .inl hu'⟩

/-! ### At most one number -/

/-- A positive number reads back as itself. -/
theorem covers_size {s : Scaled} (hpos : 0 < s.mantissa) : s.Covers s.size := by
  have hp : (0 : ℚ) < 2 ^ s.exponent := by positivity
  have hlower := (Scaled.lower_le hpos).2
  have hlt : s.lower < s.size := by
    rw [size]
    linarith
  have hgt : s.size < s.upper := by
    rw [size, upper_eq]
    linarith
  exact ⟨hlt.le, hgt.le, .inr ⟨hlt, hgt⟩⟩

theorem Covers.mantissa_le {a b : Scaled} {x : ℚ} (ha : a.Covers x) (hb : b.Covers x)
    (hapos : 0 < a.mantissa) (hexp : a.exponent = b.exponent) : a.mantissa ≤ b.mantissa := by
  by_contra hlt
  have hp : (0 : ℚ) < 2 ^ b.exponent := by positivity
  have hlower := (Scaled.lower_le hapos).1
  have hupper := b.upper_eq
  rw [hexp] at hlower
  have hsucc : (b.mantissa : ℚ) + 1 ≤ a.mantissa := by exact_mod_cast (not_le.1 hlt)
  have hmul : ((b.mantissa : ℚ) + 1) * 2 ^ b.exponent ≤ a.mantissa * 2 ^ b.exponent :=
    mul_le_mul_of_nonneg_right hsucc hp.le
  have hx := ha.lower_le
  have hx' := hb.le_upper
  -- The intervals of neighbours share a midpoint at most, which belongs to the even one.
  have heq : x = b.upper := by linarith
  have hbeven : b.mantissa % 2 = 0 := by
    rcases hb.inside with h | h
    · exact h
    · linarith
  have haeven : a.mantissa % 2 = 0 := by
    rcases ha.inside with h | h
    · exact h
    · linarith
  have hnext : (a.mantissa : ℚ) * 2 ^ b.exponent = (b.mantissa + 1) * 2 ^ b.exponent := by
    linarith
  have hnext' : (a.mantissa : ℚ) = b.mantissa + 1 := mul_right_cancel₀ hp.ne' hnext
  have : a.mantissa = b.mantissa + 1 := by exact_mod_cast hnext'
  omega

/-- In a lower binade all intervals lie further down. -/
theorem Covers.exponent_le {a b : Scaled} {x : ℚ} (ha : a.Covers x) (hb : b.Covers x)
    (hnormal : a.IsNormal) (hbnormal : b.IsNormal) : a.exponent ≤ b.exponent := by
  by_contra hlt
  have hp : (0 : ℚ) < 2 ^ b.exponent := by positivity
  have htwice : 2 * (2 : ℚ) ^ b.exponent ≤ 2 ^ a.exponent := by
    rw [mul_comm, ← zpow_add_one₀ (by norm_num)]
    exact zpow_le_zpow_right₀ (by norm_num) (by omega)
  have hbig : twoTo 52 ≤ a.mantissa := by
    have hleast := hbnormal.least_le
    rcases hnormal.normalized with h | h
    · exact h
    · omega
  have hpos : 0 < a.mantissa := lt_of_lt_of_le (by decide) hbig
  have hsmall : (b.mantissa : ℚ) + 1 ≤ 2 ^ 53 := by
    have := hbnormal.mantissa_lt
    exact_mod_cast this
  have hbupper : b.upper ≤ (2 ^ 53 - 1 / 2) * 2 ^ b.exponent := by
    rw [upper_eq]
    exact mul_le_mul_of_nonneg_right (by linarith) hp.le
  have hx := ha.lower_le
  have hx' := hb.le_upper
  by_cases hleast : a.mantissa = twoTo 52
  · have hlower := lower_of_least hleast (lt_of_le_of_lt hbnormal.least_le (by omega))
    -- The two intervals touch only where the lower one has an odd mantissa.
    have heq : b.upper = (2 ^ 53 - 1 / 2) * 2 ^ b.exponent := by linarith
    have hodd : (b.mantissa : ℚ) = 2 ^ 53 - 1 := by
      rw [upper_eq] at heq
      have := mul_right_cancel₀ hp.ne' heq
      linarith
    have hodd' : b.mantissa = 2 ^ 53 - 1 := by
      have : (b.mantissa : ℚ) + 1 = 2 ^ 53 := by linarith
      have : b.mantissa + 1 = 2 ^ 53 := by exact_mod_cast this
      omega
    rcases hb.inside with h | h
    · omega
    · linarith
  · have hlower := (Scaled.lower_le hpos).1
    have hmore : (2 : ℚ) ^ 52 + 1 ≤ a.mantissa := by
      have : twoTo 52 + 1 ≤ a.mantissa := by omega
      exact_mod_cast this
    have hpa : (0 : ℚ) < 2 ^ a.exponent := by positivity
    have hmul : ((2 : ℚ) ^ 52 + 1 / 2) * 2 ^ a.exponent ≤ (a.mantissa - 1 / 2) * 2 ^ a.exponent :=
      mul_le_mul_of_nonneg_right (by linarith) hpa.le
    linarith

/-- No ratio rounds to two positive numbers in normal form. -/
theorem Covers.unique {a b : Scaled} {x : ℚ} (ha : a.Covers x) (hb : b.Covers x)
    (hanormal : a.IsNormal) (hbnormal : b.IsNormal) (hapos : 0 < a.mantissa)
    (hbpos : 0 < b.mantissa) : a.mantissa = b.mantissa ∧ a.exponent = b.exponent := by
  have hexp : a.exponent = b.exponent :=
    le_antisymm (ha.exponent_le hb hanormal hbnormal) (hb.exponent_le ha hbnormal hanormal)
  exact ⟨le_antisymm (ha.mantissa_le hb hapos hexp) (hb.mantissa_le ha hbpos hexp.symm), hexp⟩

/-! ### The nearest number -/

/-- The rounded quotient is within a half of the exact one, and even if it is
off by a half. -/
theorem roundRatio_spec (num : ℕ) {den : ℕ} (hden : 0 < den) :
    (num : ℚ) / den ≤ roundRatio num den + 1 / 2 ∧
      (roundRatio num den : ℚ) - 1 / 2 ≤ num / den ∧
      (roundRatio num den % 2 = 0 ∨
        (num : ℚ) / den < roundRatio num den + 1 / 2 ∧
          (roundRatio num den : ℚ) - 1 / 2 < num / den) := by
  have hdiv : num / den * den + num % den = num := by
    rw [mul_comm]
    exact Nat.div_add_mod num den
  have hmod := Nat.mod_lt num hden
  have hnext : (num / den + 1) * den = num / den * den + den := by ring
  have hwhole : 2 * num ≤ 2 * (roundRatio num den * den) + den ∧
      2 * (roundRatio num den * den) ≤ 2 * num + den ∧
      (roundRatio num den % 2 = 0 ∨
        2 * num < 2 * (roundRatio num den * den) + den ∧
          2 * (roundRatio num den * den) < 2 * num + den) := by
    unfold roundRatio
    simp only
    split_ifs with hlow hhigh heven
    · omega
    · rw [hnext]
      omega
    · exact ⟨by omega, by omega, .inl heven⟩
    · rw [hnext]
      exact ⟨by omega, by omega, .inl (by omega)⟩
  obtain ⟨hup, hdown, hinside⟩ := hwhole
  generalize roundRatio num den = r at *
  have hden' : (0 : ℚ) < den := by exact_mod_cast hden
  have hup' : (2 : ℚ) * num ≤ 2 * (r * den) + den := by exact_mod_cast hup
  have hdown' : (2 : ℚ) * (r * den) ≤ 2 * num + den := by exact_mod_cast hdown
  refine ⟨(div_le_iff₀ hden').2 (by linarith), (le_div_iff₀ hden').2 (by linarith),
    hinside.imp_right fun hinside => ?_⟩
  have hup'' : (2 : ℚ) * num < 2 * (r * den) + den := by exact_mod_cast hinside.1
  have hdown'' : (2 : ℚ) * (r * den) < 2 * num + den := by exact_mod_cast hinside.2
  exact ⟨(div_lt_iff₀ hden').2 (by linarith), (lt_div_iff₀ hden').2 (by linarith)⟩

section nearest

variable {num den : ℕ}

theorem ratioAt_eq (hden : 0 < den) (e : ℤ) :
    (numeratorAt num e : ℚ) / denominatorAt den e * 2 ^ e = num / den := by
  have hden' : (den : ℚ) ≠ 0 := by exact_mod_cast hden.ne'
  unfold numeratorAt denominatorAt
  by_cases h : e < 0
  · obtain ⟨n, hn⟩ : ∃ n : ℕ, e = -(n : ℤ) := ⟨e.natAbs, by omega⟩
    rw [if_pos h, if_pos h, hn, zpow_neg, zpow_natCast]
    simp only [twoTo, Int.natAbs_neg, Int.natAbs_natCast, Nat.pow_eq]
    push_cast
    field_simp
  · obtain ⟨n, hn⟩ : ∃ n : ℕ, e = n := ⟨e.natAbs, by omega⟩
    rw [if_neg h, if_neg h, hn, zpow_natCast]
    simp only [twoTo, Int.natAbs_natCast, Nat.pow_eq]
    push_cast
    field_simp

/-- The mantissa at an exponent is the nearest one, and even if it is off by a
half. -/
theorem mantissaAt_spec (num : ℕ) (hden : 0 < den) (e : ℤ) :
    (num : ℚ) / den ≤ (mantissaAt num den e + 1 / 2) * 2 ^ e ∧
      ((mantissaAt num den e : ℚ) - 1 / 2) * 2 ^ e ≤ num / den ∧
      (mantissaAt num den e % 2 = 0 ∨
        (num : ℚ) / den < (mantissaAt num den e + 1 / 2) * 2 ^ e ∧
          ((mantissaAt num den e : ℚ) - 1 / 2) * 2 ^ e < num / den) := by
  have hp : (0 : ℚ) < 2 ^ e := by positivity
  obtain ⟨hup, hdown, hinside⟩ := roundRatio_spec (numeratorAt num e) (denominatorAt_pos hden e)
  rw [← ratioAt_eq hden e, mantissaAt]
  exact ⟨mul_le_mul_of_nonneg_right hup hp.le, mul_le_mul_of_nonneg_right hdown hp.le,
    hinside.imp_right fun h =>
      ⟨mul_lt_mul_of_pos_right h.1 hp, mul_lt_mul_of_pos_right h.2 hp⟩⟩

/-- At its exponent a ratio lies below the next binade, -/
theorem lt_binade (num : ℕ) (hden : 0 < den) :
    (num : ℚ) / den < 2 ^ 53 * 2 ^ exponentOf num den := by
  have hp : (0 : ℚ) < 2 ^ exponentOf num den := by positivity
  have hden' : (0 : ℚ) < denominatorAt den (exponentOf num den) := by
    exact_mod_cast denominatorAt_pos hden _
  have hfits := fitsAt_exponentOf num hden
  have hfits' : (numeratorAt num (exponentOf num den) : ℚ)
      < denominatorAt den (exponentOf num den) * 2 ^ 53 := by exact_mod_cast hfits
  rw [← ratioAt_eq hden (exponentOf num den)]
  refine mul_lt_mul_of_pos_right ((div_lt_iff₀ hden').2 ?_) hp
  linarith

/-- and in its own binade unless the exponent is the least one. -/
theorem binade_le (hnum : 0 < num) (hden : 0 < den) (h : leastExponent < exponentOf num den) :
    (2 : ℚ) ^ 52 * 2 ^ exponentOf num den ≤ num / den := by
  have hp : (0 : ℚ) < 2 ^ exponentOf num den := by positivity
  have hden' : (0 : ℚ) < denominatorAt den (exponentOf num den) := by
    exact_mod_cast denominatorAt_pos hden _
  have hlow := le_exponentOf hnum den h
  have hlow' : (denominatorAt den (exponentOf num den) : ℚ) * 2 ^ 52
      ≤ numeratorAt num (exponentOf num den) := by exact_mod_cast hlow
  rw [← ratioAt_eq hden (exponentOf num den)]
  refine mul_le_mul_of_nonneg_right ((le_div_iff₀ hden').2 ?_) hp.le
  linarith

end nearest

/-- A ratio that is rounded up into the next binade belongs to its first number. -/
theorem covers_carried {x : ℚ} {e : ℤ} (hleast : leastExponent ≤ e)
    (hdown : ((2 : ℚ) ^ 53 - 1 / 2) * 2 ^ e ≤ x) (hhigh : x < 2 ^ 53 * 2 ^ e) :
    Covers ⟨twoTo 52, e + 1⟩ x := by
  have hp : (0 : ℚ) < 2 ^ e := by positivity
  have hfirst : ((twoTo 52 : ℕ) : ℚ) = 2 ^ 52 := by norm_num [twoTo]
  have hlower := lower_of_least (s := ⟨twoTo 52, e + 1⟩) rfl (Int.lt_add_one_of_le hleast)
  have hupper := upper_eq ⟨twoTo 52, e + 1⟩
  simp only [zpow_add_one₀ (two_ne_zero' ℚ), hfirst] at hlower hupper
  refine ⟨?_, ?_, .inl (show twoTo 52 % 2 = 0 by decide)⟩
  · rw [hlower]
    linarith
  · rw [hupper]
    linarith

theorem covers_rounded {x : ℚ} {m : ℕ} {e : ℤ} (hpos : 0 < m)
    (hlow : leastExponent < e → (2 : ℚ) ^ 52 * 2 ^ e ≤ x) (hup : x ≤ (m + 1 / 2) * 2 ^ e)
    (hdown : ((m : ℚ) - 1 / 2) * 2 ^ e ≤ x)
    (hinside : m % 2 = 0 ∨ x < (m + 1 / 2) * 2 ^ e ∧ ((m : ℚ) - 1 / 2) * 2 ^ e < x) :
    Covers ⟨m, e⟩ x := by
  have hp : (0 : ℚ) < 2 ^ e := by positivity
  have hupper := upper_eq ⟨m, e⟩
  simp only at hupper
  by_cases hfirst : m = twoTo 52 ∧ leastExponent < e
  · -- the gap below is narrower here, but the ratio is not below the number
    have hlower := lower_of_least (s := ⟨m, e⟩) hfirst.1 hfirst.2
    simp only at hlower
    have hlt : lower ⟨m, e⟩ < x := by linarith [hlow hfirst.2]
    exact ⟨hlt.le, hup.trans_eq hupper.symm,
      hinside.imp_right fun h => ⟨hlt, h.1.trans_eq hupper.symm⟩⟩
  · have hlower := lower_of_not_least (s := ⟨m, e⟩) hpos hfirst
    simp only at hlower
    exact ⟨hlower.trans_le hdown, hup.trans_eq hupper.symm,
      hinside.imp_right fun h => ⟨hlower.trans_lt h.2, h.1.trans_eq hupper.symm⟩⟩

/-- A ratio reads back as the number nearest to it, unless that is zero. -/
theorem covers_ofRatio {num den : ℕ} (hnum : 0 < num) (hden : 0 < den)
    (hpos : 0 < (ofRatio num den).mantissa) : (ofRatio num den).Covers (num / den) := by
  have hleast : leastExponent ≤ exponentOf num den := Int.le_max_left _ _
  have hhigh := lt_binade num hden
  obtain ⟨hup, hdown, hinside⟩ := mantissaAt_spec num hden (exponentOf num den)
  unfold ofRatio at hpos ⊢
  simp only at hpos ⊢
  by_cases hcarry : mantissaAt num den (exponentOf num den) = twoTo 53
  · -- rounding up has led to the next power of two
    have hmantissa : (mantissaAt num den (exponentOf num den) : ℚ) = 2 ^ 53 := by
      rw [hcarry]
      norm_num [twoTo]
    rw [hmantissa] at hdown
    rw [if_pos hcarry]
    exact covers_carried hleast hdown hhigh
  · rw [if_neg hcarry] at hpos ⊢
    exact covers_rounded hpos (binade_le hnum hden) hup hdown hinside

end EsFront.Scaled

namespace EsFront.Double

/-- A natural number lies above the least binade, -/
theorem least_lt_exponentOf (n : ℕ) : Scaled.leastExponent < Scaled.exponentOf n 1 := by
  have hlog : Nat.log2 1 = 0 := rfl
  have hguess : -53 ≤ Scaled.guess n 1 := by
    unfold Scaled.guess
    omega
  unfold Scaled.exponentOf Scaled.freeExponent Scaled.leastExponent
  split
  · omega
  · omega

/-- so it is not rounded to zero. -/
theorem mantissa_ofRatio_pos {n : ℕ} (hn : 0 < n) : 0 < (Scaled.ofRatio n 1).mantissa := by
  rcases (Scaled.ofRatio_isNormal hn Nat.one_pos).normalized with hbig | hleast
  · exact lt_of_lt_of_le (by decide) hbig
  · have hle := Scaled.exponentOf_le_ofRatio n 1
    exact absurd hleast ((least_lt_exponentOf n).trans_le hle).ne'

/-- **Reading back.** A natural number that lies in the interval of a positive
double is rounded to that double. -/
theorem ofNat_eq {d : Double} {n : ℕ} (hneg : d.negative = false) (hpos : 0 < d.mantissa)
    (h : d.Covers n) : ofNat n = some d := by
  have hn : 0 < n := by
    have hp : (0 : ℚ) < 2 ^ d.exponent := by positivity
    have hone : (1 : ℚ) ≤ d.mantissa := by exact_mod_cast hpos
    have hlower : 0 < ((d.mantissa : ℚ) - 1 / 2) * 2 ^ d.exponent :=
      mul_pos (by linarith) hp
    have : (0 : ℚ) < n := by linarith [(Scaled.lower_le hpos).1, h.lower_le]
    exact_mod_cast this
  have hcpos := mantissa_ofRatio_pos hn
  have hcovers := Scaled.covers_ofRatio hn Nat.one_pos hcpos
  rw [Nat.cast_one, div_one] at hcovers
  -- both the nearest number and the double read the natural number back
  obtain ⟨hmantissa, hexponent⟩ := hcovers.unique h (Scaled.ofRatio_isNormal hn Nat.one_pos)
    d.normal hcpos hpos
  obtain ⟨nearest, negative, normal, finite⟩ := d
  have hnearest : Scaled.ofRatio n 1 = nearest := Scaled.ext hmantissa hexponent
  subst hnearest hneg
  rw [ofNat, ofRatio, dif_neg Nat.one_ne_zero, dif_neg hn.ne']
  exact dif_pos finite

end EsFront.Double
