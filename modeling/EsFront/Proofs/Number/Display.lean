/-
The displayed digits of natural numbers.

A double whose value is a natural number is displayed as decimal digits only,
and the number they spell is rounded to that double again
(`Double.IsNatural.display_spec`). The displayed number need not be the exact
value: the search for the fewest digits stops at the first grid that has a
point in the double's interval. It never has to go below the grid of units,
because the value itself lies there (`Double.candidate_units`), and for a large
value it ends earlier, because 18 digits always suffice
(`Double.candidate_eighteen`).

Of every double the text has digits, a point and a sign only (`Double.display_chars`).
-/
import Mathlib.Data.Nat.Cast.Field
import EsFront.Proofs.Number.Rounding

namespace EsFront.Double

/-- A double whose value is a natural number. Zero carries no sign. -/
structure IsNatural (d : Double) : Prop where
  unsigned : d.negative = false
  whole : d.denominator ∣ d.numerator

instance (d : Double) : Decidable d.IsNatural :=
  decidable_of_iff (d.negative = false ∧ d.denominator ∣ d.numerator)
    ⟨fun h => ⟨h.1, h.2⟩, fun h => ⟨h.1, h.2⟩⟩

/-- One with the given sign. -/
def one (negative : Bool) : Double where
  mantissa := twoTo 52
  exponent := -52
  negative
  normal := by decide
  finite := by decide

/-- The normal form of zero is unique. -/
theorem eq_zero {d : Double} (h : d.mantissa = 0) : d = zero d.negative := by
  have hexponent : d.exponent = Scaled.leastExponent := by
    rcases d.normal.normalized with hbig | hleast
    · rw [h] at hbig
      exact absurd hbig (by decide)
    · exact hleast
  obtain ⟨size, negative, normal, finite⟩ := d
  obtain rfl : size = ⟨0, Scaled.leastExponent⟩ := Scaled.ext h hexponent
  rfl

/-! ### The decimal point -/

theorem toDigits_bounds {n : ℕ} (hn : 0 < n) :
    (10 : ℚ) ^ (((Nat.toDigits 10 n).length : ℤ) - 1) ≤ n ∧
      (n : ℚ) < 10 ^ ((Nat.toDigits 10 n).length : ℤ) := by
  have hpos : 0 < (Nat.toDigits 10 n).length := Nat.length_toDigits_pos
  generalize hk : (Nat.toDigits 10 n).length = k at hpos
  obtain ⟨j, rfl⟩ : ∃ j, k = j + 1 := ⟨k - 1, by omega⟩
  have hhigh : n < 10 ^ (j + 1) :=
    (Nat.length_toDigits_le_iff (by decide) (by omega)).1 hk.le
  have hlow : 10 ^ j ≤ n := by
    rcases Nat.eq_zero_or_pos j with rfl | hj
    · exact hn
    · by_contra hlt
      have := (Nat.length_toDigits_le_iff (b := 10) (by decide) hj).2 (not_le.1 hlt)
      omega
  refine ⟨?_, ?_⟩
  · rw [show ((j + 1 : ℕ) : ℤ) - 1 = (j : ℤ) by push_cast; ring, zpow_natCast]
    exact_mod_cast hlow
  · rw [zpow_natCast]
    exact_mod_cast hhigh

/-- Whether a power of ten is reached, decided by integer arithmetic. -/
theorem reached_iff {num den : ℕ} (hden : 0 < den) (guess : ℤ) :
    (if guess < 0 then decide (den ≤ num * tenTo guess.natAbs)
      else decide (den * tenTo guess.natAbs ≤ num)) = true ↔
      (10 : ℚ) ^ guess ≤ num / den := by
  have hden' : (0 : ℚ) < den := by exact_mod_cast hden
  rw [le_div_iff₀ hden']
  by_cases h : guess < 0
  · obtain ⟨k, rfl⟩ : ∃ k : ℕ, guess = -(k : ℤ) := ⟨guess.natAbs, by omega⟩
    have hk : (0 : ℚ) < 10 ^ k := by positivity
    rw [if_pos h, zpow_neg, zpow_natCast, inv_mul_le_iff₀ hk, decide_eq_true_eq, Int.natAbs_neg,
      Int.natAbs_natCast, tenTo, Nat.pow_eq, mul_comm]
    exact_mod_cast Iff.rfl
  · obtain ⟨k, rfl⟩ : ∃ k : ℕ, guess = k := ⟨guess.natAbs, by omega⟩
    rw [if_neg h, zpow_natCast, decide_eq_true_eq, Int.natAbs_natCast, tenTo, Nat.pow_eq, mul_comm]
    exact_mod_cast Iff.rfl

theorem decimalPoint_spec {num den : ℕ} (hnum : 0 < num) (hden : 0 < den) :
    (10 : ℚ) ^ (decimalPoint num den - 1) ≤ num / den ∧
      (num : ℚ) / den < 10 ^ decimalPoint num den := by
  have hden' : (0 : ℚ) < den := by exact_mod_cast hden
  obtain ⟨hnlow, hnhigh⟩ := toDigits_bounds hnum
  obtain ⟨hdlow, hdhigh⟩ := toDigits_bounds hden
  unfold decimalPoint
  simp only
  generalize ((Nat.toDigits 10 num).length : ℤ) = a at *
  generalize ((Nat.toDigits 10 den).length : ℤ) = b at *
  have hten : (10 : ℚ) ≠ 0 := by norm_num
  -- the difference of the lengths is the guess, and it is one too small or right
  by_cases h : (10 : ℚ) ^ (a - b) ≤ num / den
  · rw [if_pos ((reached_iff hden _).2 h)]
    refine ⟨by rwa [add_sub_cancel_right], ?_⟩
    rw [div_lt_iff₀ hden']
    calc (num : ℚ) < 10 ^ a := hnhigh
      _ = 10 ^ (a - b + 1) * 10 ^ (b - 1) := by
        rw [← zpow_add₀ hten]
        congr 1
        ring
      _ ≤ 10 ^ (a - b + 1) * den := mul_le_mul_of_nonneg_left hdlow (by positivity)
  · rw [if_neg (mt (reached_iff hden _).1 h)]
    refine ⟨?_, not_le.1 h⟩
    rw [le_div_iff₀ hden']
    calc (10 : ℚ) ^ (a - b - 1) * den ≤ 10 ^ (a - b - 1) * 10 ^ b :=
        mul_le_mul_of_nonneg_left hdhigh.le (by positivity)
      _ = 10 ^ (a - 1) := by
        rw [← zpow_add₀ hten]
        congr 1
        ring
      _ ≤ num := hnlow

/-! ### Candidates on a grid of whole numbers -/

section candidates

variable {d : Double} {tie : Tie} {power : ℤ}

/-- The grid point below the value, for a grid of whole numbers. -/
def gridBelow (d : Double) (power : ℤ) : ℕ := d.numerator / (d.denominator * tenTo power.natAbs)

theorem gridBelow_spec (d : Double) (hpower : 0 ≤ power) :
    (d.gridBelow power : ℚ) * 10 ^ power ≤ d.size ∧
      d.size < (d.gridBelow power + 1) * 10 ^ power := by
  obtain ⟨k, rfl⟩ : ∃ k : ℕ, power = k := ⟨power.natAbs, by omega⟩
  have hden : (0 : ℚ) < d.denominator := by exact_mod_cast d.denominator_pos
  have hunit : 0 < d.denominator * 10 ^ k := Nat.mul_pos d.denominator_pos (by positivity)
  have hlow := Nat.div_mul_le_self d.numerator (d.denominator * 10 ^ k)
  have hhigh := Nat.lt_mul_of_div_lt (Nat.lt_succ_self (d.numerator / (d.denominator * 10 ^ k))) hunit
  have hlow' : ((d.numerator / (d.denominator * 10 ^ k) : ℕ) : ℚ) * (d.denominator * 10 ^ k)
      ≤ d.numerator := by exact_mod_cast hlow
  have hhigh' : (d.numerator : ℚ) <
      ((d.numerator / (d.denominator * 10 ^ k) : ℕ) + 1) * (d.denominator * 10 ^ k) := by
    exact_mod_cast hhigh
  rw [← Scaled.ratio_eq_size, zpow_natCast, le_div_iff₀ hden, div_lt_iff₀ hden, gridBelow, tenTo,
    Int.natAbs_natCast, Nat.pow_eq]
  exact ⟨by linarith, by linarith⟩

/-- What the search asks of a grid point: to read back as the double. -/
theorem readsBack_grid (hpower : 0 ≤ power) (n : ℕ) :
    d.readsBack (n * tenTo power.natAbs) 1 = true ↔ d.Covers (n * 10 ^ power) := by
  obtain ⟨k, rfl⟩ : ∃ k : ℕ, power = k := ⟨power.natAbs, by omega⟩
  rw [Scaled.readsBack_iff d.toScaled Nat.one_pos, Int.natAbs_natCast, tenTo, Nat.pow_eq, zpow_natCast]
  simp

/-- A candidate reads back as the double. -/
theorem covers_of_candidate (hpower : 0 ≤ power) {n : ℕ} (h : d.candidate tie power = some n) :
    d.Covers (n * 10 ^ power) := by
  rw [← readsBack_grid hpower]
  unfold candidate at h
  simp only [if_neg (not_lt.2 hpower)] at h
  split at h
  case h_1 hlow hhigh =>
    cases h
    split_ifs
    · exact hlow
    · exact hhigh
  case h_2 hlow hhigh => cases h; exact hlow
  case h_3 hlow hhigh => cases h; exact hhigh
  case h_4 => cases h

/-- A grid has a candidate if its point below the value reads back. -/
theorem candidate_isSome (hpower : 0 ≤ power) (h : d.Covers (d.gridBelow power * 10 ^ power)) :
    (d.candidate tie power).isSome := by
  rw [← readsBack_grid hpower, gridBelow] at h
  unfold candidate
  simp only [if_neg (not_lt.2 hpower), h]
  split
  all_goals simp_all

/-- A natural number is a candidate on the grid of units. -/
theorem candidate_units (hpos : 0 < d.mantissa) (hwhole : d.denominator ∣ d.numerator) :
    (d.candidate tie 0).isSome := by
  refine candidate_isSome le_rfl ?_
  have hvalue : (d.gridBelow 0 : ℚ) = d.size := by
    rw [gridBelow, ← Scaled.ratio_eq_size, tenTo, Int.natAbs_zero, Nat.pow_eq, pow_zero, mul_one,
      Nat.cast_div hwhole (by exact_mod_cast d.denominator_pos.ne')]
  rw [hvalue, zpow_zero, mul_one]
  exact Scaled.covers_size hpos

/-- Where the value has 18 digits or more in front of the units of the grid, the
interval is wider than the grid. -/
theorem candidate_eighteen (hpos : 0 < d.mantissa) (hpower : 0 ≤ power)
    (h : (10 : ℚ) ^ 17 * 10 ^ power ≤ d.size) : (d.candidate tie power).isSome := by
  refine candidate_isSome hpower ?_
  obtain ⟨hlow, hhigh⟩ := d.gridBelow_spec hpower
  have hp : (0 : ℚ) < 2 ^ d.exponent := by positivity
  have hmantissa : (d.mantissa : ℚ) < 2 ^ 53 := by
    have := d.normal.mantissa_lt
    exact_mod_cast this
  have hsize : d.size < 2 ^ 53 * 2 ^ d.exponent := by
    rw [Scaled.size]
    exact mul_lt_mul_of_pos_right hmantissa hp
  have hlower := (Scaled.lower_le hpos).2
  have habove : d.lower < d.gridBelow power * 10 ^ power := by
    have hgap : (10 : ℚ) ^ power < 2 ^ d.exponent / 4 := by linarith
    rw [sub_mul] at hlower
    have : d.size = d.mantissa * 2 ^ d.exponent := rfl
    linarith
  have hcovers := Scaled.covers_size hpos
  have hbelow : (d.gridBelow power : ℚ) * 10 ^ power < d.upper := by
    refine hlow.trans_lt ?_
    rw [Scaled.size, Scaled.upper_eq]
    linarith
  exact ⟨habove.le, hbelow.le, .inr ⟨habove, hbelow⟩⟩

end candidates

/-! ### The search -/

/-- The search ends on a grid of whole numbers if one of those that it visits
has a candidate. -/
theorem shortestFrom_spec {d : Double} {tie : Tie} {point : ℤ} {more count k : ℕ} (hk : k ≤ more)
    (hwhole : 0 ≤ point - (count + k : ℕ))
    (h : (d.candidate tie (point - (count + k : ℕ))).isSome) :
    0 ≤ (shortestFrom tie d point more count).2 ∧
      d.candidate tie (shortestFrom tie d point more count).2
        = some (shortestFrom tie d point more count).1 := by
  induction more generalizing count k with
  | zero =>
    obtain rfl : k = 0 := by omega
    rw [Nat.add_zero] at h hwhole
    obtain ⟨n, hn⟩ := Option.isSome_iff_exists.1 h
    rw [shortestFrom, hn]
    exact ⟨hwhole, rfl⟩
  | succ more ih =>
    rw [shortestFrom]
    cases hc : d.candidate tie (point - count) with
    | some n => exact ⟨by simp only; omega, hc⟩
    | none =>
      -- The grid of this count has none, so the one that has is a later one.
      have hne : k ≠ 0 := by
        rintro rfl
        rw [Nat.add_zero, hc] at h
        exact absurd h (by simp)
      have hsum : count + 1 + (k - 1) = count + k := by omega
      exact ih (k := k - 1) (by omega) (by rw [hsum]; exact hwhole) (by rw [hsum]; exact h)

/-- For a natural number the search ends on a grid of whole numbers, at a point
that reads back. -/
theorem IsNatural.shortestFrom_spec {d : Double} (h : d.IsNatural) (hpos : 0 < d.mantissa)
    (tie : Tie) :
    ∃ (n power : ℕ),
      shortestFrom tie d (decimalPoint d.numerator d.denominator) 17 1 = (n, (power : ℤ)) ∧
        d.Covers (n * 10 ^ power : ℕ) := by
  have hnum : 0 < d.numerator := by
    unfold Scaled.numerator
    split
    · exact hpos
    · exact Nat.mul_pos hpos (Nat.pow_pos (by decide))
  obtain ⟨hlow, hhigh⟩ := decimalPoint_spec hnum d.denominator_pos
  rw [Scaled.ratio_eq_size] at hlow hhigh
  generalize decimalPoint d.numerator d.denominator = point at *
  have hone : (1 : ℚ) ≤ d.size := by
    have hle := Nat.le_of_dvd hnum h.whole
    have hden : (0 : ℚ) < d.denominator := by exact_mod_cast d.denominator_pos
    rw [← Scaled.ratio_eq_size, le_div_iff₀ hden, one_mul]
    exact_mod_cast hle
  -- a number that is not below one has digits in front of its point
  have hpoint : 0 < point := by
    by_contra hle
    have : (10 : ℚ) ^ point ≤ 1 := zpow_le_one_of_nonpos₀ (by norm_num) (not_lt.1 hle)
    linarith
  have hfound : 0 ≤ (shortestFrom tie d point 17 1).2 ∧
      d.candidate tie (shortestFrom tie d point 17 1).2
        = some (shortestFrom tie d point 17 1).1 := by
    by_cases hlarge : point ≤ 18
    · -- The grid of units is among the first 18.
      have hunits : point - (1 + (point.toNat - 1) : ℕ) = 0 := by omega
      refine Double.shortestFrom_spec (k := point.toNat - 1) (by omega) hunits.ge ?_
      rw [hunits]
      exact candidate_units hpos h.whole
    · refine Double.shortestFrom_spec (k := 17) le_rfl (by omega) ?_
      refine candidate_eighteen hpos (by omega) ?_
      have hten : (10 : ℚ) ^ 17 * 10 ^ (point - (1 + 17 : ℕ)) = 10 ^ (point - 1) := by
        rw [← zpow_natCast, ← zpow_add₀ (by norm_num)]
        congr 1
        push_cast
        ring
      rw [hten]
      exact hlow
  obtain ⟨hpower, hcandidate⟩ := hfound
  have hcovers := covers_of_candidate hpower hcandidate
  obtain ⟨power, hp⟩ : ∃ power : ℕ, (shortestFrom tie d point 17 1).2 = power :=
    ⟨_, (Int.toNat_of_nonneg hpower).symm⟩
  refine ⟨(shortestFrom tie d point 17 1).1, power, Prod.ext rfl hp, ?_⟩
  rw [hp, zpow_natCast] at hcovers
  push_cast
  exact hcovers

/-! ### The text -/

/-- Digits without their last zeros, and as many zeros as were taken off. -/
theorem stripped_append (digits : List Char) :
    (digits.reverse.dropWhile (· == '0')).reverse ++
        List.replicate (digits.length - (digits.reverse.dropWhile (· == '0')).reverse.length) '0'
      = digits := by
  have hsplit := List.takeWhile_append_dropWhile (p := (· == '0')) (l := digits.reverse)
  have hzeros : digits.reverse.takeWhile (· == '0')
      = List.replicate (digits.reverse.takeWhile (· == '0')).length '0' := by
    refine List.eq_replicate_iff.2 ⟨rfl, fun c hc => ?_⟩
    simpa using List.all_eq_true.1 List.all_takeWhile c hc
  have hlength := congrArg List.length hsplit
  rw [List.length_append, List.length_reverse] at hlength
  have hcount : digits.length - (digits.reverse.dropWhile (· == '0')).reverse.length
      = (digits.reverse.takeWhile (· == '0')).length := by
    rw [List.length_reverse]
    omega
  rw [hcount, ← List.reverse_replicate, ← hzeros, ← List.reverse_append, hsplit,
    List.reverse_reverse]

/-- A whole number with its zeros at the end taken off is written with them. -/
theorem positional_whole (n power : ℕ) :
    positional ⟨((Nat.toDigits 10 n).reverse.dropWhile (· == '0')).reverse,
        (power : ℤ) + (Nat.toDigits 10 n).length⟩
      = String.ofList (Nat.toDigits 10 n ++ List.replicate power '0') := by
  have hstrip := stripped_append (Nat.toDigits 10 n)
  have hpos : 0 < (Nat.toDigits 10 n).length := Nat.length_toDigits_pos
  have hle : ((Nat.toDigits 10 n).reverse.dropWhile (· == '0')).reverse.length
      ≤ (Nat.toDigits 10 n).length := by
    have := congrArg List.length hstrip
    rw [List.length_append] at this
    omega
  generalize ((Nat.toDigits 10 n).reverse.dropWhile (· == '0')).reverse = kept at *
  generalize Nat.toDigits 10 n = digits at *
  unfold positional
  simp only
  rw [if_neg (by omega), if_pos (by omega)]
  have hzeros : ((power : ℤ) + digits.length - kept.length).natAbs
      = (digits.length - kept.length) + power := by omega
  rw [hzeros, List.replicate_add, ← List.append_assoc, hstrip]

/-- **Display of natural numbers.** The text has digits only, and the number
they spell is rounded to the double displayed. -/
theorem IsNatural.display_spec {d : Double} (h : d.IsNatural) :
    ∃ digits : List Char, d.display.toList = digits ∧ digits ≠ [] ∧
      (∀ c ∈ digits, c.isDigit = true) ∧ ofNat (Nat.ofDigitChars 10 digits 0) = some d := by
  have hsign : d.sign = "" := by rw [sign, h.unsigned]; rfl
  -- zero is displayed by itself, other numbers by their shortest digits
  by_cases hzero : d.mantissa = 0
  · obtain rfl : d = zero false := h.unsigned ▸ eq_zero hzero
    exact ⟨['0'], by decide, by decide, List.all_eq_true.1 (by decide), by decide⟩
  · have hpos : 0 < d.mantissa := Nat.pos_of_ne_zero hzero
    obtain ⟨n, power, hfrom, hcovers⟩ := h.shortestFrom_spec hpos .up
    refine ⟨Nat.toDigits 10 n ++ List.replicate power '0', ?_, ?_, ?_, ?_⟩
    · have hnotZero : d.isZero = false := decide_eq_false hzero
      have hshortest : d.shortest .up
          = ⟨((Nat.toDigits 10 n).reverse.dropWhile (· == '0')).reverse,
              (power : ℤ) + (Nat.toDigits 10 n).length⟩ := by
        delta shortest
        simp only [hfrom]
      rw [display, hnotZero, hsign, hshortest, positional_whole]
      simp
    · simp
    · intro c hc
      rcases List.mem_append.1 hc with hc | hc
      · exact Nat.isDigit_of_mem_toDigits (by decide) (by decide) hc
      · rw [List.eq_of_mem_replicate hc]
        decide
    · rw [Nat.ofDigitChars_append, Nat.ofDigitChars_ten_toDigits, Nat.ofDigitChars_replicate_zero,
        mul_comm]
      exact ofNat_eq h.unsigned hpos hcovers

/-! ### The characters of displayed numbers -/

theorem isDigit_of_mem_shortest {d : Double} {tie : Tie} {c : Char}
    (hc : c ∈ (d.shortest tie).digits) : c.isDigit = true := by
  -- zeros at the end are left out
  have hall : c ∈ Nat.toDigits 10 _ :=
    List.mem_reverse.mp ((List.dropWhile_sublist _).subset (List.mem_reverse.mp hc))
  exact Nat.isDigit_of_mem_toDigits (by decide) (by decide) hall

theorem positional_chars {text : Decimal} (h : ∀ c ∈ text.digits, c.isDigit = true) :
    ∀ c ∈ (positional text).toList, c.isDigit = true ∨ c = '.' := by
  have hzeros : ∀ n, ∀ c ∈ List.replicate n '0', c.isDigit = true := by
    intro n c hc
    rw [List.eq_of_mem_replicate hc]
    decide
  intro c hc
  unfold positional at hc
  simp only at hc
  split at hc
  · -- below one
    simp only [String.toList_append, String.toList_ofList, List.mem_append] at hc
    rcases hc with hc | hc | hc
    · have hc : c = '0' ∨ c = '.' := by simpa using hc
      rcases hc with rfl | rfl
      · exact .inl (by decide)
      · exact .inr rfl
    · exact .inl (hzeros _ c hc)
    · exact .inl (h c hc)
  split at hc
  · -- a whole number
    simp only [String.toList_ofList, List.mem_append] at hc
    rcases hc with hc | hc
    · exact .inl (h c hc)
    · exact .inl (hzeros _ c hc)
  · simp only [String.toList_append, String.toList_ofList, List.mem_append] at hc
    rcases hc with (hc | hc) | hc
    · exact .inl (h c (List.mem_of_mem_take hc))
    · exact .inr (by simpa using hc)
    · exact .inl (h c (List.mem_of_mem_drop hc))

/-- A displayed number has digits and a point only, and a sign if it is negative. -/
theorem display_chars (d : Double) : ∀ c ∈ d.display.toList,
    (c = '-' ∧ d.negative = true) ∨ c.isDigit = true ∨ c = '.' := by
  have hsign : ∀ c ∈ d.sign.toList, c = '-' ∧ d.negative = true := by
    unfold sign
    split
    · next hnegative => simp [hnegative]
    · simp
  intro c hc
  unfold display at hc
  split at hc
  · rw [String.toList_append] at hc
    rcases List.mem_append.mp hc with hc | hc
    · exact .inl (hsign c hc)
    · rw [show c = '0' by simpa using hc]
      exact .inr (.inl (by decide))
  · rw [String.toList_append] at hc
    rcases List.mem_append.mp hc with hc | hc
    · exact .inl (hsign c hc)
    · exact .inr (positional_chars (fun _ => isDigit_of_mem_shortest) c hc)

end EsFront.Double
