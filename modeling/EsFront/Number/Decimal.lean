/-
Decimal text of doubles.

The digits are the fewest that read back as the same double, and of those the
nearest to it:
* `Double.shortest` — digits and decimal point of a positive double;
* `Double.display` — positional text without exponent or trailing `.0`;
* `Double.jsonText` — the spelling of numbers in JSON text.

Both texts come from one choice of digits; they differ in how an exact tie
between two candidates goes and in where positional notation ends.
-/
import EsFront.Number.Double

namespace EsFront

/-- How an exact tie between two equally short candidates goes. -/
inductive Tie where
  | up
  | toEven
deriving DecidableEq, Repr

/-- Decimal digits with a decimal point: the value is `0.d₁d₂… · 10 ^ point`. -/
structure Decimal where
  digits : List Char
  point : Int
deriving DecidableEq, Repr

/-- Compares `a / b` with `c / d`. -/
def compareRatios (a b c d : Nat) : Ordering := compare (a * d) (c * b)

namespace Scaled

/-- The number halfway between a double and its lower neighbour. -/
def lowerMidpoint (s : Scaled) : Scaled :=
  if s.mantissa = twoTo 52 ∧ leastExponent < s.exponent then
    ⟨4 * s.mantissa - 1, s.exponent - 2⟩
  else ⟨2 * s.mantissa - 1, s.exponent - 1⟩

/-- The number halfway between a double and its upper neighbour. -/
def upperMidpoint (s : Scaled) : Scaled := ⟨2 * s.mantissa + 1, s.exponent - 1⟩

/-- Whether the ratio `num / den` reads back as a double: it lies between the two
midpoints, which belong to the interval when the mantissa is even. -/
def readsBack (s : Scaled) (num den : Nat) : Bool :=
  let low := s.lowerMidpoint
  let up := s.upperMidpoint
  let even := s.mantissa % 2 = 0
  let above := match compareRatios low.numerator low.denominator num den with
    | .lt => true
    | .eq => even
    | .gt => false
  let below := match compareRatios num den up.numerator up.denominator with
    | .lt => true
    | .eq => even
    | .gt => false
  above && below

end Scaled

namespace Double

/-- The largest `p` with `10 ^ (p - 1) ≤ num / den`, counted up from a first
guess below it. -/
def decimalPoint (num den : Nat) : Int :=
  let guess : Int := (Nat.toDigits 10 num).length - (Nat.toDigits 10 den).length
  let reached : Bool :=
    if guess < 0 then den ≤ num * tenTo guess.natAbs else den * tenTo guess.natAbs ≤ num
  if reached then guess + 1 else guess

/-- The candidate of a decimal grid with `unit = 10 ^ power` for a double: of
the two grid points around it those that read back, the nearer one first. -/
def candidate (tie : Tie) (d : Double) (power : Int) : Option Nat :=
  let num := if power < 0 then d.numerator * tenTo power.natAbs else d.numerator
  let den := if power < 0 then d.denominator else d.denominator * tenTo power.natAbs
  let low := num / den
  let twice := 2 * (num % den)
  let fits (n : Nat) : Bool :=
    if power < 0 then d.readsBack n (tenTo power.natAbs)
    else d.readsBack (n * tenTo power.natAbs) 1
  let lowFirst :=
    twice < den || (twice == den && (match tie with
      | .up => false
      | .toEven => low % 2 == 0))
  match fits low, fits (low + 1) with
  | true, true => some (if lowFirst then low else low + 1)
  | true, false => some low
  | false, true => some (low + 1)
  | false, false => none

/-- Digits of the first grid, from coarse to fine, that has a candidate. -/
def shortestFrom (tie : Tie) (d : Double) (point : Int) : Nat → Nat → Nat × Int
  | 0, count => ((d.candidate tie (point - count)).getD 0, point - count)
  | more + 1, count =>
    match d.candidate tie (point - count) with
    | some n => (n, point - count)
    | none => shortestFrom tie d point more (count + 1)

/-- The fewest digits that read back as the positive double `d`, and of those
the nearest to it. -/
def shortest (tie : Tie) (d : Double) : Decimal :=
  let point := decimalPoint d.numerator d.denominator
  let (n, power) := shortestFrom tie d point 17 1
  let all := Nat.toDigits 10 n
  let kept := (all.reverse.dropWhile (· == '0')).reverse
  ⟨kept, power + all.length⟩

/-- The sign in front of the digits; negative zero has one too. -/
def sign (d : Double) : String := if d.negative then "-" else ""

/-- Text of a positive decimal without exponent; a whole number has no point. -/
def positional (text : Decimal) : String :=
  let n : Int := text.digits.length
  if text.point ≤ 0 then
    "0." ++ String.ofList (List.replicate text.point.natAbs '0' ++ text.digits)
  else if n ≤ text.point then
    String.ofList (text.digits ++ List.replicate (text.point - n).natAbs '0')
  else
    String.ofList (text.digits.take text.point.natAbs) ++ "." ++
      String.ofList (text.digits.drop text.point.natAbs)

/-- Positional text of a double: never an exponent, no trailing `.0`. -/
def display (d : Double) : String :=
  if d.isZero then d.sign ++ "0" else d.sign ++ positional (d.shortest .up)

/-- Text with an exponent: one digit, the others after a point, and the signed
power of ten. -/
def scientific (text : Decimal) : String :=
  let power := text.point - 1
  let mark := if power < 0 then "e-" else "e+"
  let fraction := match text.digits.drop 1 with
    | [] => ""
    | more => "." ++ String.ofList more
  String.ofList (text.digits.take 1) ++ fraction ++ mark ++ toString power.natAbs

/-- The spelling of a double in JSON text: positional with at least `.0` from
`10 ^ (-5)` up to `10 ^ 16`, with an exponent outside. -/
def jsonText (d : Double) : String :=
  if d.isZero then d.sign ++ "0.0"
  else
    let text := d.shortest .toEven
    if -5 < text.point ∧ text.point ≤ 16 then
      let plain := positional text
      d.sign ++ (if (text.digits.length : Int) ≤ text.point then plain ++ ".0" else plain)
    else d.sign ++ scientific text

end Double

end EsFront
