/-
Finite binary64 numbers as exact values.

A double is a sign and a mantissa with a power of two in normal form, so every
operation on it is integer arithmetic:
* `Double.ofRatio` — the double nearest to a ratio of two naturals, ties to
  even, or `none` when it would not be finite;
* `Double.mul`, `Double.div` — exact product and quotient, rounded once;
* `Double.scale` — multiplication by a power of ten in rounded steps, the
  way number tokens are read.
-/
import EsFront.Number.Rounding

namespace EsFront

/-- The highest exponent a double has. -/
def Double.greatestExponent : Int := 971

/-- A finite double with value `± mantissa · 2 ^ exponent`. Zero keeps its sign. -/
structure Double extends Scaled where
  negative : Bool
  /-- Each value has one mantissa and exponent. -/
  normal : toScaled.IsNormal
  finite : exponent ≤ Double.greatestExponent
deriving DecidableEq, Repr

/-- `10 ^ n`. -/
def tenTo (n : Nat) : Nat := Nat.pow 10 n

namespace Double

/-- Zero with the given sign. -/
def zero (negative : Bool) : Double where
  mantissa := 0
  exponent := Scaled.leastExponent
  negative
  normal := by decide
  finite := by decide

instance : Inhabited Double := ⟨zero false⟩

def isZero (d : Double) : Bool := d.mantissa = 0

/-- The double nearest to `± num / den`, ties to even; `none` when it would
not be finite. -/
def ofRatio (negative : Bool) (num den : Nat) : Option Double :=
  if hden : den = 0 then none
  else if hnum : num = 0 then some (zero negative)
  else
    let nearest := Scaled.ofRatio num den
    if finite : nearest.exponent ≤ greatestExponent then
      let normal := Scaled.ofRatio_isNormal (Nat.pos_of_ne_zero hnum) (Nat.pos_of_ne_zero hden)
      some { nearest with negative, normal, finite }
    else none

/-- The double nearest to a natural number. -/
def ofNat (n : Nat) : Option Double := ofRatio false n 1

def neg (d : Double) : Double := { d with negative := !d.negative }

/-- The product, rounded once. -/
def mul (a b : Double) : Option Double :=
  ofRatio (a.negative != b.negative) (a.numerator * b.numerator)
    (a.denominator * b.denominator)

/-- The quotient by a double that is not zero, rounded once. -/
def div (a b : Double) : Option Double :=
  ofRatio (a.negative != b.negative) (a.numerator * b.denominator)
    (a.denominator * b.numerator)

/-- The double nearest to `10 ^ k`. -/
def powerOfTen (k : Nat) : Option Double := ofNat (tenTo k)

/-- The largest power of ten that is a finite double. -/
def greatestPower : Nat := 308

/-- A quotient by the largest power of ten, `steps` times or until it is
zero. -/
def shrink (d : Double) : Nat → Option Double
  | 0 => some d
  | steps + 1 =>
    if d.isZero then some d
    else (powerOfTen greatestPower).bind d.div |>.bind (shrink · steps)

/-- `d · 10 ^ power` in steps that each round: as many quotients by the largest
power of ten as a small power needs, then one product or quotient by the
double nearest to the remaining power. -/
def scale (d : Double) (power : Int) : Option Double :=
  let size := power.natAbs
  if power < 0 then
    let steps := (size - 1) / greatestPower
    (d.shrink steps).bind fun small =>
      if small.isZero then some small
      else (powerOfTen (size - steps * greatestPower)).bind small.div
  else if size ≤ greatestPower then (powerOfTen size).bind d.mul
  else if d.isZero then some d
  else none

end Double

end EsFront
