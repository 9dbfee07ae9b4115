/-!
# Doubles and their shortest decimals

The finite numbers of 64 bits in binary, with exact arithmetic on natural numbers.  A double is
written as the decimal with the fewest digits among those that are nearer to it than to any other
double, and of these as the one nearest to it.

## Main definitions

* `Double` — a mantissa times a power of two.
* `Double.nearest num den` — the double nearest to a quotient.
* `Double.mul`, `Double.div` — the rounded product and quotient.
* `Decimal` — digits times a power of ten.
* `Double.readsBack d x` — the double nearest to the decimal `x` is `d`.
* `Double.shortest d` — the shortest decimal that reads back as `d`.
-/

namespace ComponentLint

/-! ### Rounding -/

/-- A quotient rounded to the nearest natural number, and a half to the even one. -/
def roundQuotient (num den : Nat) : Nat :=
  let quotient := num / den
  let twice := 2 * (num % den)
  if den < twice ∨ (twice = den ∧ quotient % 2 = 1) then quotient + 1 else quotient

/-- A double that is not negative: `mantissa * 2 ^ exponent`.  The mantissa has 53 bits, or fewer
if the exponent is the least one. -/
structure Double where
  mantissa : Nat
  exponent : Int
  deriving DecidableEq, Repr

namespace Double

/-- The least exponent. -/
def leastExponent : Int := -1074

/-- The bit in front of a mantissa of 53 bits. -/
def leadingBit : Nat := 0x10000000000000

/-- The double nearest to a quotient, as if there were no largest one.  Of two that are equally
near it is the one with the even mantissa. -/
def nearest (num den : Nat) : Double :=
  let guess : Int := (num.log2 : Int) - den.log2
  let top := if den <<< guess.toNat ≤ num <<< (-guess).toNat then guess else guess - 1
  let exponent := max leastExponent (top - 52)
  let mantissa := roundQuotient (num <<< (-exponent).toNat) (den <<< exponent.toNat)
  if mantissa = 2 * leadingBit then ⟨leadingBit, exponent + 1⟩ else ⟨mantissa, exponent⟩

/-- Whether there is a double of 64 bits with this mantissa and exponent. -/
def isFinite (d : Double) : Bool := d.exponent ≤ 971

/-- The numerator of a double as a quotient. -/
def numerator (d : Double) : Nat := d.mantissa <<< d.exponent.toNat

/-- The denominator of a double as a quotient. -/
def denominator (d : Double) : Nat := 1 <<< (-d.exponent).toNat

/-- The rounded product. -/
def mul (a b : Double) : Double :=
  nearest (a.numerator * b.numerator) (a.denominator * b.denominator)

/-- The rounded quotient. -/
def div (a b : Double) : Double :=
  nearest (a.numerator * b.denominator) (a.denominator * b.numerator)

/-- The double nearest to a power of ten. -/
def powerOfTen (n : Nat) : Double := nearest (Nat.pow 10 n) 1

end Double

/-! ### Shortest decimals -/

/-- A decimal that is not negative: `digits * 10 ^ exponent`. -/
structure Decimal where
  digits : Nat
  exponent : Int
  deriving DecidableEq, Repr

namespace Double

/-- Whether the double nearest to a decimal is `d`.  The numbers that round to `d` reach half of
the way to its neighbours, ends included if the mantissa is even; below a power of two the
neighbour is only half as far away.  Both sides are compared in quarters of the last place. -/
def readsBack (d : Double) (x : Decimal) : Bool :=
  let quarters := x.digits * Nat.pow 10 x.exponent.toNat <<< (2 - d.exponent).toNat
  let unit := Nat.pow 10 (-x.exponent).toNat <<< (d.exponent - 2).toNat
  let below := if d.mantissa = leadingBit ∧ leastExponent < d.exponent then 1 else 2
  let low := (4 * d.mantissa - below) * unit
  let high := (4 * d.mantissa + 2) * unit
  if d.mantissa % 2 = 0 then low ≤ quarters && quarters ≤ high
  else low < quarters && quarters < high

/-- The multiple of `10 ^ exponent` that reads back as a double, if there is one: the neighbour
below or above, and if both do the nearer one, or the even one of two equally near. -/
def onGrid? (d : Double) (exponent : Int) : Option Decimal :=
  let num := d.numerator * Nat.pow 10 (-exponent).toNat
  let den := d.denominator * Nat.pow 10 exponent.toNat
  let lower : Decimal := ⟨num / den, exponent⟩
  let upper : Decimal := ⟨num / den + 1, exponent⟩
  let rounded : Decimal := ⟨roundQuotient num den, exponent⟩
  [rounded, lower, upper].find? d.readsBack

/-- The decimal that is equal to a double. -/
def exact (d : Double) : Decimal :=
  if 0 ≤ d.exponent then ⟨d.numerator, 0⟩
  else ⟨d.mantissa * Nat.pow 5 (-d.exponent).toNat, d.exponent⟩

/-- The shortest decimal that reads back as a double.  The grids are tried from one that is coarser
than the first digit on. -/
def shortest (d : Double) : Decimal :=
  if d.mantissa = 0 then ⟨0, 0⟩
  else
    let bits : Int := d.mantissa.log2 + d.exponent + 1
    let coarsest := bits * 30103 / 100000 + 2
    ((List.range 24).findSome? fun (i : Nat) => d.onGrid? (coarsest - i)).getD d.exact

end Double

end ComponentLint
