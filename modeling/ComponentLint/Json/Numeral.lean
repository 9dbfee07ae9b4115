import ComponentLint.Json.Basic
import ComponentLint.Json.Double

/-!
# The numerals of a JSON text

A numeral that is not a whole number of 64 bits denotes a double.  It is read as a significand of
64 bits times a power of ten; digits for which the significand has no room are dropped.  The two
factors are rounded to doubles before they are multiplied or divided, so it is their product or
quotient, and not the number as written, that the numeral denotes.

## Main definitions

* `Json.Scaled` — a significand and a power of ten.
* `Json.Scaled.double?` — the double that the two denote, unless it is too large.
* `Json.number? cs` — the number written by a run of characters.
-/

namespace ComponentLint.Json

/-! ### Digits -/

/-- The value of a decimal digit. -/
def digitValue (d : Char) : Nat := d.toNat - '0'.toNat

/-- The number written by decimal digits. -/
def digitsValue (ds : List Char) : Nat := ds.foldl (fun n d => 10 * n + digitValue d) 0

/-- Appends digits to a significand while it stays within 64 bits.  The digits from the first one
without room on are left. -/
def gather (significand : Nat) : List Char → Nat × List Char
  | [] => (significand, [])
  | d :: ds =>
    let longer := 10 * significand + digitValue d
    if longer < 0x10000000000000000 then gather longer ds else (significand, d :: ds)

/-- A significand and a power of ten. -/
structure Scaled where
  significand : Nat
  exponent : Int
  deriving DecidableEq, Repr

namespace Scaled

/-- The digits before and after the point, times ten to the exponent.  A digit before the point
that has no room counts as a zero; one after the point is left out. -/
def ofDigits (whole fraction : List Char) (exponent : Int) : Scaled :=
  let (significand, surplus) := gather 0 whole
  let (significand, unused) := gather significand fraction
  ⟨significand, exponent + surplus.length - (fraction.length - unused.length : Nat)⟩

/-- Divides a double by a power of ten.  The powers of ten that are doubles end with the 308th, so
a larger one is divided by in steps. -/
def divPower (d : Double) (places : Nat) : Double :=
  if places ≤ 308 then d.div (.powerOfTen places)
  else if d.mantissa = 0 then d
  else divPower (d.div (.powerOfTen 308)) (places - 308)
termination_by places

/-- The double that a significand and a power of ten denote.  There is none if the power or the
product is too large. -/
def double? (s : Scaled) : Option Double :=
  let d := Double.nearest s.significand 1
  if s.exponent < 0 then some (divPower d (-s.exponent).toNat)
  else if d.mantissa = 0 then some d
  else if 308 < s.exponent then none
  else
    let product := d.mul (.powerOfTen s.exponent.toNat)
    if product.isFinite then some product else none

end Scaled

/-! ### Numbers -/

/-- A number with a fraction or an exponent, or beyond 64 bits. -/
def decimalNumber (negative : Bool) (s : Scaled) : Json :=
  match s.double? with
  | none => .unreadable
  | some d => .number (.decimal negative d.shortest.digits d.shortest.exponent)

/-- A number without fraction and exponent.  Zero with a sign is not a whole number. -/
def wholeNumber (negative : Bool) (ds : List Char) : Json :=
  let n := digitsValue ds
  let decimal := decimalNumber negative (.ofDigits ds [] 0)
  if negative then
    if 0 < n ∧ n ≤ 0x8000000000000000 then .number (.whole (-n)) else decimal
  else if n < 0x10000000000000000 then .number (.whole n)
  else decimal

/-- The exponent written after `e`. -/
def exponent? (cs : List Char) : Option Int :=
  let (negative, ds) : Bool × List Char :=
    match cs with
    | '-' :: ds => (true, ds)
    | '+' :: ds => (false, ds)
    | ds => (false, ds)
  if ds.isEmpty || ds.any (!·.isDigit) then none
  else if negative then some (-(digitsValue ds : Int))
  else some (digitsValue ds)

/-- The number written by a run of characters: an optional sign, digits without a leading zero, an
optional fraction and an optional exponent. -/
def number? (cs : List Char) : Option Json :=
  let (negative, cs) : Bool × List Char :=
    match cs with
    | '-' :: cs => (true, cs)
    | cs => (false, cs)
  let whole := cs.takeWhile Char.isDigit
  let cs := cs.dropWhile Char.isDigit
  if whole.isEmpty || (whole.head? == some '0' && 1 < whole.length) then none
  else
    let (fraction, cs, bare) : List Char × List Char × Bool :=
      match cs with
      | '.' :: cs => (cs.takeWhile Char.isDigit, cs.dropWhile Char.isDigit, false)
      | cs => ([], cs, true)
    if !bare && fraction.isEmpty then none
    else
      match cs with
      | [] =>
        if bare then some (wholeNumber negative whole)
        else some (decimalNumber negative (.ofDigits whole fraction 0))
      | e :: cs =>
        if e = 'e' ∨ e = 'E' then
          (exponent? cs).map fun exponent =>
            decimalNumber negative (.ofDigits whole fraction exponent)
        else none

end ComponentLint.Json
