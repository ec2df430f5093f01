import MutantGate.Number.Rounding
import MutantGate.Text.Decimal
/-!
# Reading a numeral as a single-precision number

A numeral without point and exponent that fits 64 bits is converted in one
rounding.  Every other numeral goes through double precision: as many digits as fit
64 bits are read exactly, the skipped ones only count for the exponent, and the
power of ten is then multiplied or divided in, each time with one rounding.  A
numeral beyond the double-precision range has no value; one beyond the
single-precision range is infinite.

## What is proved elsewhere

That the numeral written for a finite number is read as this number, although it is rounded twice
(`Proofs.ReadBack`).  For other numerals the result may be a neighbour of the nearest number.
-/

namespace MutantGate.Numeral

open BinaryFormat

/-- Appends digits to a number as long as it stays below `2 ^ 64`; also gives the
digits left over. -/
def gather (n : Nat) : List Digit → Nat × List Digit
  | [] => (n, [])
  | d :: ds => if 10 * n + d.val < UInt64.size then gather (10 * n + d.val) ds else (n, d :: ds)

/-- The greatest exponent that is read digit by digit. -/
def exponentLimit : Nat := 0x7fffffff

/-- A power of ten in double precision. -/
def powerOfTen (k : Nat) : BinaryNumber := double.round (Nat.pow 10 k) 1

/-- A number divided by `10 ^ k`, in steps no table of powers is exceeded by. -/
def scaleDown (a : BinaryNumber) (k : Nat) : BinaryNumber :=
  if k ≤ 308 then double.quotient a (powerOfTen k)
  else if a.significand = 0 then a
  else scaleDown (double.quotient a (powerOfTen 308)) (k - 308)
  termination_by k
  decreasing_by omega

/-- A number multiplied by `10 ^ k`, if the product is below `2 ^ 1024`. -/
def scaleUp? (a : BinaryNumber) (k : Nat) : Option BinaryNumber :=
  if k ≤ 308 then
    let p := double.product a (powerOfTen k)
    if p.reaches 1024 then none else some p
  else if a.significand = 0 then some a
  else none

/-- The double-precision value of `significand * 10 ^ exponent`. -/
def scaled? (significand : Nat) (exponent : Int) : Option BinaryNumber :=
  let a := double.round significand 1
  if 0 ≤ exponent then scaleUp? a exponent.toNat else some (scaleDown a (-exponent).toNat)

/-- The significand of a numeral and the power of ten it is counted in. -/
def significand (n : Numeral) : Nat × Int :=
  let (s, skipped) := gather 0 n.whole
  match n.fraction with
  | none => (s, skipped.length)
  | some ds =>
    let (s, rest) := gather s ds
    (s, skipped.length - (ds.length - rest.length))

/-- The magnitude of a numeral in double precision. -/
def magnitude? (n : Numeral) : Option BinaryNumber :=
  let (s, e) := n.significand
  match n.exponent with
  | none => scaled? s e
  | some (sign, ds) =>
    let x := Decimal.value ds
    if exponentLimit < x then
      if s = 0 ∨ sign = .minus then some ⟨0, 0⟩ else none
    else scaled? s (if sign = .minus then e - x else e + x)

/-- The single-precision value of a numeral. -/
def toBinary32? (n : Numeral) : Option Binary32 :=
  match n.toInt? with
  | some i =>
    if Int64.minValue.toInt ≤ i ∧ i < UInt64.size then
      some (BinaryNumber.toBinary32 n.isNegative ⟨i.natAbs, 0⟩)
    else n.magnitude?.map (BinaryNumber.toBinary32 n.isNegative)
  | none => n.magnitude?.map (BinaryNumber.toBinary32 n.isNegative)

end MutantGate.Numeral
