import MutantGate.Number.Binary32
/-!
# Rounding to binary numbers

The numbers of a binary format have a significand of so many bits and an exponent that
is not below a least one.  A fraction is rounded to the nearest of them, and if two are
equally near, to the one with the even significand.  Exponents have no upper bound
here: where a format ends is a question of its own.  All comparisons are between whole
numbers.
-/

namespace MutantGate

/-- A number `significand * 2 ^ exponent`. -/
structure BinaryNumber where
  significand : Nat
  exponent : Int
  deriving DecidableEq, Repr

/-- How many bits a significand has and which exponent is the least. -/
structure BinaryFormat where
  precision : Nat
  least : Int
  deriving DecidableEq, Repr

/-- The whole number nearest to a fraction; of two equally near ones the even one. -/
def nearestWhole (num den : Nat) : Nat :=
  let below := num / den
  let remainder := num % den
  if 2 * remainder < den then below
  else if den < 2 * remainder then below + 1
  else if below % 2 = 0 then below else below + 1

namespace BinaryFormat

/-- Single precision. -/
def single : BinaryFormat := ⟨24, -149⟩

/-- Double precision. -/
def double : BinaryFormat := ⟨53, -1074⟩

/-- The exponent that leaves as many bits of a positive fraction before the point as a
significand has, or the least one. -/
def exponentOf (f : BinaryFormat) (num den : Nat) : Int :=
  let e : Int := (num.log2 : Int) - den.log2 - f.precision
  let isShort := num <<< (-e).toNat < (den <<< e.toNat) <<< f.precision
  max f.least (if isShort then e else e + 1)

/-- The number of a format nearest to a fraction. -/
def round (f : BinaryFormat) (num den : Nat) : BinaryNumber :=
  if num = 0 then ⟨0, f.least⟩
  else
    let e := f.exponentOf num den
    ⟨nearestWhole (num <<< (-e).toNat) (den <<< e.toNat), e⟩

/-- The number of a format nearest to a product. -/
def product (f : BinaryFormat) (a b : BinaryNumber) : BinaryNumber :=
  let e := a.exponent + b.exponent
  f.round ((a.significand * b.significand) <<< e.toNat) (1 <<< (-e).toNat)

/-- The number of a format nearest to a quotient. -/
def quotient (f : BinaryFormat) (a b : BinaryNumber) : BinaryNumber :=
  let e := a.exponent - b.exponent
  f.round (a.significand <<< e.toNat) (b.significand <<< (-e).toNat)

end BinaryFormat

namespace BinaryNumber

/-- Is the number `2 ^ n` or more? -/
def reaches (a : BinaryNumber) (n : Nat) : Bool :=
  decide (1 <<< (n - a.exponent).toNat ≤ a.significand <<< (a.exponent - n).toNat)

/-- The single-precision number with a sign and a magnitude, which is rounded; from
`2 ^ 128` on it is infinite. -/
def toBinary32 (isNegative : Bool) (a : BinaryNumber) : Binary32 :=
  let r := BinaryFormat.single.round (a.significand <<< a.exponent.toNat)
    (1 <<< (-a.exponent).toNat)
  -- A carry into the next power of two lands in the exponent field, as it should.
  let magnitude := min ((r.exponent + 149).toNat * 0x800000 + r.significand) 0x7f800000
  ⟨(if isNegative then 0x80000000 + magnitude else magnitude).toUInt32⟩

end BinaryNumber

end MutantGate
