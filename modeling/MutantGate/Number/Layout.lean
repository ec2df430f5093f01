import MutantGate.Number.Shortest
import MutantGate.Text.Decimal
/-!
# Layouts of decimal texts

Where the shortest digits are known, a text of a number is a matter of layout:
which magnitudes are written in positional notation, how an exponent is signed and
which of two equally short decimals is taken.  A layout is a record of these
decisions; laying out turns digits into a numeral.
-/

namespace MutantGate

/-- The decisions behind a decimal text.  Numbers from `10 ^ least` to below
`10 ^ limit` are written in positional notation with at least one digit behind the
point, the others with an exponent. -/
structure Layout where
  least : Int
  limit : Int
  positiveExponent : ExponentSign
  tie : Tie

namespace Layout

/-- Digits in positional notation; the first one stands for `10 ^ x`. -/
def positional (ds : List Digit) (x : Int) : List Digit × List Digit :=
  if x < 0 then ([Digit.zero], List.replicate (-x - 1).toNat Digit.zero ++ ds)
  else
    let w := x.toNat + 1
    let fraction := ds.drop w
    (ds.take w ++ List.replicate (w - ds.length) Digit.zero,
      if fraction.isEmpty then [Digit.zero] else fraction)

/-- An exponent with its sign. -/
def exponent (l : Layout) (x : Int) : ExponentSign × List Digit :=
  (if x < 0 then .minus else l.positiveExponent, Decimal.digits x.natAbs)

/-- Lays out digits of which the first one stands for `10 ^ x`. -/
def arrange (l : Layout) (isNegative : Bool) (ds : List Digit) (x : Int) : Numeral :=
  if l.least ≤ x ∧ x < l.limit then
    ⟨isNegative, (positional ds x).1, some (positional ds x).2, none⟩
  else
    let fraction := if ds.length ≤ 1 then none else some (ds.drop 1)
    ⟨isNegative, ds.take 1, fraction, some (l.exponent x)⟩

/-- The numeral of a finite number; none for the others. -/
def numeral? (l : Layout) (x : Binary32) : Option Numeral :=
  match x.magnitude with
  | .finite 0 _ => some ⟨x.isNegative, [Digit.zero], some [Digit.zero], none⟩
  | .finite m e =>
    let (d, k) := Binary32.shortest l.tie m e
    let ds := Decimal.digits d
    some (l.arrange x.isNegative ds (k + ds.length - 1))
  | _ => none

end Layout

end MutantGate
