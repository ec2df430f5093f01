import MutantGate.Number.Binary32
/-!
# The shortest decimal that reads back

Every decimal inside the interval of a number rounds to that number.  Among those
the ones with the fewest digits are wanted, and of them the nearest.  If a
point of a decimal grid lies in the interval, then so does one of the number's two
neighbours on that grid; so it is enough to look at these two, from coarse grids to
fine ones, and the first grid with a hit has the fewest digits.  All comparisons are
between whole numbers.
-/

namespace MutantGate

/-- Which of two equally near decimals is taken. -/
inductive Tie where
  | up
  | toEven
  deriving DecidableEq, Repr

/-- A number and the ends of the interval that rounds to it, over one common
denominator.  The ends belong to the interval if it is closed. -/
structure RoundingInterval where
  low : Nat
  mid : Nat
  high : Nat
  denominator : Nat
  isClosed : Bool
  deriving Repr

namespace RoundingInterval

/-- Is the `t`-fold of the denominator inside the interval? -/
def holds (i : RoundingInterval) (t : Nat) : Bool :=
  if i.isClosed then decide (i.low ≤ t * i.denominator) && decide (t * i.denominator ≤ i.high)
  else decide (i.low < t * i.denominator) && decide (t * i.denominator < i.high)

/-- The interval measured in units of `10 ^ k`. -/
def inUnits (i : RoundingInterval) (k : Int) : RoundingInterval :=
  if 0 ≤ k then { i with denominator := i.denominator * Nat.pow 10 k.toNat }
  else
    let u := Nat.pow 10 (-k).toNat
    { i with low := i.low * u, mid := i.mid * u, high := i.high * u }

/-- Of the two whole numbers around the middle, the one inside the interval; if
both are, the nearer one. -/
def neighbour? (tie : Tie) (i : RoundingInterval) : Option Nat :=
  let below := i.mid / i.denominator
  let remainder := i.mid % i.denominator
  match i.holds below, i.holds (below + 1) with
  | true, false => some below
  | false, true => some (below + 1)
  | false, false => none
  | true, true =>
    if 2 * remainder < i.denominator then some below
    else if i.denominator < 2 * remainder then some (below + 1)
    else match tie with
      | .up => some (below + 1)
      | .toEven => some (if below % 2 = 0 then below else below + 1)

end RoundingInterval

namespace Binary32

/-- The interval of decimals that round to `m * 2 ^ e`, in quarters of the last
place.  Below a power of two the neighbours are twice as dense. -/
def interval (m : Nat) (e : Int) : RoundingInterval :=
  let gap := if m = 0x800000 ∧ -149 < e then 1 else 2
  let up := 1 <<< (e - 2).toNat
  let down := 1 <<< (2 - e).toNat
  ⟨(4 * m - gap) * up, 4 * m * up, (4 * m + 2) * up, down, m % 2 == 0⟩

/-- The powers of ten that come into question, from coarse to fine. -/
def grids : List Int := (List.range 100).map fun (n : Nat) => (40 : Int) - n

/-- The shortest decimal `d * 10 ^ k` that rounds to the positive number
`m * 2 ^ e`, as the pair of `d` and `k`. -/
def shortest (tie : Tie) (m : Nat) (e : Int) : Nat × Int :=
  let i := interval m e
  (grids.findSome? fun k => ((i.inUnits k).neighbour? tie).map fun d => (d, k)).getD (0, 0)

end Binary32

end MutantGate
