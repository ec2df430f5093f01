/-!
# Single-precision numbers

A single-precision number is kept as its 32-bit pattern, so that every not-a-number
pattern is a value of its own.  Its magnitude is read off the pattern exactly, as a
whole number times a power of two; truncation and the decimal text work on that and
on nothing else.
-/

namespace MutantGate

/-- A machine word: registers, memory cells and switches hold these. -/
abbrev Word := BitVec 32

/-- A single-precision number, as its bit pattern. -/
structure Binary32 where
  bits : UInt32
  deriving DecidableEq, Repr

/-- A number without its sign: `significand * 2 ^ exponent` if it is finite. -/
inductive Magnitude where
  | finite (significand : Nat) (exponent : Int)
  | infinite
  | notANumber
  deriving DecidableEq, Repr

namespace Binary32

/-- The sign bit. -/
def isNegative (x : Binary32) : Bool := decide (0x80000000 ≤ x.bits)

/-- The eight bits of the biased exponent. -/
def exponentField (x : Binary32) : Nat := x.bits.toNat >>> 23 % 256

/-- The 23 bits behind the leading one. -/
def fractionField (x : Binary32) : Nat := x.bits.toNat % 0x800000

/-- What a pattern denotes, apart from its sign. -/
def magnitude (x : Binary32) : Magnitude :=
  match x.exponentField with
  | 0 => .finite x.fractionField (-149)
  | 255 => if x.fractionField = 0 then .infinite else .notANumber
  | e => .finite (0x800000 + x.fractionField) (e - 150)

/-- Is the number neither infinite nor a not-a-number pattern? -/
def isFinite (x : Binary32) : Bool := x.exponentField != 255

/-- Is the number one of the two zeros? -/
def isZero (x : Binary32) : Bool :=
  match x.magnitude with
  | .finite m _ => m == 0
  | _ => false

/-- The whole part of `m * 2 ^ e`. -/
def wholePart (m : Nat) (e : Int) : Nat :=
  if 0 ≤ e then m <<< e.toNat else m >>> (-e).toNat

/-- The word nearest to a number with the fraction dropped: out of range the
least or greatest word, and zero for not-a-number. -/
def truncate (x : Binary32) : Word :=
  match x.magnitude with
  | .notANumber => 0
  | .infinite => if x.isNegative then BitVec.intMin 32 else BitVec.intMax 32
  | .finite m e =>
    if x.isNegative then
      BitVec.ofInt 32 (-(Nat.min (wholePart m e) 0x80000000 : Int))
    else
      BitVec.ofNat 32 (Nat.min (wholePart m e) 0x7fffffff)

end Binary32

end MutantGate
