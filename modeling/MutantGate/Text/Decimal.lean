/-!
# Decimal digits and numerals

A natural number has one list of decimal digits without leading zeros.  A
numeral is a number as it is written: sign, whole part, and optionally a
fraction and a power of ten.  Reading keeps the numeral and not its value,
because different readers give one numeral different values (an integer, a
binary fraction), and some numerals have none.
-/

namespace MutantGate

/-- A decimal digit. -/
abbrev Digit := Fin 10

namespace Digit

/-- The digit zero. -/
def zero : Digit := ⟨0, by decide⟩

/-- The character of a digit. -/
def char (d : Digit) : Char := Char.ofNat (48 + d.val)

/-- The digit a character stands for. -/
def ofChar? (c : Char) : Option Digit :=
  if h : 48 ≤ c.toNat ∧ c.toNat < 58 then some ⟨c.toNat - 48, by omega⟩ else none

end Digit

namespace Decimal

/-- The digits of a number, most significant first, without leading zeros. -/
def digits (n : Nat) : List Digit :=
  if n < 10 then [Fin.ofNat 10 n] else digits (n / 10) ++ [Fin.ofNat 10 n]
  termination_by n
  decreasing_by omega

/-- The number that a list of digits denotes. -/
def value (ds : List Digit) : Nat := ds.foldl (fun n d => 10 * n + d.val) 0

/-- Splits a text into its longest run of digits and what follows it. -/
def span : List Char → List Digit × List Char
  | [] => ([], [])
  | c :: r =>
    match Digit.ofChar? c with
    | some d => (d :: (span r).1, (span r).2)
    | none => ([], c :: r)

end Decimal

/-- How the sign of an exponent is written. -/
inductive ExponentSign where
  | implicit
  | plus
  | minus
  deriving DecidableEq, Repr

/-- A number as it is written. -/
structure Numeral where
  isNegative : Bool
  whole : List Digit
  fraction : Option (List Digit)
  exponent : Option (ExponentSign × List Digit)
  deriving DecidableEq, Repr

namespace Numeral

/-- The numeral of a natural number. -/
def ofNat (n : Nat) : Numeral := ⟨false, Decimal.digits n, none, none⟩

/-- The numeral of an integer. -/
def ofInt (i : Int) : Numeral := ⟨decide (i < 0), Decimal.digits i.natAbs, none, none⟩

/-- The integer that a numeral denotes: it has neither fraction nor exponent,
and a negative zero is no integer. -/
def toInt? : Numeral → Option Int
  | ⟨false, ds, none, none⟩ => some (Decimal.value ds)
  | ⟨true, ds, none, none⟩ =>
    if Decimal.value ds = 0 then none else some (-(Decimal.value ds : Int))
  | _ => none

/-- The characters of a fraction. -/
def fractionChars : Option (List Digit) → List Char
  | none => []
  | some ds => '.' :: ds.map Digit.char

/-- The characters of an exponent. -/
def exponentChars : Option (ExponentSign × List Digit) → List Char
  | none => []
  | some (.implicit, ds) => 'e' :: ds.map Digit.char
  | some (.plus, ds) => 'e' :: '+' :: ds.map Digit.char
  | some (.minus, ds) => 'e' :: '-' :: ds.map Digit.char

/-- The characters of a numeral. -/
def chars (n : Numeral) : List Char :=
  (if n.isNegative then ['-'] else []) ++ n.whole.map Digit.char ++ fractionChars n.fraction
    ++ exponentChars n.exponent

/-- The text of a numeral. -/
def text (n : Numeral) : String := String.ofList n.chars

end Numeral

end MutantGate
