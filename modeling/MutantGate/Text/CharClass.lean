import MutantGate.Text.AlphabeticRanges
import MutantGate.Text.NumericRanges
/-!
# Classes of characters

Blanks, and letters and numbers of any script.  On ASCII the classes are the usual ones.
-/

namespace MutantGate.CharClass

/-- Is the character white space? -/
def isBlank (c : Char) : Bool :=
  let n := c.toNat
  decide (9 ≤ n ∧ n ≤ 13) || n == 0x20 || n == 0x85 || n == 0xA0 || n == 0x1680
    || decide (0x2000 ≤ n ∧ n ≤ 0x200A) || n == 0x2028 || n == 0x2029 || n == 0x202F
    || n == 0x205F || n == 0x3000

/-- Does a code point lie in one of the ranges? -/
def liesIn (n : Nat) (ranges : List (Nat × Nat)) : Bool :=
  ranges.any fun r => decide (r.1 ≤ n ∧ n ≤ r.2)

/-- Is the character a letter? -/
def isAlphabetic (c : Char) : Bool :=
  if c.toNat < 0x80 then c.isAlpha else liesIn c.toNat alphabeticRanges

/-- Is the character a number, or part of one? -/
def isNumeric (c : Char) : Bool :=
  if c.toNat < 0x80 then c.isDigit else liesIn c.toNat numericRanges

/-- Is the character a letter or a number? -/
def isAlphanumeric (c : Char) : Bool := isAlphabetic c || isNumeric c

end MutantGate.CharClass
