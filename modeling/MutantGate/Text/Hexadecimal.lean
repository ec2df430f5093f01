/-!
# Hexadecimal digits
-/

namespace MutantGate.Hexadecimal

/-- The value of a hexadecimal digit, in either letter case. -/
def digit? (c : Char) : Option Nat :=
  let n := c.toNat
  if 48 ≤ n ∧ n < 58 then some (n - 48)
  else if 65 ≤ n ∧ n < 71 then some (n - 55)
  else if 97 ≤ n ∧ n < 103 then some (n - 87)
  else none

end MutantGate.Hexadecimal
