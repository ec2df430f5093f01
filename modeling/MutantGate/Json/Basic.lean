import MutantGate.Text.Decimal
/-!
# JSON values

A JSON value keeps its numbers as numerals, so that each reader of a number can
apply its own rule, and keeps the members of an object in their order, repetitions
included.  An escape may write half of a surrogate pair, which no text contains; a
string with such an escape is a JSON string without a text.
-/

namespace MutantGate

/-- A JSON value. -/
inductive Json where
  | null
  | bool (b : Bool)
  | num (n : Numeral)
  | str (text : Option String)
  | arr (items : List Json)
  | obj (members : List (Option String × Json))

namespace Json

/-- The string with a given text. -/
def text (s : String) : Json := .str (some s)

/-- An object from its names and values. -/
def object (members : List (String × Json)) : Json :=
  .obj (members.map fun m => (some m.1, m.2))

/-- A whole number. -/
def ofNat (n : Nat) : Json := .num (Numeral.ofNat n)

/-- An integer. -/
def ofInt (i : Int) : Json := .num (Numeral.ofInt i)

/-- A value that may be missing; null stands for none. -/
def ofOption {α : Type} (write : α → Json) : Option α → Json
  | none => .null
  | some a => write a

end Json

end MutantGate
