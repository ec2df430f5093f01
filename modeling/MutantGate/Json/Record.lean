import MutantGate.Json.Basic
/-!
# Typed readings of JSON

A reading takes a JSON value to a value of the domain or refuses it.  A record may
be written as an object, where unknown names are skipped and a known one may stand
only once, or as an array of its fields in the order of declaration.  A choice
without content is its name or an object with its name and null; a choice with
content is an object with exactly one member.
-/

namespace MutantGate.Json

/-- A text. -/
def text? : Json → Option String
  | .str s => s
  | _ => none

/-- A truth value. -/
def bool? : Json → Option Bool
  | .bool b => some b
  | _ => none

/-- An integer from `low` to below `limit`. -/
def intIn? (low limit : Int) : Json → Option Int
  | .num n => n.toInt?.filter fun i => decide (low ≤ i) && decide (i < limit)
  | _ => none

/-- A natural number below a limit. -/
def natBelow? (limit : Nat) (v : Json) : Option Nat := (intIn? 0 limit v).map Int.toNat

/-- An array of readable items. -/
def list? {α : Type} (item? : Json → Option α) : Json → Option (List α)
  | .arr vs => vs.mapM item?
  | _ => none

/-- Null or a readable value. -/
def optional? {α : Type} (content? : Json → Option α) : Json → Option (Option α)
  | .null => some none
  | v => (content? v).map some

/-- The name of a choice without content. -/
def choice? : Json → Option String
  | .str s => s
  | .obj [(s, .null)] => s
  | _ => none

/-- The name and content of a choice with content. -/
def tagged? : Json → Option (String × Json)
  | .obj [(some s, v)] => some (s, v)
  | _ => none

/-! ## Records -/

/-- The fields of a record in the order of declaration, with nothing where one is
not given, and whether they were given by position. -/
structure Record where
  isPositional : Bool
  fields : List (Option Json)

/-- The value of a member that may be given once; a second one is refused. -/
def member? (members : List (Option String × Json)) (name : String) : Option (Option Json) :=
  match members.filter fun m => m.1 == some name with
  | [] => some none
  | [m] => some (some m.2)
  | _ => none

/-- The record with the given field names. -/
def record? (names : List String) : Json → Option Record
  | .arr vs =>
    if vs.length ≤ names.length then
      some ⟨true, vs.map some ++ List.replicate (names.length - vs.length) none⟩
    else none
  | .obj members =>
    if members.all fun m => m.1.isSome then (names.mapM (member? members)).map (Record.mk false)
    else none
  | _ => none

/-- A field that has to be given. -/
def required? {α : Type} (content? : Json → Option α) (field : Option Json) : Option α :=
  field.bind content?

/-- A field that has a value of its own when it is not given. -/
def defaulted? {α : Type} (content? : Json → Option α) (default : α) :
    Option Json → Option α
  | none => some default
  | some v => content? v

end MutantGate.Json
