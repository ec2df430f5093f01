import MutantGate.Json.Token
/-!
# From tokens to a value

The grammar of arrays and objects, as a machine that takes one token at a time.
What it has to remember is where it is and, for every array or object it is
inside of, the parts that are complete; nesting may therefore be as deep as the
text is long.
-/

namespace MutantGate.Json

/-- An array or object whose next part is being read; the complete parts stand in
reverse order. -/
inductive Frame where
  | item (before : List Json)
  | member (before : List (Option String × Json)) (name : Option String)

/-- What has to come next. -/
inductive Expecting where
  /-- A value. -/
  | value (outer : List Frame)
  /-- The first item of an array, or its end. -/
  | firstItem (outer : List Frame)
  /-- The first name of an object, or its end. -/
  | firstName (outer : List Frame)
  /-- The name of a further member. -/
  | name (before : List (Option String × Json)) (outer : List Frame)
  /-- The colon behind a name. -/
  | colon (before : List (Option String × Json)) (name : Option String) (outer : List Frame)
  /-- Whatever may follow a complete value. -/
  | following (v : Json) (outer : List Frame)

/-- A token that starts a value. -/
def begin? (t : Token) (outer : List Frame) : Option Expecting :=
  match t with
  | .null => some (.following .null outer)
  | .bool b => some (.following (.bool b) outer)
  | .num n => some (.following (.num n) outer)
  | .str s => some (.following (.str s) outer)
  | .openArray => some (.firstItem outer)
  | .openObject => some (.firstName outer)
  | _ => none

/-- One token. -/
def step? : Expecting → Token → Option Expecting
  | .value outer, t => begin? t outer
  | .firstItem outer, .closeArray => some (.following (.arr []) outer)
  | .firstItem outer, t => begin? t (.item [] :: outer)
  | .firstName outer, .closeObject => some (.following (.obj []) outer)
  | .firstName outer, .str s => some (.colon [] s outer)
  | .name before outer, .str s => some (.colon before s outer)
  | .colon before s outer, .colon => some (.value (.member before s :: outer))
  | .following v (.item before :: outer), .comma => some (.value (.item (v :: before) :: outer))
  | .following v (.item before :: outer), .closeArray =>
    some (.following (.arr (v :: before).reverse) outer)
  | .following v (.member before s :: outer), .comma => some (.name ((s, v) :: before) outer)
  | .following v (.member before s :: outer), .closeObject =>
    some (.following (.obj ((s, v) :: before).reverse) outer)
  | _, _ => none

/-- The value that a list of tokens forms. -/
def ofTokens? (ts : List Token) : Option Json :=
  match ts.foldlM step? (.value []) with
  | some (.following v []) => some v
  | _ => none

/-- The value of a JSON text. -/
def parse? (text : String) : Option Json := (tokens? text).bind ofTokens?

end MutantGate.Json
