import MutantGate.Json.Basic
/-!
# Writing JSON

Values are written with one part to a line, each nesting level two blanks further
in; an empty array or object stays on its line.  In strings the quote, the backslash
and the control characters are escaped, with a letter where there is one; all other
characters stand for themselves.
-/

namespace MutantGate.Json

/-- A hexadecimal digit, in lower case. -/
def hexChar (n : Nat) : Char := if n < 10 then Char.ofNat (48 + n) else Char.ofNat (87 + n)

/-- A character inside quotes. -/
def escaped (c : Char) : List Char :=
  match c with
  | '"' => ['\\', '"']
  | '\\' => ['\\', '\\']
  | '\x08' => ['\\', 'b']
  | '\x0c' => ['\\', 'f']
  | '\n' => ['\\', 'n']
  | '\r' => ['\\', 'r']
  | '\t' => ['\\', 't']
  | c =>
    if c.toNat < 0x20 then
      ['\\', 'u', '0', '0', hexChar (c.toNat / 16), hexChar (c.toNat % 16)]
    else [c]

/-- A text inside quotes. -/
def quoted (s : String) : List Char := '"' :: s.toList.flatMap escaped ++ ['"']

/-- A line break and the blanks at the start of the next line. -/
def lineBreak (depth : Nat) : List Char := '\n' :: List.replicate (2 * depth) ' '

mutual

/-- The characters of a value that starts at a nesting depth. -/
def chars (depth : Nat) : Json → List Char
  | .null => "null".toList
  | .bool true => "true".toList
  | .bool false => "false".toList
  | .num n => n.chars
  | .str s => quoted (s.getD "")
  | .arr [] => ['[', ']']
  | .arr (v :: vs) =>
    '[' :: lineBreak (depth + 1) ++ chars (depth + 1) v ++ itemChars (depth + 1) vs
      ++ lineBreak depth ++ [']']
  | .obj [] => ['\x7b', '\x7d']
  | .obj ((s, v) :: ms) =>
    '\x7b' :: lineBreak (depth + 1) ++ quoted (s.getD "") ++ [':', ' '] ++ chars (depth + 1) v
      ++ memberChars (depth + 1) ms ++ lineBreak depth ++ ['\x7d']

/-- The further items of an array. -/
def itemChars (depth : Nat) : List Json → List Char
  | [] => []
  | v :: vs => ',' :: lineBreak depth ++ chars depth v ++ itemChars depth vs

/-- The further members of an object. -/
def memberChars (depth : Nat) : List (Option String × Json) → List Char
  | [] => []
  | (s, v) :: ms =>
    ',' :: lineBreak depth ++ quoted (s.getD "") ++ [':', ' '] ++ chars depth v
      ++ memberChars depth ms

end

/-- The text of a value. -/
def render (v : Json) : String := String.ofList (chars 0 v)

end MutantGate.Json
