import MutantGate.Pattern.Basic
import MutantGate.Pattern.Skipping
import MutantGate.Text.Hexadecimal
/-!
# Escapes in patterns

A backslash gives a meaning to the letter behind it or takes one from the sign behind
it.  The texts that are read here stand in braces and end at the first closing one: an
opening brace never finds its partner, so that every form with braces is at fault.
-/

namespace MutantGate.Pattern

/-! ## Code points -/

/-- The number that some hexadecimal digits denote, behind a number already read. -/
def hexNumber (verbose : Bool) : (count before : Nat) → Cursor → Except Fault (Nat × Cursor)
  | 0, n, k => .ok (n, k)
  | count + 1, n, k =>
    match k.next? with
    | none => .error ⟨.unfinishedEscape, k.here⟩
    | some c =>
      match Hexadecimal.digit? c with
      | none => .error ⟨.hexDigit, k.nextSpan⟩
      | some d => hexNumber verbose count (16 * n + d) (k.step verbose)

/-- The fault of a code point in braces. -/
def bracedHexFault (verbose : Bool) (k : Cursor) : Fault :=
  let (_, rest) := (k.step verbose).takeWhile verbose fun c => (Hexadecimal.digit? c).isSome
  if rest.atEnd then ⟨.unfinishedEscape, rest.spanFrom k.position⟩
  else ⟨.hexDigit, rest.nextSpan⟩

/-- A character by its code point, behind the letter that says how many digits there
are; the escape starts at a given position. -/
def hexChar (verbose : Bool) (first : Position) (count : Nat) (k : Cursor) :
    Except Fault (Atom × Cursor) :=
  if k.next? == some '\x7b' then .error (bracedHexFault verbose k)
  else
    match hexNumber verbose count 0 k with
    | .error fault => .error fault
    | .ok (n, rest) =>
      if n.isValidChar then
        .ok (.literal ⟨rest.spanFrom first, Char.ofNat n, count == 2⟩, rest)
      else .error ⟨.hexChar, rest.spanFrom k.position⟩

/-! ## Properties and edges -/

/-- A property of one letter, behind the letter of the escape. -/
def property (verbose : Bool) (first : Position) (k : Cursor) : Except Fault (Atom × Cursor) :=
  match k.next? with
  | none => .error ⟨.unfinishedEscape, k.here⟩
  | some '\x7b' => .error ⟨.unfinishedEscape, k.finish.here⟩
  | some '\\' => .error ⟨.propertyName, k.nextSpan⟩
  | some _ => .ok (.property ((k.step verbose).spanFrom first), k.step verbose)

/-- Can the character be part of the name of an edge of words? -/
def isWordEdgeChar (c : Char) : Bool := c.isAlpha || c == '-'

/-- The fault of an edge of words with a brace behind it, unless the brace can start a
count. -/
def bracedWordEdgeFault? (verbose : Bool) (first : Position) (k : Cursor) : Option Fault :=
  let inside := k.step verbose
  match inside.next? with
  | none => some ⟨.wordEdgeOrCount, inside.spanFrom first⟩
  | some c =>
    if isWordEdgeChar c then
      let (_, rest) := inside.takeWhile verbose isWordEdgeChar
      some ⟨.unclosedWordEdge, rest.spanFrom k.position⟩
    else none

/-! ## Escapes -/

/-- The character that a letter behind a backslash stands for. -/
def controlChar? : Char → Option Char
  | 'a' => some '\x07'
  | 'f' => some '\x0c'
  | 'n' => some '\n'
  | 'r' => some '\r'
  | 't' => some '\t'
  | 'v' => some '\x0b'
  | _ => none

/-- What a character behind a backslash stands for if nothing else belongs to it.
Anything in ASCII that is no letter, no digit and no angle bracket stands for itself. -/
def simpleEscape? (span : Span) (c : Char) : Option Atom :=
  if ['d', 's', 'w'].contains c then some (.shorthand span false)
  else if ['D', 'S', 'W'].contains c then some (.shorthand span true)
  else if ['b', 'B', '<', '>'].contains c then some (.wordEdge span)
  else if ['A', 'z'].contains c then some (.edge span)
  else
    match controlChar? c with
    | some control => some (.literal ⟨span, control, false⟩)
    | none =>
      if c.toNat < 0x80 && !c.isAlphanum then some (.literal ⟨span, c, false⟩) else none

/-- Reads an escape, from its backslash on. -/
def escape (verbose : Bool) (k : Cursor) : Except Fault (Atom × Cursor) :=
  let letter := k.advance
  let rest := letter.advance
  let span := rest.spanFrom k.position
  match letter.next? with
  | none => .error ⟨.unfinishedEscape, letter.spanFrom k.position⟩
  | some 'x' => hexChar verbose k.position 2 (letter.step verbose)
  | some 'u' => hexChar verbose k.position 4 (letter.step verbose)
  | some 'U' => hexChar verbose k.position 8 (letter.step verbose)
  | some 'p' | some 'P' => property verbose k.position (letter.step verbose)
  | some c =>
    if c.isDigit then .error ⟨.backreference, span⟩
    else
      match simpleEscape? span c with
      | none => .error ⟨.unknownEscape, span⟩
      | some a =>
        if c == 'b' && rest.next? == some '\x7b' then
          match bracedWordEdgeFault? verbose k.position rest with
          | some fault => .error fault
          | none => .ok (a, rest)
        else .ok (a, rest)

end MutantGate.Pattern
