/-!
# Places in a text

A position is a line and a column, both counted from one; a span is what lies between
two positions.  A cursor is a position with the text behind it.
-/

namespace MutantGate.Pattern

/-- A line and a column. -/
structure Position where
  line : Nat
  column : Nat
  deriving DecidableEq, Repr

/-- The position behind a character. -/
def Position.behind (p : Position) (c : Char) : Position :=
  if c == '\n' then ⟨p.line + 1, 1⟩ else { p with column := p.column + 1 }

/-- What lies between two positions. -/
structure Span where
  first : Position
  last : Position
  deriving DecidableEq, Repr

/-- Does a span begin and end in one line? -/
def Span.isInLine (s : Span) : Bool := s.first.line == s.last.line

/-- A position with the text behind it. -/
structure Cursor where
  position : Position
  rest : List Char
  deriving DecidableEq, Repr

namespace Cursor

/-- At the start of a text. -/
def start (cs : List Char) : Cursor := ⟨⟨1, 1⟩, cs⟩

/-- Is there no text left? -/
def atEnd (k : Cursor) : Bool := k.rest.isEmpty

/-- The next character. -/
def next? (k : Cursor) : Option Char := k.rest.head?

/-- Behind the next character. -/
def advance (k : Cursor) : Cursor :=
  match k.rest with
  | [] => k
  | c :: r => ⟨k.position.behind c, r⟩

/-- Behind some characters. -/
def advanceBy : Nat → Cursor → Cursor
  | 0, k => k
  | n + 1, k => advanceBy n k.advance

/-- The end of the text. -/
def finish (k : Cursor) : Cursor := advanceBy k.rest.length k

/-- The empty span at a cursor. -/
def here (k : Cursor) : Span := ⟨k.position, k.position⟩

/-- The span of the next character. -/
def nextSpan (k : Cursor) : Span := ⟨k.position, k.advance.position⟩

/-- The span from a position up to a cursor. -/
def spanFrom (k : Cursor) (first : Position) : Span := ⟨first, k.position⟩

end Cursor

end MutantGate.Pattern
