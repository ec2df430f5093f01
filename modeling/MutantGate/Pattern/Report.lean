import MutantGate.Pattern.Obstacle
import MutantGate.Text.Decimal
/-!
# Reports of faults

A report shows the text of a pattern with marks under the spans of a fault, and then
says what is wrong.  If the text has more than one line, its lines are numbered and stand
between two dividers, and a span that goes on over a line's end is described in words.
-/

namespace MutantGate.Pattern

/-- A line without the carriage return at its end. -/
def withoutReturn (line : List Char) : List Char :=
  if line.getLast? == some '\r' then line.dropLast else line

/-- The lines of a text.  A carriage return belongs to the end of a line, and behind the
last end of a line another line starts only if there is something in it. -/
def linesOf (cs : List Char) : List (List Char) :=
  let pieces := cs.splitOn '\n'
  pieces.dropLast.map withoutReturn ++ (pieces.getLast?.filter fun line => line != []).toList

/-- How wide the numbers of lines are; a single line has none. -/
def numberWidth (cs : List Char) : Nat :=
  let count := (cs.splitOn '\n').length
  if count ≤ 1 then 0 else (Decimal.digits count).length

/-- What stands in front of a line: its number or, if lines have none, a gap. -/
def lead (width number : Nat) : String :=
  if width == 0 then "    "
  else
    let digits := toString number
    String.ofList (List.replicate (width - digits.length) ' ') ++ digits ++ ": "

/-- Marks under spans of one line, behind some columns that have been written. -/
def marks (written : Nat) : List Span → List Char
  | [] => []
  | s :: spans =>
    let gap := s.first.column - 1 - written
    let width := max 1 (s.last.column - s.first.column)
    List.replicate gap ' ' ++ List.replicate width '^' ++ marks (written + gap + width) spans

/-- A line, with marks in a line of their own if there are spans in it. -/
def notedLine (width : Nat) (spans : List Span) (number : Nat) (line : List Char) : String :=
  let text := lead width number ++ String.ofList line ++ "\n"
  match spans.filter fun s => s.isInLine && s.first.line == number with
  | [] => text
  | spans =>
    let gap := String.ofList (List.replicate (if width == 0 then 4 else width + 2) ' ')
    text ++ gap ++ String.ofList (marks 0 spans) ++ "\n"

/-- All lines with their marks. -/
def notedLines (cs : List Char) (spans : List Span) : String :=
  let lines := (linesOf cs).zipIdx 1
  String.join (lines.map fun l => notedLine (numberWidth cs) spans l.2 l.1)

/-- A span over several lines in words. -/
def spanText (s : Span) : String :=
  "on line " ++ toString s.first.line ++ " (column " ++ toString s.first.column
    ++ ") through line " ++ toString s.last.line ++ " (column " ++ toString (s.last.column - 1)
    ++ ")\n"

/-- What separates the lines of a text from the words around them. -/
def divider : String := String.ofList (List.replicate 79 '~') ++ "\n"

/-- The spans of a fault, in the order of the text. -/
def Fault.spans (f : Fault) : List Span := f.obstacle.earlier?.toList ++ [f.span]

/-- The report of a fault in a text. -/
def Fault.report (f : Fault) (cs : List Char) : String :=
  let noted := notedLines cs f.spans
  let shown :=
    if cs.contains '\n' then
      let far := f.spans.filter fun s => !s.isInLine
      divider ++ noted ++ divider ++ String.join (far.map spanText)
    else noted
  "regex parse error:\n" ++ shown ++ "error: " ++ f.obstacle.message

end MutantGate.Pattern
