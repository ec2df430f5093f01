import MutantGate.Pattern.Brackets
import MutantGate.Pattern.Opening
/-!
# From a text to a pattern

Patterns are read from left to right, by a machine that takes one piece at a time and
remembers the groups that are open around it.
-/

namespace MutantGate.Pattern

/-- Parts one behind the other, given last first. -/
def ofReversed (span : Span) : List Pattern → Pattern
  | [] => .empty span
  | [p] => p
  | ps => .sequence span ps.reverse

/-- A group that is open: where its content starts, where the last branch starts, the
parts of that branch and the branches before it, each last first. -/
structure OpenGroup where
  first : Position
  branchFirst : Position
  parts : List Pattern
  branches : List Pattern
  verbose : Bool

namespace OpenGroup

/-- Nothing has been read in a group. -/
def start (position : Position) (verbose : Bool) : OpenGroup :=
  ⟨position, position, [], [], verbose⟩

/-- With one more part. -/
def push (g : OpenGroup) (p : Pattern) : OpenGroup := { g with parts := p :: g.parts }

/-- The last branch, which ends at a cursor. -/
def branch (g : OpenGroup) (k : Cursor) : Pattern := ofReversed (k.spanFrom g.branchFirst) g.parts

/-- The content of a group, which ends at a cursor. -/
def whole (g : OpenGroup) (k : Cursor) : Pattern :=
  if g.branches.isEmpty then g.branch k
  else .choice (k.spanFrom g.first) (g.branch k :: g.branches).reverse

/-- At the start of a new branch, whose sign stands at a cursor. -/
def branched (g : OpenGroup) (k : Cursor) : OpenGroup :=
  { g with
    branchFirst := k.advance.position
    parts := []
    branches := g.branch k :: g.branches }

end OpenGroup

/-- What has been read: the innermost group, the groups around it with their
parentheses and their settings, and the names of groups. -/
structure State where
  group : OpenGroup
  outer : List (Span × List FlagSetting × OpenGroup)
  names : List (String × Span)

namespace State

/-- Before anything has been read. -/
def start (k : Cursor) : State := ⟨.start k.position false, [], []⟩

/-- With one more part. -/
def push (s : State) (p : Pattern) : State := { s with group := s.group.push p }

/-- In a group that has just been opened. -/
def enter (s : State) (parenthesis : Span) (settings : List FlagSetting) (content : Cursor) :
    State :=
  let verbose := (setting? settings .verbose).getD s.group.verbose
  { s with
    group := .start content.position verbose
    outer := (parenthesis, settings, s.group) :: s.outer }

/-- Behind the start of a group or flags on their own; no two groups may have one
name. -/
def opened (s : State) (parenthesis : Span) (content : Cursor) : Opening → Except Fault State
  | .flags settings =>
    let verbose := (setting? settings .verbose).getD s.group.verbose
    let flags := .flags (content.spanFrom parenthesis.first) settings
    .ok { s with group := { s.group.push flags with verbose := verbose } }
  | .group settings => .ok (s.enter parenthesis settings content)
  | .named name span =>
    match s.names.lookup name with
    | some earlier => .error ⟨.repeatedName earlier, span⟩
    | none =>
      .ok { s.enter parenthesis [] content with names := (name, span) :: s.names }

/-- Behind the closing parenthesis at a cursor; a group has to be open. -/
def closed (s : State) (k : Cursor) : Except Fault State :=
  match s.outer with
  | [] => .error ⟨.unopenedGroup, k.nextSpan⟩
  | (parenthesis, settings, around) :: outer =>
    let p := .group (k.advance.spanFrom parenthesis.first) settings (s.group.whole k)
    .ok { s with group := around.push p, outer := outer }

/-- The last part if it can be repeated, and the parts before it; the sign of the
repetition stands at a cursor. -/
def repeatable (s : State) (k : Cursor) : Except Fault (Pattern × List Pattern) :=
  match s.group.parts with
  | [] | .empty _ :: _ | .flags _ _ :: _ => .error ⟨.nothingToRepeat, k.here⟩
  | p :: parts => .ok (p, parts)

/-- Behind a sign of repetition, which may have a question mark behind it. -/
def repeated (s : State) (k : Cursor) : Except Fault (State × Cursor) := do
  let (p, parts) ← s.repeatable k
  let rest := if k.advance.next? == some '?' then k.advanceBy 2 else k.advance
  let p := Pattern.repetition (rest.spanFrom p.span.first) p
  return ({ s with group := { s.group with parts := p :: parts } }, rest)

/-- The content of the whole text, which ends at a cursor; no group may be open. -/
def whole (s : State) (k : Cursor) : Except Fault Pattern :=
  match s.outer with
  | [] => .ok (s.group.whole k)
  | (parenthesis, _) :: _ => .error ⟨.unclosedGroup, parenthesis⟩

end State

/-! ## Counts -/

/-- The greatest number a count may have. -/
def maxCount : Nat := 4294967295

/-- The number that digits denote. -/
def number (cs : List Char) : Nat := cs.foldl (fun n c => 10 * n + (c.toNat - 48)) 0

/-- The fault of a count, from its brace on: there is no closing one. -/
def countFault (verbose : Bool) (k : Cursor) : Fault :=
  let inside := k.step verbose
  let (_, start) := inside.takeWhile false CharClass.isBlank
  let (digits, finish) := start.takeWhile verbose Char.isDigit
  let (_, rest) := finish.takeWhile verbose CharClass.isBlank
  if rest.atEnd then ⟨.unclosedCount, rest.spanFrom k.position⟩
  else if digits.isEmpty then ⟨.emptyCount, finish.spanFrom start.position⟩
  else if maxCount < number (digits.map Prod.snd) then ⟨.decimal, finish.spanFrom start.position⟩
  else ⟨.unclosedCount, rest.spanFrom k.position⟩

/-! ## Patterns -/

/-- One piece, which starts with a given character. -/
def step (s : State) (k : Cursor) (c : Char) : Except Fault (State × Cursor) := do
  let verbose := s.group.verbose
  match c with
  | '(' =>
    let (o, rest) ← opening verbose k
    return (← s.opened k.nextSpan rest o, rest)
  | ')' => return (← s.closed k, k.advance)
  | '|' => return ({ s with group := s.group.branched k }, k.advance)
  | '?' | '*' | '+' => s.repeated k
  | '\x7b' =>
    let _ ← s.repeatable k
    throw (countFault verbose k)
  | '[' =>
    let (a, rest) ← brackets verbose k
    return (s.push (.atom a), rest)
  | '\\' =>
    let (a, rest) ← escape verbose k
    return (s.push (.atom a), rest)
  | '.' => return (s.push (.atom (.anyChar k.nextSpan)), k.advance)
  | '^' | '$' => return (s.push (.atom (.edge k.nextSpan)), k.advance)
  | c => return (s.push (.atom (.literal ⟨k.nextSpan, c, false⟩)), k.advance)

/-- Reads to the end.  Each piece takes at least one character, and reading ends where
one would not. -/
def readFrom (s : State) (k : Cursor) : Except Fault Pattern :=
  let piece := k.skip s.group.verbose
  match piece.next? with
  | none => s.whole piece
  | some c =>
    match step s piece c with
    | .error fault => .error fault
    | .ok (s, rest) =>
      if _ : rest.rest.length < k.rest.length then readFrom s rest else s.whole rest
termination_by k.rest.length

/-- The pattern that a text is. -/
def read (cs : List Char) : Except Fault Pattern := readFrom (.start (.start cs)) (.start cs)

end MutantGate.Pattern
