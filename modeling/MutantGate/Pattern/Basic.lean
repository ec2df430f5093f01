import MutantGate.Pattern.Obstacle
/-!
# Patterns

Regular expressions, as far as it matters whether a matcher can be built for them: how
often something is repeated, or which blank an escape stands for, is not kept.  A group
may set flags for what is inside of it, and flags may be set on their own for what is
behind them in the same group.  Every part knows the span of its text.

## What is left outside

What a pattern matches, and how large its matcher becomes.  A run asks no pattern for a match; it
only refuses directives with a pattern that cannot be matched.
-/

namespace MutantGate

namespace Pattern

/-- What can be turned on and off inside of a pattern. -/
inductive Flag where
  | ignoreCase
  | multiLine
  | dotMatchesAll
  | swapGreed
  | unicode
  | carriageReturn
  | verbose
  deriving DecidableEq, Repr

/-- A flag that is turned on or off. -/
structure FlagSetting where
  flag : Flag
  isOn : Bool
  deriving DecidableEq, Repr

/-- What settings say about a flag. -/
def setting? (settings : List FlagSetting) (flag : Flag) : Option Bool :=
  (settings.find? fun s => s.flag == flag).map FlagSetting.isOn

/-- A character that stands for itself. -/
structure Literal where
  span : Span
  char : Char
  /-- Is it written as the two hexadecimal digits of a byte? -/
  isByte : Bool
  deriving DecidableEq, Repr

/-- What stands in brackets. -/
inductive ClassItem where
  | nothing (span : Span)
  | literal (l : Literal)
  | range (span : Span) (first last : Literal)
  /-- A class with a name, such as `[:alpha:]`. -/
  | named (span : Span) (isNegated : Bool)
  /-- A class of one letter behind a backslash: digits, blanks or word characters. -/
  | shorthand (span : Span) (isNegated : Bool)
  /-- The characters with a Unicode property. -/
  | property (span : Span)
  | bracketed (span : Span) (isNegated : Bool) (item : ClassItem)
  | union (span : Span) (items : List ClassItem)
  /-- The characters that two items share, or that one of them has and the other has not. -/
  | operation (span : Span) (left right : ClassItem)

/-- The span of what stands in brackets. -/
def ClassItem.span : ClassItem → Span
  | .literal l => l.span
  | .nothing span | .range span _ _ | .named span _ | .shorthand span _ | .property span
  | .bracketed span _ _ | .union span _ | .operation span _ _ => span

/-- A pattern without parts. -/
inductive Atom where
  | literal (l : Literal)
  | anyChar (span : Span)
  /-- The start or the end of a line or of the text. -/
  | edge (span : Span)
  /-- The start or the end of a word, or neither of them. -/
  | wordEdge (span : Span)
  | shorthand (span : Span) (isNegated : Bool)
  | property (span : Span)
  | bracketed (span : Span) (isNegated : Bool) (item : ClassItem)

/-- The span of a pattern without parts. -/
def Atom.span : Atom → Span
  | .literal l => l.span
  | .anyChar span | .edge span | .wordEdge span | .shorthand span _ | .property span
  | .bracketed span _ _ => span

end Pattern

/-- A regular expression. -/
inductive Pattern where
  | empty (span : Pattern.Span)
  | atom (a : Pattern.Atom)
  | flags (span : Pattern.Span) (settings : List Pattern.FlagSetting)
  | repetition (span : Pattern.Span) (p : Pattern)
  | group (span : Pattern.Span) (settings : List Pattern.FlagSetting) (p : Pattern)
  | sequence (span : Pattern.Span) (parts : List Pattern)
  | choice (span : Pattern.Span) (branches : List Pattern)

namespace Pattern

/-- The span of a pattern. -/
def span : Pattern → Span
  | .atom a => a.span
  | .empty span | .flags span _ | .repetition span _ | .group span _ _ | .sequence span _
  | .choice span _ => span

/-! ## Nesting -/

/-- How deep parts may be nested. -/
def maxDepth : Nat := 250

mutual

/-- The first part, in brackets, around which the nesting is as deep as it may be. -/
def ClassItem.tooDeep? (depth : Nat) : ClassItem → Option Span
  | .bracketed span _ item =>
    if maxDepth ≤ depth then some span else item.tooDeep? (depth + 1)
  | .union span items => if maxDepth ≤ depth then some span else anyTooDeep? (depth + 1) items
  | .operation span left right =>
    if maxDepth ≤ depth then some span
    else (left.tooDeep? (depth + 1)).or (right.tooDeep? (depth + 1))
  | _ => none

/-- The first such part in some items. -/
def anyTooDeep? (depth : Nat) : List ClassItem → Option Span
  | [] => none
  | item :: items => (item.tooDeep? depth).or (anyTooDeep? depth items)

end

mutual

/-- The first part with parts of its own around which the nesting is as deep as it may
be. -/
def tooDeep? (depth : Nat) : Pattern → Option Span
  | .empty _ | .flags _ _ => none
  | .atom (.bracketed span _ item) =>
    if maxDepth ≤ depth then some span else item.tooDeep? (depth + 1)
  | .atom _ => none
  | .repetition span p | .group span _ p =>
    if maxDepth ≤ depth then some span else p.tooDeep? (depth + 1)
  | .sequence span ps | .choice span ps =>
    if maxDepth ≤ depth then some span else anyPartTooDeep? (depth + 1) ps

/-- The first such part in some patterns. -/
def anyPartTooDeep? (depth : Nat) : List Pattern → Option Span
  | [] => none
  | p :: ps => (p.tooDeep? depth).or (anyPartTooDeep? depth ps)

end

end Pattern

end MutantGate
