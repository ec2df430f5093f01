import MutantGate.Pattern.Span
/-!
# What is wrong with a pattern

An obstacle is a rule that a pattern breaks, and a fault is an obstacle with the span
where it stands.  The faults of the text itself are found first, then the nesting is
looked at, and then whether everything in the pattern can be matched.
-/

namespace MutantGate.Pattern

/-- A rule that a pattern breaks. -/
inductive Obstacle where
  | classEscape
  | rangeOrder
  | rangeBound
  | unclosedClass
  | decimal
  | hexChar
  | hexDigit
  | unfinishedEscape
  | unknownEscape
  | danglingNegation
  | repeatedFlag (earlier : Span)
  | repeatedNegation (earlier : Span)
  | unfinishedFlags
  | unknownFlag
  | repeatedName (earlier : Span)
  | emptyName
  | nameCharacter
  | unclosedName
  | unclosedGroup
  | unopenedGroup
  | nesting (limit : Nat)
  | emptyCount
  | unclosedCount
  | nothingToRepeat
  | unclosedWordEdge
  | wordEdgeOrCount
  | propertyName
  | backreference
  | lookAround
  | beyondAscii
  | noText
  | unknownProperty
  | unknownShorthand
  | letterCase
  deriving DecidableEq, Repr

/-- The words for an obstacle. -/
def Obstacle.message : Obstacle → String
  | .classEscape => "invalid escape sequence found in character class"
  | .rangeOrder => "invalid character class range, the start must be <= the end"
  | .rangeBound => "invalid range boundary, must be a literal"
  | .unclosedClass => "unclosed character class"
  | .decimal => "decimal literal invalid"
  | .hexChar => "hexadecimal literal is not a Unicode scalar value"
  | .hexDigit => "invalid hexadecimal digit"
  | .unfinishedEscape => "incomplete escape sequence, reached end of pattern prematurely"
  | .unknownEscape => "unrecognized escape sequence"
  | .danglingNegation => "dangling flag negation operator"
  | .repeatedFlag _ => "duplicate flag"
  | .repeatedNegation _ => "flag negation operator repeated"
  | .unfinishedFlags => "expected flag but got end of regex"
  | .unknownFlag => "unrecognized flag"
  | .repeatedName _ => "duplicate capture group name"
  | .emptyName => "empty capture group name"
  | .nameCharacter => "invalid capture group character"
  | .unclosedName => "unclosed capture group name"
  | .unclosedGroup => "unclosed group"
  | .unopenedGroup => "unopened group"
  | .nesting limit => s!"exceed the maximum number of nested parentheses/brackets ({limit})"
  | .emptyCount => "repetition quantifier expects a valid decimal"
  | .unclosedCount => "unclosed counted repetition"
  | .nothingToRepeat => "repetition operator missing expression"
  | .unclosedWordEdge =>
    "special word boundary assertion is either unclosed or contains an invalid character"
  | .wordEdgeOrCount =>
    "found either the beginning of a special word boundary or a bounded repetition on a \\b "
      ++ "with an opening brace, but no closing brace"
  | .propertyName => "invalid Unicode character class"
  | .backreference => "backreferences are not supported"
  | .lookAround => "look-around, including look-ahead and look-behind, is not supported"
  | .beyondAscii => "Unicode not allowed here"
  | .noText => "pattern can match invalid UTF-8"
  | .unknownProperty => "Unicode property not found"
  | .unknownShorthand =>
    "Unicode-aware Perl class not found (make sure the unicode-perl feature is enabled)"
  | .letterCase =>
    "Unicode-aware case insensitivity matching is not available "
      ++ "(make sure the unicode-case feature is enabled)"

/-- The span of what came before and is not allowed twice. -/
def Obstacle.earlier? : Obstacle → Option Span
  | .repeatedFlag earlier | .repeatedNegation earlier | .repeatedName earlier => some earlier
  | _ => none

/-- An obstacle and where it stands. -/
structure Fault where
  obstacle : Obstacle
  span : Span
  deriving DecidableEq, Repr

end MutantGate.Pattern
