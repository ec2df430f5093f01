import MutantGate.Pattern.Matcher
import MutantGate.Text.Decimal
/-!
# Log directives

Directives, separated by commas, say which log lines are written; empty ones count for
nothing.  A directive has one of the forms

    target           [span]           target[span]
    target=level     [span]=level     target[span]=level

where a level on its own has the form of a target, a level may be missing behind its
equals sign, and a span may end with a field in braces.  A field has a name, and behind
an equals sign it may have a value: a number or a pattern.

Blanks around a directive are skipped.  The parts of a directive are cut out of its
text by position, and positions count from the first character that is no blank, while
the text still has its blanks: blanks in front shift the parts.  Positions count bytes,
so one may fall into the middle of a character, and no part can be cut there.

## What is left outside

Which lines are written under directives that are in order.  Nothing else of a run depends on them.
-/

namespace MutantGate

/-- Why directives are refused. -/
inductive DirectiveFault where
  /-- A directive has none of the forms. -/
  | malformed
  /-- There is no such level. -/
  | noSuchLevel
  /-- There is no matcher for the value of a field. -/
  | fieldValue (cause : PatternFault)
  deriving DecidableEq, Repr

/-- What is said about a level that is none. -/
def levelText : String :=
  "error parsing level filter: expected one of \"off\", \"error\", \"warn\", \"info\", "
    ++ "\"debug\", \"trace\", or a number 0-5"

/-- The words for refused directives.  What is said about a level or a value is given
twice, in the fault and as its cause. -/
def DirectiveFault.message : DirectiveFault → String
  | .malformed => "invalid filter directive"
  | .noSuchLevel => s!"{levelText}: {levelText}"
  | .fieldValue cause =>
    ": ".intercalate (s!"invalid field filter: {cause.message}" :: cause.message :: cause.causes)

/-- How looking at directives can end early. -/
inductive DirectiveFailure where
  | refused (cause : DirectiveFault)
  /-- A part would begin or end in the middle of a character. -/
  | splitCharacter
  deriving DecidableEq, Repr

namespace LogDirectives

/-! ## Levels -/

/-- The words for levels, from the least to the greatest. -/
def levels : List String := ["off", "error", "warn", "info", "debug", "trace"]

/-- A number without its plus sign. -/
def withoutPlus (cs : List Char) : List Char :=
  match cs with
  | '+' :: r => r
  | _ => cs

/-- Is this the number of a level?  Zeros in front do not matter. -/
def isLevelNumber (cs : List Char) : Bool :=
  let ds := withoutPlus cs
  !ds.isEmpty && ds.dropLast.all (fun c => c == '0') && ds.all Char.isDigit
    && ds.getLast?.any fun c => c.toNat - 48 < levels.length

/-- Is this a level, by its word in any letter case or by its number? -/
def isLevel (cs : List Char) : Bool :=
  levels.contains (String.ofList (cs.map Char.toLower)) || isLevelNumber cs

/-! ## Values of fields -/

/-- Without the sign in front. -/
def withoutSign (cs : List Char) : List Char :=
  match cs with
  | '+' :: r | '-' :: r => r
  | _ => cs

/-- Is this nothing, or a power of ten behind its mark? -/
def isExponent : List Char → Bool
  | [] => true
  | c :: r =>
    let ds := withoutSign r
    (c == 'e' || c == 'E') && !ds.isEmpty && ds.all Char.isDigit

/-- Is this a decimal number without a sign?  The digits on one side of its point may
be missing. -/
def isDecimal (cs : List Char) : Bool :=
  match Decimal.span cs with
  | (whole, '.' :: r) =>
    let (fraction, rest) := Decimal.span r
    !(whole.isEmpty && fraction.isEmpty) && isExponent rest
  | (whole, rest) => !whole.isEmpty && isExponent rest

/-- Is this a number, which may be infinite or none at all? -/
def isNumber (cs : List Char) : Bool :=
  let unsigned := withoutSign cs
  isDecimal unsigned
    || ["inf", "infinity", "nan"].contains (String.ofList (unsigned.map Char.toLower))

/-- Refuses a field of which the value is neither a number nor a pattern with a matcher.
A second equals sign ends the value. -/
def checkField (cs : List Char) : Except DirectiveFault Unit :=
  match cs.splitOn '=' with
  | _ :: value :: _ =>
    if isNumber value then .ok ()
    else
      match Pattern.fault? value with
      | none => .ok ()
      | some fault => .error (.fieldValue fault)
  | _ => .ok ()

/-! ## Parts of a text -/

/-- Characters with their positions in bytes. -/
def positions (n : Nat) : List Char → List (Nat × Char)
  | [] => []
  | c :: cs => (n, c) :: positions (n + c.utf8Size) cs

/-- Can a text be cut apart at a position? -/
def isBoundary (cs : List Char) (n : Nat) : Bool :=
  (positions 0 cs).all fun p => decide (n ≤ p.1 ∨ p.1 + p.2.utf8Size ≤ n)

/-- The part of a text between two positions. -/
def cut (cs : List Char) (first last : Nat) : Except DirectiveFailure (List Char) :=
  if isBoundary cs first && isBoundary cs last then
    .ok (((positions 0 cs).filter fun p => decide (first ≤ p.1 ∧ p.1 < last)).map Prod.snd)
  else .error .splitCharacter

/-- The part of a text from a position on. -/
def cutFrom (cs : List Char) (first : Nat) : Except DirectiveFailure (List Char) :=
  if isBoundary cs first then
    .ok (((positions 0 cs).filter fun p => decide (first ≤ p.1)).map Prod.snd)
  else .error .splitCharacter

/-- Fails with a fault if there is one. -/
def refuse : Except DirectiveFault Unit → Except DirectiveFailure Unit
  | .ok () => .ok ()
  | .error fault => .error (.refused fault)

/-! ## One directive -/

/-- What is being read, with the position at which it starts. -/
inductive Part where
  | start
  | target
  | span (first : Nat)
  | field (first : Nat)
  /-- Behind the field of a span. -/
  | fieldEnd
  /-- Behind a span. -/
  | spanEnd
  | level (first : Nat)
  deriving DecidableEq, Repr

/-- Can a target start with the character? -/
def startsTarget (c : Char) : Bool :=
  c == '-' || c == ':' || c == '_' || CharClass.isAlphanumeric c

/-- One character, at its position, of a directive that reads as a whole. -/
def step (cs : List Char) (part : Part) (item : Nat × Char) : Except DirectiveFailure Part := do
  let (n, c) := item
  match part, c with
  | .start, '[' => return .span (n + 1)
  | .start, c => if startsTarget c then return .target else throw (.refused .malformed)
  | .target, '=' =>
    let _ ← cut cs 0 n
    return .level (n + 1)
  | .target, '[' =>
    let _ ← cut cs 0 n
    return .span (n + 1)
  | .target, _ => return .target
  | .span first, ']' =>
    let _ ← cut cs first n
    return .spanEnd
  | .span first, '\x7b' =>
    let _ ← cut cs first n
    return .field (n + 1)
  | .span first, _ => return .span first
  | .field first, '\x7d' =>
    let field ← cut cs first n
    if field.isEmpty then throw (.refused .malformed)
    refuse (checkField field)
    return .fieldEnd
  | .field first, _ => return .field first
  | .fieldEnd, ']' => return .spanEnd
  | .spanEnd, '=' => return .level (n + 1)
  | .level first, _ => return .level first
  | _, _ => throw (.refused .malformed)

/-- The end of a directive. -/
def finish (cs : List Char) : Part → Except DirectiveFailure Unit
  | .target | .spanEnd => .ok ()
  | .level first => do
    let level ← cutFrom cs first
    refuse (if level.isEmpty || isLevel level then .ok () else .error .noSuchLevel)
  | _ => .error (.refused .malformed)

/-- A text without the blanks around it. -/
def trimmed (cs : List Char) : List Char :=
  ((cs.dropWhile CharClass.isBlank).reverse.dropWhile CharClass.isBlank).reverse

/-- Refuses a directive of no known form. -/
def checkDirective (cs : List Char) : Except DirectiveFailure Unit := do
  finish cs (← (positions 0 (trimmed cs)).foldlM (step cs) .start)

/-- Refuses directives of which one is refused, for the first reason there is. -/
def check (s : String) : Except DirectiveFailure Unit :=
  ((s.toList.splitOn ',').filter fun cs => !cs.isEmpty).forM checkDirective

end LogDirectives

end MutantGate
