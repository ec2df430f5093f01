import MutantGate.Pattern.Reader
import MutantGate.Pattern.Report
/-!
# Patterns that can be matched

A matcher is an automaton over the bytes of a text.  It never matches bytes that are no
text, it has no tables of Unicode classes and letter cases, and it looks at one byte at
a time.  So, of what stands for characters, only that can be matched which needs no
table and leads to no bytes that are no text; and edges of words can be matched only if
words are made of ASCII.
-/

namespace MutantGate

namespace Pattern

/-- The flags that matter to a matcher. -/
structure Mode where
  ignoresCase : Bool
  isUnicode : Bool
  deriving DecidableEq, Repr

namespace Mode

/-- The flags at the start of a pattern. -/
def start : Mode := ⟨false, true⟩

/-- The flags behind settings. -/
def adjust (m : Mode) (settings : List FlagSetting) : Mode :=
  { ignoresCase := (setting? settings .ignoreCase).getD m.ignoresCase
    isUnicode := (setting? settings .unicode).getD m.isUnicode }

/-- Is a table needed to know the case of letters? -/
def needsLetterCase (m : Mode) : Bool := m.isUnicode && m.ignoresCase

end Mode

/-- An obstacle in the way of some condition. -/
def require (condition : Bool) (obstacle : Obstacle) (span : Span) : Except Fault Unit :=
  if condition then .ok () else .error ⟨obstacle, span⟩

/-! ## What can be matched -/

namespace Literal

/-- Is the character in ASCII? -/
def isAscii (l : Literal) : Bool := decide (l.char.toNat < 0x80)

/-- Can a literal be matched?  A single byte beyond ASCII is no text.  Where characters
are bytes, the case of ASCII letters is all that there is to ignore, and other characters
stand for themselves alone. -/
def check (m : Mode) (l : Literal) : Except Fault Unit :=
  if m.isUnicode then require (!m.ignoresCase) .letterCase l.span
  else require (l.isAscii || !l.isByte) .noText l.span

/-- Can a literal be matched in brackets?  Where characters are bytes, it has to be one. -/
def checkInClass (m : Mode) (l : Literal) : Except Fault Unit :=
  if m.isUnicode then .ok ()
  else require l.isAscii (if l.isByte then .noText else .beyondAscii) l.span

end Literal

/-- Can a class of one letter be matched? -/
def checkShorthand (m : Mode) (span : Span) (isNegated : Bool) : Except Fault Unit :=
  if m.isUnicode then .error ⟨.unknownShorthand, span⟩ else require (!isNegated) .noText span

/-- Can a Unicode property be matched? -/
def checkProperty (m : Mode) (span : Span) : Except Fault Unit :=
  .error ⟨if m.isUnicode then .unknownProperty else .beyondAscii, span⟩

mutual

/-- Are there characters or ranges, side by side with other items? -/
def ClassItem.hasMembers : ClassItem → Bool
  | .literal _ | .range _ _ _ => true
  | .union _ items => anyHasMembers items
  | _ => false

/-- Is one of some items a character or a range? -/
def anyHasMembers : List ClassItem → Bool
  | [] => false
  | item :: items => item.hasMembers || anyHasMembers items

end

/-- Can the members of what stands in brackets be looked up in any letter case? -/
def ClassItem.checkCase (m : Mode) (span : Span) (item : ClassItem) : Except Fault Unit :=
  require (!(m.needsLetterCase && item.hasMembers)) .letterCase span

/-- Can brackets be closed?  Where characters are bytes, whatever is negated has bytes
that are no text. -/
def checkBrackets (m : Mode) (span : Span) (isNegated : Bool) (item : ClassItem) :
    Except Fault Unit := do
  item.checkCase m span
  require (m.isUnicode || !isNegated) .noText span

mutual

/-- Can what stands in brackets be matched? -/
def ClassItem.check (m : Mode) : ClassItem → Except Fault Unit
  | .nothing _ => .ok ()
  | .literal l => l.checkInClass m
  | .range _ first last => do
    first.checkInClass m
    last.checkInClass m
  | .named span isNegated => do
    require (!m.needsLetterCase) .letterCase span
    require (m.isUnicode || !isNegated) .noText span
  | .shorthand span isNegated => checkShorthand m span isNegated
  | .property span => checkProperty m span
  | .bracketed span isNegated item => do
    item.check m
    checkBrackets m span isNegated item
  | .union _ items => checkAll m items
  | .operation _ left right => do
    left.check m
    right.check m
    right.checkCase m right.span
    left.checkCase m left.span

/-- Can all of some items be matched? -/
def checkAll (m : Mode) : List ClassItem → Except Fault Unit
  | [] => .ok ()
  | item :: items => do
    item.check m
    checkAll m items

end

/-- Can a pattern without parts be matched? -/
def Atom.check (m : Mode) : Atom → Except Fault Unit
  | .literal l => l.check m
  | .anyChar span => require m.isUnicode .noText span
  | .edge _ | .wordEdge _ => .ok ()
  | .shorthand span isNegated => checkShorthand m span isNegated
  | .property span => checkProperty m span
  | .bracketed span isNegated item => do
    item.check m
    checkBrackets m span isNegated item

/-- Is this an edge of words that may have any letters? -/
def Atom.isUnicodeWordEdge (m : Mode) : Atom → Bool
  | .wordEdge _ => m.isUnicode
  | _ => false

mutual

/-- The parts of a pattern that have no parts, each with its flags, and the flags
behind the pattern. -/
def atoms (m : Mode) : Pattern → List (Mode × Atom) × Mode
  | .empty _ => ([], m)
  | .atom a => ([(m, a)], m)
  | .flags _ settings => ([], m.adjust settings)
  | .repetition _ p => p.atoms m
  | .group _ settings p => ((p.atoms (m.adjust settings)).1, m)
  | .sequence _ ps | .choice _ ps => atomsOfParts m ps

/-- The same for patterns one behind the other. -/
def atomsOfParts (m : Mode) : List Pattern → List (Mode × Atom) × Mode
  | [] => ([], m)
  | p :: ps =>
    let (front, m) := p.atoms m
    let (back, m) := atomsOfParts m ps
    (front ++ back, m)

end

/-- The pattern that a text is, if it is not nested too deep and can be matched up to
the edges of words. -/
def matchable (cs : List Char) : Except Fault Pattern := do
  let p ← read cs
  match p.tooDeep? 0 with
  | some span => throw ⟨.nesting maxDepth, span⟩
  | none =>
    (p.atoms .start).1.forM fun a => a.2.check a.1
    return p

end Pattern

/-! ## Faults -/

/-- Why no matcher can be built for a text. -/
inductive PatternFault where
  /-- The text is no pattern, or the pattern has a part that cannot be matched. -/
  | unbuildable (text : List Char) (fault : Pattern.Fault)
  /-- The pattern has edges of words that may have any letters. -/
  | unicodeWordEdge
  deriving DecidableEq, Repr

namespace PatternFault

/-- What is said about a fault. -/
def message : PatternFault → String
  | .unbuildable _ _ => "error building NFA"
  | .unicodeWordEdge =>
    "unsupported regex feature for DFAs: cannot build DFAs for regexes with Unicode word "
      ++ "boundaries; switch to ASCII word boundaries, or heuristically enable Unicode word "
      ++ "boundaries or use a different regex engine"

/-- What is said about the causes of a fault. -/
def causes : PatternFault → List String
  | .unbuildable text fault => ["error parsing regex", fault.report text]
  | .unicodeWordEdge => []

end PatternFault

/-- Why no matcher can be built for a text, if none can. -/
def Pattern.fault? (cs : List Char) : Option PatternFault :=
  match matchable cs with
  | .error fault => some (.unbuildable cs fault)
  | .ok p =>
    if (p.atoms .start).1.any fun a => a.2.isUnicodeWordEdge a.1 then some .unicodeWordEdge
    else none

end MutantGate
