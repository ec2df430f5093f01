import MutantGate.Pattern.Escape
/-!
# Brackets in patterns

Brackets hold characters, ranges, classes and other brackets side by side; double signs
combine what stands on their left with what stands on their right.  Right behind an
opening bracket and its caret, hyphens stand for themselves, and if there are none, so
does a closing bracket.
-/

namespace MutantGate.Pattern

/-- Items side by side, last first, with the span of them all. -/
structure ClassItems where
  span : Span
  items : List ClassItem

namespace ClassItems

/-- No items yet. -/
def start (k : Cursor) : ClassItems := ⟨k.here, []⟩

/-- With one more item. -/
def push (is : ClassItems) (item : ClassItem) : ClassItems :=
  let first := if is.items.isEmpty then item.span.first else is.span.first
  ⟨⟨first, item.span.last⟩, item :: is.items⟩

/-- All of the items as one. -/
def whole (is : ClassItems) : ClassItem :=
  match is.items with
  | [] => .nothing is.span
  | [item] => item
  | items => .union is.span items.reverse

end ClassItems

/-- Brackets that are open: their start, what is to be combined with the items, and the
items so far. -/
structure OpenClass where
  opening : Span
  isNegated : Bool
  left : Option ClassItem
  items : ClassItems

namespace OpenClass

/-- With one more item. -/
def push (o : OpenClass) (item : ClassItem) : OpenClass := { o with items := o.items.push item }

/-- All that stands in the brackets. -/
def whole (o : OpenClass) : ClassItem :=
  match o.left with
  | none => o.items.whole
  | some left => .operation ⟨left.span.first, o.items.whole.span.last⟩ left o.items.whole

/-- With what has been read so far on the left of an operation. -/
def combining (o : OpenClass) (k : Cursor) : OpenClass :=
  { o with left := some o.whole, items := .start k }

/-- The fault of brackets that are not closed. -/
def unclosed (o : OpenClass) : Fault := ⟨.unclosedClass, o.opening⟩

end OpenClass

/-- Reads an opening bracket, with what stands for itself right behind it.  If the text
ends there, the fault is laid to all that was read, but to the bracket alone if that
were hyphens. -/
def openClass (verbose : Bool) (k : Cursor) : Except Fault (OpenClass × Cursor) :=
  let bracket := k.step verbose
  let isNegated := bracket.next? == some '^'
  let content := if isNegated then bracket.step verbose else bracket
  let (hyphens, behind) := content.takeWhile verbose fun c => c == '-'
  let isBracket := hyphens.isEmpty && behind.next? == some ']'
  let literals := if isBracket then [(behind.nextSpan, ']')] else hyphens
  let rest := if isBracket then behind.step verbose else behind
  let opening := rest.spanFrom k.position
  if rest.atEnd then .error ⟨.unclosedClass, if hyphens.isEmpty then opening else k.here⟩
  else
    let items := literals.foldl (fun is l => is.push (.literal ⟨l.1, l.2, false⟩)) (.start content)
    .ok (⟨opening, isNegated, none, items⟩, rest)

/-! ## Items -/

/-- The names of classes. -/
def classNames : List String :=
  ["alnum", "alpha", "ascii", "blank", "cntrl", "digit", "graph", "lower", "print", "punct",
    "space", "upper", "word", "xdigit"]

/-- A class with a name between colons, from its opening bracket on. -/
def namedClass? (k : Cursor) : Option (ClassItem × Cursor) :=
  match k.rest with
  | '[' :: ':' :: r =>
    let isNegated := r.head? == some '^'
    let r := if isNegated then r.tail else r
    let name := r.takeWhile fun c => c != ':'
    match r.dropWhile fun c => c != ':' with
    | ':' :: ']' :: _ =>
      if classNames.contains (String.ofList name) then
        let rest := k.advanceBy (name.length + if isNegated then 5 else 4)
        some (.named (rest.spanFrom k.position) isNegated, rest)
      else none
    | _ => none
  | _ => none

/-- A character that stands for itself or an escape. -/
def classAtom (verbose : Bool) (k : Cursor) (c : Char) : Except Fault (Atom × Cursor) :=
  if c == '\\' then escape verbose k else .ok (.literal ⟨k.nextSpan, c, false⟩, k.advance)

/-- What may stand in brackets on its own. -/
def Atom.toClassItem : Atom → Except Fault ClassItem
  | .literal l => .ok (.literal l)
  | .shorthand span isNegated => .ok (.shorthand span isNegated)
  | .property span => .ok (.property span)
  | a => .error ⟨.classEscape, a.span⟩

/-- What may be the bound of a range. -/
def Atom.toBound : Atom → Except Fault Literal
  | .literal l => .ok l
  | a => .error ⟨.rangeBound, a.span⟩

/-- The range between two bounds, which have to be in order. -/
def range (first last : Literal) : Except Fault ClassItem :=
  let span := ⟨first.span.first, last.span.last⟩
  if first.char ≤ last.char then .ok (.range span first last) else .error ⟨.rangeOrder, span⟩

/-- The first character that is not blank, and not the mark of the first comment
either; what stands in the comment is not skipped. -/
def firstMark? : (hasComment : Bool) → List Char → Option Char
  | _, [] => none
  | hasComment, c :: cs =>
    if CharClass.isBlank c then firstMark? hasComment cs
    else if c == '#' && !hasComment then firstMark? true cs
    else some c

/-- Does the character behind a hyphen keep it from making a range? -/
def endsRange (verbose : Bool) (k : Cursor) : Bool :=
  (if verbose then firstMark? false k.rest else k.next?).any fun c => c == ']' || c == '-'

/-- A character, an escape or a range, which starts with a given character. -/
def classItem (verbose : Bool) (o : OpenClass) (k : Cursor) (c : Char) :
    Except Fault (ClassItem × Cursor) := do
  let (first, rest) ← classAtom verbose k c
  let hyphen := rest.skip verbose
  if hyphen.atEnd then throw o.unclosed
  if hyphen.next? != some '-' || endsRange verbose hyphen.advance then
    return (← first.toClassItem, hyphen)
  let bound := hyphen.step verbose
  match bound.next? with
  | none => throw o.unclosed
  | some d =>
    let (last, rest) ← classAtom verbose bound d
    return (← range (← first.toBound) (← last.toBound), rest)

/-! ## Brackets -/

/-- Brackets that are still open, with those around them, or that have been closed. -/
inductive ClassProgress where
  | inside (o : OpenClass) (outer : List OpenClass)
  | closed (a : Atom)

/-- One piece between brackets, which starts with a given character. -/
def classStep (verbose : Bool) (o : OpenClass) (outer : List OpenClass) (k : Cursor) (c : Char) :
    Except Fault (ClassProgress × Cursor) := do
  if c == '[' then
    match namedClass? k with
    | some (item, rest) => return (.inside (o.push item) outer, rest)
    | none =>
      let (inner, rest) ← openClass verbose k
      return (.inside inner (o :: outer), rest)
  else if c == ']' then
    let span := k.advance.spanFrom o.opening.first
    match outer with
    | [] => return (.closed (.bracketed span o.isNegated o.whole), k.advance)
    | around :: outer =>
      return (.inside (around.push (.bracketed span o.isNegated o.whole)) outer, k.advance)
  else if ['&', '-', '~'].contains c && k.advance.next? == some c then
    let rest := k.advanceBy 2
    return (.inside (o.combining rest) outer, rest)
  else
    let (item, rest) ← classItem verbose o k c
    return (.inside (o.push item) outer, rest)

/-- Reads up to the closing bracket.  Each piece takes at least one character, and
reading ends where one would not. -/
def classFrom (verbose : Bool) (o : OpenClass) (outer : List OpenClass) (k : Cursor) :
    Except Fault (Atom × Cursor) :=
  let piece := k.skip verbose
  match piece.next? with
  | none => .error o.unclosed
  | some c =>
    match classStep verbose o outer piece c with
    | .error fault => .error fault
    | .ok (.closed a, rest) => .ok (a, rest)
    | .ok (.inside o outer, rest) =>
      if _ : rest.rest.length < k.rest.length then classFrom verbose o outer rest
      else .error o.unclosed
termination_by k.rest.length

/-- Reads brackets, from the opening one on. -/
def brackets (verbose : Bool) (k : Cursor) : Except Fault (Atom × Cursor) := do
  let (o, rest) ← openClass verbose k
  classFrom verbose o [] rest

end MutantGate.Pattern
