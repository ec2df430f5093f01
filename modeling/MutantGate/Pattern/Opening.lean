import MutantGate.Pattern.Basic
import MutantGate.Pattern.Skipping
/-!
# How groups in patterns start

Behind its parenthesis and a question mark, a group may have a name in angle brackets,
or flags with a colon behind them.  With a closing parenthesis in place of the colon,
flags stand on their own.
-/

namespace MutantGate.Pattern

/-- How a group starts. -/
inductive Opening where
  | group (settings : List FlagSetting)
  | named (name : String) (span : Span)
  /-- Flags on their own, which look like a group. -/
  | flags (settings : List FlagSetting)

/-! ## Flags -/

/-- The flag with a given letter. -/
def Flag.ofChar? : Char → Option Flag
  | 'i' => some .ignoreCase
  | 'm' => some .multiLine
  | 's' => some .dotMatchesAll
  | 'U' => some .swapGreed
  | 'u' => some .unicode
  | 'R' => some .carriageReturn
  | 'x' => some .verbose
  | _ => none

/-- The flags that have been read, each with its span, and the hyphen between those to
turn on and those to turn off. -/
structure FlagList where
  settings : List (FlagSetting × Span)
  hyphen : Option Span

/-- One more letter or the hyphen; nothing may be there twice. -/
def FlagList.push (fs : FlagList) (item : Span × Char) : Except Fault FlagList :=
  let (span, c) := item
  if c == '-' then
    match fs.hyphen with
    | some earlier => .error ⟨.repeatedNegation earlier, span⟩
    | none => .ok { fs with hyphen := some span }
  else
    match Flag.ofChar? c with
    | none => .error ⟨.unknownFlag, span⟩
    | some flag =>
      match fs.settings.find? fun s => s.1.flag == flag with
      | some s => .error ⟨.repeatedFlag s.2, span⟩
      | none => .ok { fs with settings := fs.settings ++ [(⟨flag, fs.hyphen.isNone⟩, span)] }

/-- Reads flags, up to a colon or a closing parenthesis; a hyphen has to have flags
behind it. -/
def flagSettings (k : Cursor) : Except Fault (List FlagSetting × Cursor) := do
  let (items, rest) := k.takeWhile false fun c => c != ':' && c != ')'
  let fs ← items.foldlM FlagList.push ⟨[], none⟩
  if rest.atEnd then throw ⟨.unfinishedFlags, rest.here⟩
  match items.getLast? with
  | some (span, '-') => throw ⟨.danglingNegation, span⟩
  | _ => return (fs.settings.map Prod.fst, rest)

/-! ## Names -/

/-- Can a name start with the character? -/
def startsName (c : Char) : Bool := c == '_' || CharClass.isAlphabetic c

/-- Can the character stand in a name? -/
def isNameChar (c : Char) : Bool :=
  ['_', '.', '[', ']'].contains c || CharClass.isAlphanumeric c

/-- The first character that may not stand where it stands in a name. -/
def nameObstacle? : List (Span × Char) → Option Span
  | [] => none
  | (span, c) :: cs =>
    if startsName c then (cs.find? fun item => !isNameChar item.2).map Prod.fst else some span

/-- Reads a name, up to its closing angle bracket. -/
def groupName (k : Cursor) : Except Fault (Opening × Cursor) :=
  let (items, rest) := k.takeWhile false fun c => c != '>'
  match nameObstacle? items with
  | some span => .error ⟨.nameCharacter, span⟩
  | none =>
    if rest.atEnd then .error ⟨.unclosedName, rest.here⟩
    else if items.isEmpty then .error ⟨.emptyName, k.here⟩
    else
      .ok (.named (String.ofList (items.map Prod.snd)) (rest.spanFrom k.position), rest.advance)

/-! ## Openings -/

/-- Reads on behind an opening parenthesis, with its span, and a question mark. -/
def flagOpening (parenthesis : Span) (mark : Cursor) : Except Fault (Opening × Cursor) := do
  let k := mark.advance
  if k.atEnd then throw ⟨.unclosedGroup, parenthesis⟩
  let (settings, rest) ← flagSettings k
  if rest.next? == some ':' then return (.group settings, rest.advance)
  else if settings.isEmpty then throw ⟨.nothingToRepeat, mark.here⟩
  else return (.flags settings, rest.advance)

/-- Reads the start of a group, from its parenthesis on. -/
def opening (verbose : Bool) (k : Cursor) : Except Fault (Opening × Cursor) :=
  let mark := k.step verbose
  let lookAround := fun n => Fault.mk .lookAround ((mark.advanceBy n).spanFrom k.position)
  match mark.rest with
  | '?' :: '=' :: _ | '?' :: '!' :: _ => .error (lookAround 2)
  | '?' :: '<' :: '=' :: _ | '?' :: '<' :: '!' :: _ => .error (lookAround 3)
  | '?' :: 'P' :: '<' :: _ => groupName (mark.advanceBy 3)
  | '?' :: '<' :: _ => groupName (mark.advanceBy 2)
  | '?' :: _ => flagOpening k.nextSpan mark
  | _ => .ok (.group [], mark)

end MutantGate.Pattern
