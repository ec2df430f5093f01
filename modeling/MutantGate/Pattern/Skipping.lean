import MutantGate.Pattern.Span
import MutantGate.Text.CharClass
/-!
# Blanks and comments in patterns

With the flag `verbose`, blanks may stand between the pieces of a pattern, and a number
sign starts a comment that goes on to the end of its line.  Main statement: skipping
never makes the text behind a cursor longer, so reading on behind what was skipped ends.
-/

namespace MutantGate.Pattern

/-- Up to the first character that is neither blank nor in a comment; the flag says
whether a comment has begun. -/
def significant : (inComment : Bool) → Position → List Char → Cursor
  | _, p, [] => ⟨p, []⟩
  | true, p, c :: cs => significant (c != '\n') (p.behind c) cs
  | false, p, c :: cs =>
    if CharClass.isBlank c then significant false (p.behind c) cs
    else if c == '#' then significant true (p.behind c) cs
    else ⟨p, c :: cs⟩

namespace Cursor

/-- Skips blanks and comments where they are allowed. -/
def skip (verbose : Bool) (k : Cursor) : Cursor :=
  if verbose then significant false k.position k.rest else k

/-- Behind the next character and what may be skipped then. -/
def step (verbose : Bool) (k : Cursor) : Cursor := k.advance.skip verbose

end Cursor

theorem significant_rest_length (inComment : Bool) (p : Position) (cs : List Char) :
    (significant inComment p cs).rest.length ≤ cs.length := by
  induction cs generalizing inComment p with
  | nil => simp [significant]
  | cons c cs ih =>
    cases inComment with
    | true => exact Nat.le_succ_of_le (ih _ _)
    | false =>
      simp only [significant]
      split
      · exact Nat.le_succ_of_le (ih _ _)
      · split
        · exact Nat.le_succ_of_le (ih _ _)
        · exact Nat.le_refl _

theorem Cursor.skip_rest_length (verbose : Bool) (k : Cursor) :
    (k.skip verbose).rest.length ≤ k.rest.length := by
  unfold Cursor.skip
  split
  · exact significant_rest_length _ _ _
  · exact Nat.le_refl _

theorem Cursor.step_rest_length (verbose : Bool) {k : Cursor} {c : Char} (h : k.next? = some c) :
    (k.step verbose).rest.length < k.rest.length := by
  have hs := k.advance.skip_rest_length verbose
  obtain ⟨p, cs⟩ := k
  cases cs with
  | nil => cases h
  | cons d cs => exact Nat.lt_succ_of_le hs

/-- Takes characters with a property, each with its span, and skips what may stand
behind each. -/
def Cursor.takeWhile (verbose : Bool) (property : Char → Bool) (k : Cursor) :
    List (Span × Char) × Cursor :=
  match _h : k.next? with
  | none => ([], k)
  | some c =>
    if property c then
      let (taken, rest) := (k.step verbose).takeWhile verbose property
      ((k.nextSpan, c) :: taken, rest)
    else ([], k)
termination_by k.rest.length
decreasing_by exact k.step_rest_length verbose ‹_›

end MutantGate.Pattern
