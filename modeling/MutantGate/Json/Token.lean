import MutantGate.Json.Basic
import MutantGate.Text.Hexadecimal
/-!
# The tokens of a JSON text

A text is cut into tokens from left to right; blanks (space, tab, carriage return,
line feed) may stand between them and nowhere else matter.  Each token takes at
least one character, so cutting ends.  The grammar of strings and numbers is the
strict one: no raw control characters, only the defined escapes, no leading zeros,
and digits on both sides of a point.
-/

namespace MutantGate.Json

/-- A token: punctuation or a value without parts. -/
inductive Token where
  | openArray
  | closeArray
  | openObject
  | closeObject
  | comma
  | colon
  | null
  | bool (b : Bool)
  | num (n : Numeral)
  | str (text : Option String)

/-- May the character stand between tokens? -/
def isBlank (c : Char) : Bool := c == ' ' || c == '\t' || c == '\n' || c == '\r'

/-! ## Numbers -/

/-- The digits before the point: a lone zero or digits that do not start with one. -/
def wholePart? (cs : List Char) : Option (List Digit × List Char) :=
  match Decimal.span cs with
  | ([], _) => none
  | ([d], rest) => some ([d], rest)
  | (d :: e :: ds, rest) => if d = Digit.zero then none else some (d :: e :: ds, rest)

/-- The digits behind a point, if there is one. -/
def fraction? : List Char → Option (Option (List Digit) × List Char)
  | '.' :: r =>
    match Decimal.span r with
    | ([], _) => none
    | (d :: ds, rest) => some (some (d :: ds), rest)
  | cs => some (none, cs)

/-- The sign of an exponent. -/
def exponentSign : List Char → ExponentSign × List Char
  | '+' :: r => (.plus, r)
  | '-' :: r => (.minus, r)
  | cs => (.implicit, cs)

/-- The sign and digits behind an exponent mark, if there is one. -/
def exponent? : List Char → Option (Option (ExponentSign × List Digit) × List Char)
  | c :: r =>
    if c = 'e' ∨ c = 'E' then
      match Decimal.span (exponentSign r).2 with
      | ([], _) => none
      | (d :: ds, rest) => some (some ((exponentSign r).1, d :: ds), rest)
    else some (none, c :: r)
  | [] => some (none, [])

/-- A number without its sign. -/
def unsigned? (isNegative : Bool) (cs : List Char) : Option (Numeral × List Char) := do
  let (whole, cs) ← wholePart? cs
  let (fraction, cs) ← fraction? cs
  let (exponent, cs) ← exponent? cs
  some (⟨isNegative, whole, fraction, exponent⟩, cs)

/-- A number. -/
def number? : List Char → Option (Numeral × List Char)
  | '-' :: r => unsigned? true r
  | cs => unsigned? false cs

/-! ## Strings -/

/-- A character of a string as it is written: itself, or half of a surrogate pair. -/
inductive StringUnit where
  | char (c : Char)
  | half (code : Nat)

/-- What four hexadecimal digits stand for. -/
def unicodeEscape? (a b c d : Char) : Option StringUnit := do
  let high := 16 * (← Hexadecimal.digit? a) + (← Hexadecimal.digit? b)
  let low := 16 * (← Hexadecimal.digit? c) + (← Hexadecimal.digit? d)
  let n := 256 * high + low
  some (if 0xD800 ≤ n ∧ n < 0xE000 then .half n else .char (Char.ofNat n))

/-- What a one-letter escape stands for. -/
def escape? : Char → Option Char
  | '"' => some '"'
  | '\\' => some '\\'
  | '/' => some '/'
  | 'b' => some '\x08'
  | 'f' => some '\x0c'
  | 'n' => some '\n'
  | 'r' => some '\r'
  | 't' => some '\t'
  | _ => none

/-- Reads up to the closing quote, behind the units already read (last one first). -/
def stringUnits? (before : List StringUnit) : List Char → Option (List StringUnit × List Char)
  | [] => none
  | '"' :: r => some (before.reverse, r)
  | '\\' :: 'u' :: a :: b :: c :: d :: r =>
    match unicodeEscape? a b c d with
    | some u => stringUnits? (u :: before) r
    | none => none
  | '\\' :: c :: r =>
    match escape? c with
    | some e => stringUnits? (.char e :: before) r
    | none => none
  | c :: r =>
    if c = '\\' ∨ c.toNat < 0x20 then none else stringUnits? (.char c :: before) r

/-- The text of a string, behind the characters already found (last one first):
two halves that fit make one character, and a lone half leaves no text. -/
def textOfUnits? (before : List Char) : List StringUnit → Option String
  | [] => some (String.ofList before.reverse)
  | .char c :: r => textOfUnits? (c :: before) r
  | .half h :: .half l :: r =>
    if h < 0xDC00 ∧ 0xDC00 ≤ l then
      textOfUnits? (Char.ofNat (0x10000 + 1024 * (h - 0xD800) + (l - 0xDC00)) :: before) r
    else none
  | .half _ :: _ => none

/-! ## Cutting -/

/-- The token at the start of a text. -/
def Token.next? : List Char → Option (Token × List Char)
  | '[' :: r => some (.openArray, r)
  | ']' :: r => some (.closeArray, r)
  | '\x7b' :: r => some (.openObject, r)
  | '\x7d' :: r => some (.closeObject, r)
  | ',' :: r => some (.comma, r)
  | ':' :: r => some (.colon, r)
  | '"' :: r => (stringUnits? [] r).map fun p => (.str (textOfUnits? [] p.1), p.2)
  | 'n' :: 'u' :: 'l' :: 'l' :: r => some (.null, r)
  | 't' :: 'r' :: 'u' :: 'e' :: r => some (.bool true, r)
  | 'f' :: 'a' :: 'l' :: 's' :: 'e' :: r => some (.bool false, r)
  | cs => (number? cs).map fun p => (.num p.1, p.2)

/-! Each token takes at least one character. -/

theorem span_rest_length (cs : List Char) : (Decimal.span cs).2.length ≤ cs.length := by
  induction cs with
  | nil => simp [Decimal.span]
  | cons c r ih =>
    simp only [Decimal.span]
    split
    · exact Nat.le_succ_of_le ih
    · exact Nat.le_refl _

theorem span_rest_length_lt {cs rest : List Char} {d : Digit} {ds : List Digit}
    (h : Decimal.span cs = (d :: ds, rest)) : rest.length < cs.length := by
  cases cs with
  | nil => simp [Decimal.span] at h
  | cons c r =>
    simp only [Decimal.span] at h
    split at h
    · cases h
      exact Nat.lt_succ_of_le (span_rest_length r)
    · cases h

theorem wholePart?_rest_length {cs rest : List Char} {ds : List Digit}
    (h : wholePart? cs = some (ds, rest)) : rest.length < cs.length := by
  unfold wholePart? at h
  split at h
  · cases h
  · next hs => cases h; exact span_rest_length_lt hs
  · next hs =>
    split at h
    · cases h
    · cases h; exact span_rest_length_lt hs

theorem fraction?_rest_length {cs rest : List Char} {f : Option (List Digit)}
    (h : fraction? cs = some (f, rest)) : rest.length ≤ cs.length := by
  unfold fraction? at h
  split at h
  · split at h
    · cases h
    · next hs => cases h; exact Nat.le_succ_of_le (Nat.le_of_lt (span_rest_length_lt hs))
  · cases h; exact Nat.le_refl _

theorem exponentSign_rest_length (cs : List Char) : (exponentSign cs).2.length ≤ cs.length := by
  unfold exponentSign
  split <;> simp

theorem exponent?_rest_length {cs rest : List Char} {e : Option (ExponentSign × List Digit)}
    (h : exponent? cs = some (e, rest)) : rest.length ≤ cs.length := by
  unfold exponent? at h
  split at h
  · next r =>
    split at h
    · split at h
      · cases h
      · next hs =>
        cases h
        exact Nat.le_succ_of_le
          (Nat.le_trans (Nat.le_of_lt (span_rest_length_lt hs)) (exponentSign_rest_length r))
    · cases h; exact Nat.le_refl _
  · cases h; exact Nat.le_refl _

theorem unsigned?_rest_length {b : Bool} {cs rest : List Char} {n : Numeral}
    (h : unsigned? b cs = some (n, rest)) : rest.length < cs.length := by
  simp only [unsigned?, Option.bind_eq_bind, Option.bind_eq_some_iff, Prod.exists] at h
  obtain ⟨_, _, hw, _, _, hf, _, _, he, h⟩ := h
  cases h
  have := wholePart?_rest_length hw
  have := fraction?_rest_length hf
  have := exponent?_rest_length he
  omega

theorem number?_rest_length {cs rest : List Char} {n : Numeral}
    (h : number? cs = some (n, rest)) : rest.length < cs.length := by
  unfold number? at h
  split at h
  · exact Nat.lt_succ_of_lt (unsigned?_rest_length h)
  · exact unsigned?_rest_length h

theorem stringUnits?_rest_length {before us : List StringUnit} {cs rest : List Char}
    (h : stringUnits? before cs = some (us, rest)) : rest.length < cs.length := by
  fun_induction stringUnits? before cs with
  | case1 => cases h
  | case2 => cases h; exact Nat.lt_succ_self _
  | case3 _ _ _ _ _ _ _ _ ih => have := ih h; simp; omega
  | case4 => cases h
  | case5 _ _ _ _ _ _ ih => have := ih h; simp; omega
  | case6 => cases h
  | case7 => cases h
  | case8 _ _ _ _ _ _ _ ih => have := ih h; simp; omega

theorem Token.next?_rest_length {cs rest : List Char} {t : Token}
    (h : Token.next? cs = some (t, rest)) : rest.length < cs.length := by
  unfold Token.next? at h
  split at h
  case h_7 r =>
    obtain ⟨p, hp, he⟩ := Option.map_eq_some_iff.1 h
    cases he
    exact Nat.lt_succ_of_lt (stringUnits?_rest_length hp)
  case h_11 =>
    obtain ⟨p, hp, he⟩ := Option.map_eq_some_iff.1 h
    cases he
    exact number?_rest_length hp
  all_goals (cases h; simp; try omega)

/-- The tokens of a text, behind those already cut (last one first). -/
def tokensFrom? (before : List Token) : List Char → Option (List Token)
  | [] => some before.reverse
  | c :: r =>
    if isBlank c then tokensFrom? before r
    else
      match h : Token.next? (c :: r) with
      | none => none
      | some (t, rest) =>
        have := Token.next?_rest_length h
        tokensFrom? (t :: before) rest
  termination_by cs => cs.length
  decreasing_by
    · exact Nat.lt_succ_self r.length
    · exact this

/-- The tokens of a text. -/
def tokens? (text : String) : Option (List Token) := tokensFrom? [] text.toList

end MutantGate.Json
