/-!
# Text as bytes

UTF-8 in both directions.  A character is one to four bytes; the first byte
says how many follow and in which range the second one must lie, so that no
character has two encodings and surrogates have none.  A refusal tells where
the first bad character starts, which is the length of the valid part, and how
many of its bytes were still in order.
-/

namespace MutantGate.Utf8

/-- Why a list of bytes is not a text. -/
inductive Fault where
  /-- The first `length` bytes at `index` begin no character. -/
  | invalid (length : Nat) (index : Nat)
  /-- The input ends inside the character that starts at `index`. -/
  | incomplete (index : Nat)
  deriving DecidableEq, Repr

/-- The words for a refusal. -/
def Fault.message : Fault → String
  | .invalid length index => s!"invalid utf-8 sequence of {length} bytes from index {index}"
  | .incomplete index => s!"incomplete utf-8 byte sequence from index {index}"

/-- The bytes of a text. -/
def encode (s : String) : List UInt8 := s.toList.flatMap String.utf8EncodeChar

/-! ## One character -/

/-- What a first byte announces: its share of the code point and, for each
byte that has to follow, the least and the greatest value it may have. -/
structure Lead where
  bits : Nat
  ranges : List (Nat × Nat)

/-- The range of a byte that is neither first nor restricted by the first. -/
def tail : Nat × Nat := (0x80, 0xBF)

/-- What the first byte of a character announces, if it can be one. -/
def Lead.ofByte? (b : Nat) : Option Lead :=
  if b < 0x80 then some ⟨b, []⟩
  else if b < 0xC2 then none
  else if b < 0xE0 then some ⟨b - 0xC0, [tail]⟩
  else if b = 0xE0 then some ⟨0, [(0xA0, 0xBF), tail]⟩
  else if b = 0xED then some ⟨0xD, [(0x80, 0x9F), tail]⟩
  else if b < 0xF0 then some ⟨b - 0xE0, [tail, tail]⟩
  else if b = 0xF0 then some ⟨0, [(0x90, 0xBF), tail, tail]⟩
  else if b < 0xF4 then some ⟨b - 0xF0, [tail, tail, tail]⟩
  else if b = 0xF4 then some ⟨4, [(0x80, 0x8F), tail, tail]⟩
  else none

/-- How reading the bytes behind a first byte ends. -/
inductive Follow where
  | complete (code : Nat) (rest : List UInt8)
  | refused (accepted : Nat)
  | ended

/-- Reads the bytes announced by a first byte; `accepted` counts those that
were in order, the first byte included. -/
def follow (code accepted : Nat) : List (Nat × Nat) → List UInt8 → Follow
  | [], bs => .complete code bs
  | _ :: _, [] => .ended
  | (lo, hi) :: ranges, b :: bs =>
    if lo ≤ b.toNat ∧ b.toNat ≤ hi then
      follow (64 * code + (b.toNat - 0x80)) (accepted + 1) ranges bs
    else .refused accepted

/-- What is left after a character is no longer than what was there. -/
theorem follow_rest_length {code accepted : Nat} {ranges : List (Nat × Nat)}
    {bs rest : List UInt8} {c : Nat} (h : follow code accepted ranges bs = .complete c rest) :
    rest.length ≤ bs.length := by
  fun_induction follow code accepted ranges bs with
  | case1 => cases h; exact Nat.le_refl _
  | case2 => cases h
  | case3 _ _ _ _ _ _ _ _ ih => exact Nat.le_succ_of_le (ih h)
  | case4 => cases h

/-! ## A whole text -/

/-- The characters of a list of bytes that starts at `index`, behind those
already read (last one first). -/
def decodeFrom (index : Nat) (before : List Char) (bs : List UInt8) :
    Except Fault (List Char) :=
  match bs with
  | [] => .ok before.reverse
  | b :: rest =>
    match Lead.ofByte? b.toNat with
    | none => .error (.invalid 1 index)
    | some lead =>
      match h : follow lead.bits 1 lead.ranges rest with
      | .complete code rest' =>
        have := follow_rest_length h
        decodeFrom (index + 1 + lead.ranges.length) (Char.ofNat code :: before) rest'
      | .refused accepted => .error (.invalid accepted index)
      | .ended => .error (.incomplete index)
  termination_by bs.length
  decreasing_by simp; omega

/-- The text of a list of bytes. -/
def decode (bs : List UInt8) : Except Fault String :=
  (decodeFrom 0 [] bs).map String.ofList

end MutantGate.Utf8
