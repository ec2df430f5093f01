import Mathlib.Data.List.Forall2
import MutantGate.Text.Utf8
/-!
# The bytes of a text read back

A first byte announces how many bytes follow it and in which ranges they lie, and these
ranges leave every code point with exactly one list of bytes.  So the characters that are
read from bytes are those whose bytes they are, and a list of bytes is read as a text exactly
if it is the encoding of that text.

## What is proved

`decode_eq_ok_iff`, for every list of bytes and every text.  So decoding refuses exactly what is no
encoding of a text, overlong forms and surrogates among it.

## What is left outside

Where a refusal says the first bad byte is; the words of a failure have it, and no theorem needs it.
-/

namespace MutantGate.Utf8

/-! ## One character -/

/-- A byte lies in a range. -/
def InRange (b : UInt8) (r : Nat × Nat) : Prop := r.1 ≤ b.toNat ∧ b.toNat ≤ r.2

/-- The code point that bytes behind a first one lead to, six bits with each of them. -/
def codeFrom (code : Nat) (bytes : List UInt8) : Nat :=
  bytes.foldl (fun c b => 64 * c + (b.toNat - 0x80)) code

theorem codeFrom_cons (code : Nat) (b : UInt8) (bytes : List UInt8) :
    codeFrom code (b :: bytes) = codeFrom (64 * code + (b.toNat - 0x80)) bytes :=
  List.foldl_cons ..

/-- A character is complete as soon as there is a byte in each of the ranges ahead. -/
theorem follow_eq_complete_iff {code accepted : Nat} {ranges : List (Nat × Nat)}
    {bs rest : List UInt8} {c : Nat} :
    follow code accepted ranges bs = .complete c rest ↔
      ∃ bytes, bs = bytes ++ rest ∧ List.Forall₂ InRange bytes ranges ∧
        c = codeFrom code bytes := by
  fun_induction follow code accepted ranges bs with
  | case1 code accepted bs =>
      constructor
      · intro h
        cases h
        exact ⟨[], rfl, .nil, rfl⟩
      · rintro ⟨bytes, rfl, hranges, rfl⟩
        cases hranges
        rfl
  | case2 code accepted r ranges =>
      constructor
      · intro h
        cases h
      · rintro ⟨bytes, hbs, hranges, -⟩
        cases hranges
        cases hbs
  | case3 code accepted lo hi ranges b bs hrange ih =>
      rw [ih]
      constructor
      · rintro ⟨bytes, rfl, hranges, hcode⟩
        exact ⟨b :: bytes, rfl, .cons hrange hranges, hcode.trans (codeFrom_cons ..).symm⟩
      · rintro ⟨bytes, hbs, hranges, hcode⟩
        obtain _ | ⟨-, hranges⟩ := hranges
        obtain ⟨rfl, rfl⟩ := List.cons.inj hbs
        exact ⟨_, rfl, hranges, hcode.trans (codeFrom_cons ..)⟩
  | case4 code accepted lo hi ranges b bs hrange =>
      constructor
      · intro h
        cases h
      · rintro ⟨bytes, hbs, hranges, -⟩
        obtain _ | ⟨hb, -⟩ := hranges
        obtain ⟨rfl, rfl⟩ := List.cons.inj hbs
        exact absurd hb hrange

/-- The range of the byte behind a first byte that announces more than one: it is cut where a
shorter list of bytes, a surrogate or no code point at all would begin. -/
def second (b : Nat) : Nat × Nat :=
  (if b = 0xE0 then 0xA0 else if b = 0xF0 then 0x90 else 0x80,
    if b = 0xED then 0x9F else if b = 0xF4 then 0x8F else 0xBF)

/-- The first byte announces how many bytes follow; only the first of these may have a range that
is cut. -/
theorem Lead.ofByte?_eq (b : Nat) : Lead.ofByte? b =
    if b < 0x80 then some ⟨b, []⟩
    else if b < 0xC2 then none
    else if b < 0xE0 then some ⟨b - 0xC0, [tail]⟩
    else if b < 0xF0 then some ⟨b - 0xE0, [second b, tail]⟩
    else if b < 0xF5 then some ⟨b - 0xF0, [second b, tail, tail]⟩
    else none := by
  by_cases hcut : b = 0xE0 ∨ b = 0xED ∨ b = 0xF0 ∨ b = 0xF4
  · obtain rfl | rfl | rfl | rfl := hcut <;> rfl
  · obtain ⟨h₁, h₂, h₃, h₄⟩ := by simpa only [not_or] using hcut
    have hsecond : second b = tail := by simp only [second, h₁, h₂, h₃, h₄, if_false, tail]
    rw [hsecond]
    simp only [Lead.ofByte?, h₁, h₂, h₃, h₄, if_false]
    by_cases hlast : b < 0xF4
    · simp only [hlast, Nat.lt_succ_of_lt hlast, if_true]
    · have hbehind : ¬ b < 0xF5 := by omega
      simp only [hlast, hbehind, if_false]

theorem Lead.ofByte?_eq_some_iff {b : Nat} {lead : Lead} :
    Lead.ofByte? b = some lead ↔
      b < 0x80 ∧ lead = ⟨b, []⟩ ∨ (0xC2 ≤ b ∧ b < 0xE0) ∧ lead = ⟨b - 0xC0, [tail]⟩ ∨
        (0xE0 ≤ b ∧ b < 0xF0) ∧ lead = ⟨b - 0xE0, [second b, tail]⟩ ∨
        (0xF0 ≤ b ∧ b < 0xF5) ∧ lead = ⟨b - 0xF0, [second b, tail, tail]⟩ := by
  rw [Lead.ofByte?_eq]
  split_ifs <;> simp only [Option.some.injEq, false_iff, @eq_comm _ _ lead] <;> grind

theorem inRange_second_iff {b : Nat} {b₁ : UInt8} :
    InRange b₁ (second b) ↔ (0x80 ≤ b₁.toNat ∧ b₁.toNat ≤ 0xBF) ∧
      (b = 0xE0 → 0xA0 ≤ b₁.toNat) ∧ (b = 0xF0 → 0x90 ≤ b₁.toNat) ∧
      (b = 0xED → b₁.toNat ≤ 0x9F) ∧ (b = 0xF4 → b₁.toNat ≤ 0x8F) := by
  unfold InRange second
  split_ifs <;> simp only <;> omega

theorem inRange_tail_iff {b : UInt8} : InRange b tail ↔ 0x80 ≤ b.toNat ∧ b.toNat ≤ 0xBF :=
  Iff.rfl

/-- Bytes behind a first one are those that it announces, and lead to a code point. -/
def Announces (b : UInt8) (bytes : List UInt8) (code : Nat) : Prop :=
  ∃ lead, Lead.ofByte? b.toNat = some lead ∧ List.Forall₂ InRange bytes lead.ranges ∧
    code = codeFrom lead.bits bytes

/-! The bytes of a code point, from their numbers. -/

section Lengths

variable {v : Nat} {b b₁ b₂ b₃ : UInt8}

theorem ofNat_val_toNat (h : v.isValidChar) : (Char.ofNat v).val.toNat = v := by
  rw [Char.ofNat, dif_pos h]
  rfl

theorem encode_one (hv : v < 0x80) (hb : b.toNat = v) :
    String.utf8EncodeChar (Char.ofNat v) = [b] := by
  have hval := ofNat_val_toNat (v := v) (by unfold Nat.isValidChar; omega)
  unfold String.utf8EncodeChar
  dsimp only
  rw [hval, if_pos (by omega)]
  simp only [List.cons.injEq, and_true, ← UInt8.toNat_inj, UInt8.toNat_ofNat']
  omega

theorem encode_two (hv : 0x80 ≤ v ∧ v < 0x800) (hb : b.toNat = v / 64 + 0xC0)
    (hb₁ : b₁.toNat = v % 64 + 0x80) : String.utf8EncodeChar (Char.ofNat v) = [b, b₁] := by
  have hval := ofNat_val_toNat (v := v) (by unfold Nat.isValidChar; omega)
  unfold String.utf8EncodeChar
  dsimp only
  rw [hval, if_neg (by omega), if_pos (by omega)]
  simp only [List.cons.injEq, and_true, ← UInt8.toNat_inj, UInt8.toNat_ofNat']
  omega

theorem encode_three (hv : 0x800 ≤ v ∧ v < 0x10000) (hvalid : v < 0xD800 ∨ 0xDFFF < v)
    (hb : b.toNat = v / 4096 + 0xE0) (hb₁ : b₁.toNat = v / 64 % 64 + 0x80)
    (hb₂ : b₂.toNat = v % 64 + 0x80) :
    String.utf8EncodeChar (Char.ofNat v) = [b, b₁, b₂] := by
  have hval := ofNat_val_toNat (v := v) (by unfold Nat.isValidChar; omega)
  unfold String.utf8EncodeChar
  dsimp only
  rw [hval, if_neg (by omega), if_neg (by omega), if_pos (by omega)]
  simp only [List.cons.injEq, and_true, ← UInt8.toNat_inj, UInt8.toNat_ofNat']
  omega

theorem encode_four (hv : 0x10000 ≤ v ∧ v < 0x110000)
    (hb : b.toNat = v / 262144 + 0xF0) (hb₁ : b₁.toNat = v / 4096 % 64 + 0x80)
    (hb₂ : b₂.toNat = v / 64 % 64 + 0x80) (hb₃ : b₃.toNat = v % 64 + 0x80) :
    String.utf8EncodeChar (Char.ofNat v) = [b, b₁, b₂, b₃] := by
  have hval := ofNat_val_toNat (v := v) (by unfold Nat.isValidChar; omega)
  unfold String.utf8EncodeChar
  dsimp only
  rw [hval, if_neg (by omega), if_neg (by omega), if_neg (by omega)]
  simp only [List.cons.injEq, and_true, ← UInt8.toNat_inj, UInt8.toNat_ofNat']
  omega

end Lengths

/-- Bytes that announce each other are the bytes of the code point they lead to. -/
theorem Announces.encode {b : UInt8} {bytes : List UInt8} {code : Nat}
    (h : Announces b bytes code) : String.utf8EncodeChar (Char.ofNat code) = b :: bytes := by
  obtain ⟨lead, hlead, hranges, hcode⟩ := h
  rcases Lead.ofByte?_eq_some_iff.mp hlead with
    ⟨hb, rfl⟩ | ⟨hb, rfl⟩ | ⟨hb, rfl⟩ | ⟨hb, rfl⟩ <;>
    simp only [List.forall₂_cons_right_iff, List.forall₂_nil_right_iff, inRange_second_iff,
      inRange_tail_iff] at hranges
  · obtain rfl := hranges
    exact encode_one (by rw [hcode]; exact hb) hcode.symm
  · obtain ⟨b₁, _, h₁, rfl, rfl⟩ := hranges
    simp only [codeFrom, List.foldl_cons, List.foldl_nil] at hcode
    exact encode_two (by omega) (by omega) (by omega)
  · obtain ⟨b₁, _, h₁, ⟨b₂, _, h₂, rfl, rfl⟩, rfl⟩ := hranges
    simp only [codeFrom, List.foldl_cons, List.foldl_nil] at hcode
    exact encode_three (by omega) (by omega) (by omega) (by omega) (by omega)
  · obtain ⟨b₁, _, h₁, ⟨b₂, _, h₂, ⟨b₃, _, h₃, rfl, rfl⟩, rfl⟩, rfl⟩ := hranges
    simp only [codeFrom, List.foldl_cons, List.foldl_nil] at hcode
    exact encode_four (by omega) (by omega) (by omega) (by omega) (by omega)

/-- The first byte of a character announces the others. -/
theorem announces_of_encode {b : UInt8} {bytes : List UInt8} {c : Char}
    (h : String.utf8EncodeChar c = b :: bytes) : Announces b bytes c.toNat := by
  have hvalid : c.toNat < 0xD800 ∨ 0xDFFF < c.toNat ∧ c.toNat < 0x110000 := c.valid
  obtain ⟨v, hv⟩ : ∃ v, v = c.toNat := ⟨_, rfl⟩
  have hval : c.val.toNat = v := hv.symm
  rw [← hv] at hvalid ⊢
  unfold String.utf8EncodeChar at h
  dsimp only at h
  rw [hval] at h
  unfold Announces
  simp only [Lead.ofByte?_eq_some_iff]
  split at h
  · cases h
    refine ⟨_, Or.inl ⟨?_, rfl⟩, .nil, ?_⟩ <;>
      simp only [codeFrom, List.foldl_nil, UInt8.toNat_ofNat'] <;> omega
  split at h
  · cases h
    refine ⟨_, Or.inr (Or.inl ⟨?_, rfl⟩), ?_, ?_⟩ <;>
      simp only [codeFrom, List.forall₂_cons, List.Forall₂.nil, and_true, inRange_tail_iff,
        List.foldl_cons, List.foldl_nil, UInt8.toNat_ofNat'] <;>
      omega
  split at h
  · cases h
    refine ⟨_, Or.inr (Or.inr (Or.inl ⟨?_, rfl⟩)), ?_, ?_⟩ <;>
      simp only [codeFrom, List.forall₂_cons, List.Forall₂.nil, and_true, inRange_second_iff,
        inRange_tail_iff, List.foldl_cons, List.foldl_nil, UInt8.toNat_ofNat'] <;>
      omega
  · cases h
    refine ⟨_, Or.inr (Or.inr (Or.inr ⟨?_, rfl⟩)), ?_, ?_⟩ <;>
      simp only [codeFrom, List.forall₂_cons, List.Forall₂.nil, and_true, inRange_second_iff,
        inRange_tail_iff, List.foldl_cons, List.foldl_nil, UInt8.toNat_ofNat'] <;>
      omega

/-! ## A whole text -/

section Text

variable {b : UInt8} {rest more : List UInt8} {accepted : Nat}

/-- What is read at a first byte is a character that starts with it. -/
theorem encode_of_follow {lead : Lead} {code : Nat} (hlead : Lead.ofByte? b.toNat = some lead)
    (hfollow : follow lead.bits accepted lead.ranges rest = .complete code more) :
    b :: rest = String.utf8EncodeChar (Char.ofNat code) ++ more := by
  obtain ⟨bytes, rfl, hranges, hcode⟩ := follow_eq_complete_iff.mp hfollow
  have hannounces : Announces b bytes code := ⟨lead, hlead, hranges, hcode⟩
  rw [hannounces.encode, List.cons_append]

/-- A character is read at its first byte. -/
theorem follow_of_encode {c : Char} (h : b :: rest = String.utf8EncodeChar c ++ more) :
    ∃ lead, Lead.ofByte? b.toNat = some lead ∧
      follow lead.bits accepted lead.ranges rest = .complete c.toNat more := by
  cases hc : String.utf8EncodeChar c with
  | nil => exact absurd hc String.utf8EncodeChar_ne_nil
  | cons b' bytes =>
      rw [hc] at h
      obtain ⟨rfl, rfl⟩ := List.cons.inj h
      obtain ⟨lead, hlead, hranges, hcode⟩ := announces_of_encode hc
      exact ⟨lead, hlead, follow_eq_complete_iff.mpr ⟨bytes, rfl, hranges, hcode⟩⟩

/-- The characters that are read are those whose bytes are there. -/
theorem decodeFrom_eq_ok_iff {index : Nat} {before : List Char} {bs : List UInt8}
    {cs : List Char} :
    decodeFrom index before bs = .ok cs ↔
      ∃ text, cs = before.reverse ++ text ∧ bs = text.flatMap String.utf8EncodeChar := by
  constructor
  · intro h
    fun_induction decodeFrom index before bs with
    | case1 index before =>
        cases h
        exact ⟨[], (List.append_nil _).symm, rfl⟩
    | case3 index before b rest lead hlead code more hfollow hmore ih =>
        obtain ⟨text, rfl, rfl⟩ := ih h
        refine ⟨Char.ofNat code :: text, ?_, ?_⟩
        · rw [List.reverse_cons, List.append_assoc, List.singleton_append]
        · rw [List.flatMap_cons]
          exact encode_of_follow hlead hfollow
    | case2 | case4 | case5 => cases h
  · rintro ⟨text, rfl, rfl⟩
    induction text generalizing index before with
    | nil => rw [List.flatMap_nil, decodeFrom, List.append_nil]
    | cons c text ih =>
        cases hc : (c :: text).flatMap String.utf8EncodeChar with
        | nil =>
            rw [List.flatMap_cons, List.append_eq_nil_iff] at hc
            exact absurd hc.1 String.utf8EncodeChar_ne_nil
        | cons b rest =>
            rw [List.flatMap_cons] at hc
            obtain ⟨lead, hlead, hfollow⟩ := @follow_of_encode _ _ _ 1 _ hc.symm
            rw [decodeFrom]
            simp only [hlead]
            split <;> rename_i hstep <;> cases hstep.symm.trans hfollow
            rw [Char.ofNat_toNat, ih, List.reverse_cons, List.append_assoc, List.singleton_append]

/-- Bytes are read as a text exactly if they are the encoding of that text. -/
theorem decode_eq_ok_iff {bs : List UInt8} {s : String} : decode bs = .ok s ↔ bs = encode s := by
  unfold decode encode
  constructor
  · intro h
    cases hcs : decodeFrom 0 [] bs with
    | error e => rw [hcs] at h; cases h
    | ok cs =>
        rw [hcs] at h
        cases h
        obtain ⟨text, rfl, hbs⟩ := decodeFrom_eq_ok_iff.mp hcs
        rw [hbs, String.toList_ofList]
  · intro h
    rw [decodeFrom_eq_ok_iff.mpr ⟨s.toList, rfl, h⟩]
    exact congrArg Except.ok String.ofList_toList

end Text

end MutantGate.Utf8
