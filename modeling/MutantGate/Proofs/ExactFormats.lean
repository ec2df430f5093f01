import Mathlib.Algebra.Order.Ring.Nat
import Mathlib.Data.List.Nodup
import MutantGate.Binary.Format
import MutantGate.Proofs.Utf8
/-!
# Exact formats

A format is exact on the values with a property if reading is the inverse of writing there:
such a value is read where it has been written, with what follows it, and whatever is read is
such a value and is what would be written in its place.  Every way of putting formats together
keeps them exact.  The only property that values need is that lengths fit into the eight bytes
that are kept for them.

## What is proved

Every format of `Binary.Format` is exact, and so is what is put together from exact formats: pairs,
lists, texts, choices, and values in place of other values.  `Proofs.BinaryModules` puts these
together for modules.
-/

namespace MutantGate.Binary.Format

theorem bind_eq_ok {ε γ δ : Type} {x : Except ε γ} {k : γ → Except ε δ} {d : δ} :
    (x >>= k) = .ok d ↔ ∃ c, x = .ok c ∧ k c = .ok d := by
  cases x with
  | error e => exact ⟨nofun, nofun⟩
  | ok c => exact ⟨fun h => ⟨c, rfl, h⟩, fun ⟨c', hc, h⟩ => Except.ok.inj hc ▸ h⟩

theorem map_eq_ok {ε γ δ : Type} {x : Except ε γ} {k : γ → δ} {d : δ} :
    x.map k = .ok d ↔ ∃ c, x = .ok c ∧ k c = d := by
  cases x with
  | error e => exact ⟨nofun, nofun⟩
  | ok c => simp [Except.map]

/-- A format reads exactly what it writes, for the values with a property, and reads no
other values. -/
def ExactOn {α : Type} (f : Format α) (P : α → Prop) : Prop :=
  ∀ bs a rest, f.read bs = .ok (a, rest) ↔ P a ∧ bs = f.write a ++ rest

/-- A format is exact on all values. -/
def Exact {α : Type} (f : Format α) : Prop := f.ExactOn fun _ => True

section

variable {α β : Type} {f : Format α} {g : Format β} {P Q : α → Prop} {R : β → Prop}

theorem ExactOn.read_append (h : f.ExactOn P) {a : α} (ha : P a) (rest : List UInt8) :
    f.read (f.write a ++ rest) = .ok (a, rest) :=
  (h _ _ _).mpr ⟨ha, rfl⟩

theorem Exact.read_append (h : f.Exact) (a : α) (rest : List UInt8) :
    f.read (f.write a ++ rest) = .ok (a, rest) :=
  ExactOn.read_append h trivial rest

theorem Exact.eq_of_read (h : f.Exact) {bs : List UInt8} {a : α} {rest : List UInt8}
    (hread : f.read bs = .ok (a, rest)) : bs = f.write a ++ rest :=
  ((h _ _ _).mp hread).2

theorem ExactOn.congr (h : f.ExactOn P) (hPQ : ∀ a, P a ↔ Q a) : f.ExactOn Q :=
  fun bs a rest => (h bs a rest).trans (and_congr_left' (hPQ a))

/-! ## Formats put together -/

theorem ExactOn.map_read_eq_ok_iff {make : α → β} (h : f.ExactOn P) {bs : List UInt8} {b : β}
    {rest : List UInt8} :
    (f.read bs).map (fun p => (make p.1, p.2)) = .ok (b, rest) ↔
      ∃ a, P a ∧ b = make a ∧ bs = f.write a ++ rest := by
  rw [map_eq_ok]
  constructor
  · rintro ⟨⟨a, rest'⟩, ha, heq⟩
    obtain ⟨hP, rfl⟩ := (h _ _ _).mp ha
    cases heq
    exact ⟨a, hP, rfl, rfl⟩
  · rintro ⟨a, hP, rfl, rfl⟩
    exact ⟨(a, rest), h.read_append hP rest, rfl⟩

theorem ExactOn.convert {view : β → α} {make : α → β} (h : f.ExactOn P)
    (hmake : ∀ b, make (view b) = b) (hview : ∀ a, P a → view (make a) = a) :
    (f.convert view make).ExactOn fun b => P (view b) := by
  intro bs b rest
  refine h.map_read_eq_ok_iff.trans ⟨?_, ?_⟩
  · rintro ⟨a, hP, rfl, rfl⟩
    show P (view (make a)) ∧ f.write a ++ rest = f.write (view (make a)) ++ rest
    rw [hview a hP]
    exact ⟨hP, rfl⟩
  · rintro ⟨hP, rfl⟩
    exact ⟨view b, hP, (hmake b).symm, rfl⟩

theorem ExactOn.both (hf : f.ExactOn P) (hg : g.ExactOn R) :
    (f.both g).ExactOn fun p => P p.1 ∧ R p.2 := by
  rintro bs ⟨a, b⟩ rest
  constructor
  · intro hread
    obtain ⟨⟨a', bs₁⟩, ha, hread⟩ := bind_eq_ok.mp hread
    obtain ⟨⟨b', bs₂⟩, hb, hread⟩ := bind_eq_ok.mp hread
    cases hread
    obtain ⟨hP, rfl⟩ := (hf _ _ _).mp ha
    obtain ⟨hR, rfl⟩ := (hg _ _ _).mp hb
    exact ⟨⟨hP, hR⟩, (List.append_assoc ..).symm⟩
  · rintro ⟨⟨hP, hR⟩, rfl⟩
    refine bind_eq_ok.mpr ⟨(a, g.write b ++ rest), ?_, ?_⟩
    · rw [← hf.read_append hP, Format.both, List.append_assoc]
    · exact bind_eq_ok.mpr ⟨(b, rest), hg.read_append hR rest, rfl⟩

end

/-! ## Numbers -/

theorem toNat_toUInt8 (n : Nat) : n.toUInt8.toNat = n % 256 :=
  UInt8.toNat_ofNat'

theorem fixed_exactOn (width : Nat) : (fixed width).ExactOn (· < 256 ^ width) := by
  intro bs n rest
  show readLittleEndian width bs = .ok (n, rest) ↔
    n < 256 ^ width ∧ bs = littleEndian width n ++ rest
  induction width generalizing n bs rest with
  | zero =>
      simp only [readLittleEndian, littleEndian, Except.ok.injEq, Prod.mk.injEq, Nat.pow_zero,
        Nat.lt_one_iff, List.nil_append]
      exact and_congr_left' eq_comm
  | succ width ih =>
      cases bs with
      | nil => exact ⟨nofun, fun h => nomatch h.2⟩
      | cons b bs =>
          have hb := b.toNat_lt
          constructor
          · intro h
            obtain ⟨⟨high, rest'⟩, hread, heq⟩ := map_eq_ok.mp h
            obtain ⟨hhigh, rfl⟩ := (ih _ _ _).mp hread
            cases heq
            refine ⟨by rw [Nat.pow_succ]; omega, List.cons_eq_cons.mpr ⟨?_, ?_⟩⟩
            · rw [← UInt8.toNat_inj, toNat_toUInt8]
              omega
            · rw [Nat.add_mul_div_left _ _ (by decide), Nat.div_eq_of_lt hb, Nat.zero_add]
              rfl
          · rintro ⟨hn, heq⟩
            obtain ⟨rfl, rfl⟩ := List.cons_eq_cons.mp heq
            have hhigh : n / 256 < 256 ^ width := by
              rw [Nat.pow_succ] at hn
              omega
            refine map_eq_ok.mpr ⟨(n / 256, rest), (ih _ _ _).mpr ⟨hhigh, rfl⟩, ?_⟩
            simp only [toNat_toUInt8, Nat.mod_add_div]

theorem byte_exact : byte.Exact :=
  ((fixed_exactOn 1).convert (fun _ => UInt8.ofNat_toNat) fun n hn => by
    rw [toNat_toUInt8]
    omega).congr fun b => iff_true_intro b.toNat_lt

theorem word32_exact : word32.Exact :=
  ((fixed_exactOn 4).convert (fun _ => UInt32.ofNat_toNat) fun _ hn =>
    UInt32.toNat_ofNat_of_lt' hn).congr fun w => iff_true_intro w.toNat_lt

theorem word64_exact : word64.Exact :=
  ((fixed_exactOn 8).convert (fun _ => UInt64.ofNat_toNat) fun _ hn =>
    UInt64.toNat_ofNat_of_lt' hn).congr fun w => iff_true_intro w.toNat_lt

theorem byte_write (b : UInt8) : byte.write b = [b] :=
  congrArg (fun b => [b]) UInt8.ofNat_toNat

theorem byte_read_cons (b : UInt8) (rest : List UInt8) :
    byte.read (b :: rest) = .ok (b, rest) := by
  rw [← byte_exact.read_append, byte_write, List.singleton_append]

/-! ## Truth values, optional values, choices -/

section

variable {α β : Type} {f : Format α} {P : α → Prop}

theorem truth_exact : truth.Exact := by
  intro bs t rest
  constructor
  · intro hread
    obtain ⟨⟨b, bs'⟩, hb, hread⟩ := bind_eq_ok.mp hread
    rw [byte_exact.eq_of_read hb, byte_write]
    dsimp only at hread
    split_ifs at hread with h₀ h₁ <;> cases hread
    · exact ⟨trivial, by rw [h₀]; rfl⟩
    · exact ⟨trivial, by rw [h₁]; rfl⟩
  · rintro ⟨-, rfl⟩
    cases t with
    | false => exact bind_eq_ok.mpr ⟨_, byte_read_cons 0 rest, rfl⟩
    | true => exact bind_eq_ok.mpr ⟨_, byte_read_cons 1 rest, rfl⟩

theorem ExactOn.optional (h : f.ExactOn P) : (optional f).ExactOn fun o => ∀ a ∈ o, P a := by
  intro bs o rest
  constructor
  · intro hread
    obtain ⟨⟨b, bs'⟩, hb, hread⟩ := bind_eq_ok.mp hread
    rw [byte_exact.eq_of_read hb, byte_write]
    dsimp only at hread
    split_ifs at hread with h₀ h₁
    · cases hread
      exact ⟨nofun, by rw [h₀]; rfl⟩
    · obtain ⟨⟨a, bs''⟩, ha, hread⟩ := bind_eq_ok.mp hread
      cases hread
      obtain ⟨hP, rfl⟩ := (h _ _ _).mp ha
      exact ⟨by rintro _ ⟨⟩; exact hP, by rw [h₁]; rfl⟩
  · rintro ⟨hP, rfl⟩
    cases o with
    | none => exact bind_eq_ok.mpr ⟨_, byte_read_cons 0 rest, rfl⟩
    | some a =>
        refine bind_eq_ok.mpr ⟨_, byte_read_cons 1 (f.write a ++ rest), ?_⟩
        exact bind_eq_ok.mpr ⟨_, h.read_append (hP a rfl) rest, rfl⟩

theorem choice_exactOn {count : Nat} (hcount : count ≤ 256 ^ 4) :
    (choice count).ExactOn (· < count) := by
  intro bs n rest
  constructor
  · intro hread
    obtain ⟨⟨n', bs'⟩, hn, hread⟩ := bind_eq_ok.mp hread
    dsimp only at hread
    split_ifs at hread with hlt
    cases hread
    exact ⟨hlt, ((fixed_exactOn 4 _ _ _).mp hn).2⟩
  · rintro ⟨hlt, rfl⟩
    have hfits := Nat.lt_of_lt_of_le hlt hcount
    refine bind_eq_ok.mpr ⟨_, (fixed_exactOn 4).read_append hfits rest, ?_⟩
    exact if_pos hlt

/-- What stands behind the number of an alternative is read as this alternative. -/
theorem ExactOn.read_behind {count n : Nat} {make : α → β}
    {next : Nat × List UInt8 → Except Fault (β × List UInt8)}
    (hchoice : (choice count).ExactOn (· < count)) (hn : n < count) (h : f.Exact)
    (hnext : ∀ bs, next (n, bs) = (f.read bs).map fun p => (make p.1, p.2))
    (a : α) (rest : List UInt8) :
    ((choice count).read ((choice count).write n ++ f.write a ++ rest) >>= next) =
      .ok (make a, rest) := by
  rw [List.append_assoc]
  refine bind_eq_ok.mpr ⟨_, hchoice.read_append hn _, ?_⟩
  rw [hnext]
  exact h.map_read_eq_ok_iff.mpr ⟨a, trivial, rfl, rfl⟩

theorem oneOf_exact [BEq α] [LawfulBEq α] {all : List α} (hlength : all.length ≤ 256 ^ 4)
    (hnodup : all.Nodup) (hall : ∀ a, a ∈ all) : (oneOf all).Exact := by
  intro bs a rest
  constructor
  · intro hread
    obtain ⟨⟨n, bs'⟩, hn, hitem⟩ := bind_eq_ok.mp hread
    obtain ⟨hlt, rfl⟩ := (choice_exactOn hlength _ _ _).mp hn
    dsimp only at hitem
    rw [List.getElem?_eq_getElem hlt] at hitem
    cases hitem
    refine ⟨trivial, ?_⟩
    show _ = (choice all.length).write (all.idxOf all[n]) ++ _
    rw [hnodup.idxOf_getElem]
  · rintro ⟨-, rfl⟩
    have hlt : all.idxOf a < all.length := List.idxOf_lt_length_iff.mpr (hall a)
    refine bind_eq_ok.mpr ⟨_, (choice_exactOn hlength).read_append hlt rest, ?_⟩
    dsimp only
    rw [List.getElem?_eq_getElem hlt, List.getElem_idxOf]

/-! ## Lists and texts -/

theorem ExactOn.readMany_eq_ok_iff (h : f.ExactOn P) {n : Nat} {bs : List UInt8}
    {items : List α} {rest : List UInt8} :
    readMany f n bs = .ok (items, rest) ↔
      items.length = n ∧ (∀ a ∈ items, P a) ∧ bs = items.flatMap f.write ++ rest := by
  induction n generalizing bs items rest with
  | zero =>
      constructor
      · rintro ⟨⟩
        exact ⟨rfl, nofun, rfl⟩
      · rintro ⟨hlength, -, rfl⟩
        rw [List.eq_nil_of_length_eq_zero hlength]
        rfl
  | succ n ih =>
      constructor
      · intro hread
        rw [readMany] at hread
        split at hread
        · cases hread
        · rename_i a bs' ha
          obtain ⟨⟨items', rest'⟩, hitems, heq⟩ := map_eq_ok.mp hread
          obtain ⟨hP, rfl⟩ := (h _ _ _).mp ha
          obtain ⟨hlength, hall, rfl⟩ := ih.mp hitems
          cases heq
          refine ⟨congrArg (· + 1) hlength, List.forall_mem_cons.mpr ⟨hP, hall⟩, ?_⟩
          rw [List.flatMap_cons, List.append_assoc]
      · rintro ⟨hlength, hall, rfl⟩
        cases items with
        | nil => cases hlength
        | cons a items =>
            obtain ⟨hP, hall⟩ := List.forall_mem_cons.mp hall
            rw [readMany, List.flatMap_cons, List.append_assoc, h.read_append hP]
            exact map_eq_ok.mpr ⟨_, ih.mpr ⟨Nat.succ.inj hlength, hall, rfl⟩, rfl⟩

theorem ExactOn.list (h : f.ExactOn P) :
    (list f).ExactOn fun items => items.length < 256 ^ 8 ∧ ∀ a ∈ items, P a := by
  intro bs items rest
  constructor
  · intro hread
    obtain ⟨⟨n, bs'⟩, hn, hitems⟩ := bind_eq_ok.mp hread
    obtain ⟨hlt, rfl⟩ := (fixed_exactOn 8 _ _ _).mp hn
    obtain ⟨rfl, hall, rfl⟩ := h.readMany_eq_ok_iff.mp hitems
    refine ⟨⟨hlt, hall⟩, ?_⟩
    rw [Format.list, List.append_assoc]
  · rintro ⟨⟨hlt, hall⟩, rfl⟩
    refine bind_eq_ok.mpr ⟨(items.length, items.flatMap f.write ++ rest), ?_, ?_⟩
    · rw [← (fixed_exactOn 8).read_append hlt, Format.list, List.append_assoc]
    · exact h.readMany_eq_ok_iff.mpr ⟨rfl, hall, rfl⟩

theorem text_exactOn : text.ExactOn fun s => (Utf8.encode s).length < 256 ^ 8 := by
  intro bs s rest
  constructor
  · intro hread
    obtain ⟨⟨n, bs'⟩, hn, htext⟩ := bind_eq_ok.mp hread
    obtain ⟨hlt, rfl⟩ := (fixed_exactOn 8 _ _ _).mp hn
    dsimp only at htext
    split_ifs at htext with hshort
    split at htext
    · rename_i s' hs
      cases htext
      have hbytes := Utf8.decode_eq_ok_iff.mp hs
      have hlength : (Utf8.encode s).length = n := by
        rw [← hbytes, List.length_take]
        omega
      refine ⟨Nat.lt_of_le_of_lt (Nat.le_of_eq hlength) hlt, ?_⟩
      show _ = ((fixed 8).write (Utf8.encode s).length ++ Utf8.encode s) ++ bs'.drop n
      rw [hlength, ← hbytes, List.append_assoc, List.take_append_drop]
    · cases htext
  · rintro ⟨hlt, rfl⟩
    refine bind_eq_ok.mpr ⟨((Utf8.encode s).length, Utf8.encode s ++ rest), ?_, ?_⟩
    · rw [← (fixed_exactOn 8).read_append hlt, text, List.append_assoc]
    · dsimp only
      rw [if_neg (by rw [List.length_append]; omega), List.take_left, List.drop_left,
        Utf8.decode_eq_ok_iff.mpr rfl]

end

end MutantGate.Binary.Format
