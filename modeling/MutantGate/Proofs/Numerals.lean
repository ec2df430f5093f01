import Mathlib.Data.List.Basic
import Mathlib.Tactic.Ring
import MutantGate.Json.Token
import MutantGate.Number.Layout
/-!
# Numerals read back

The digits of a number denote it, and its first digit is zero only if the number is.  So the
numerals of integers and the layouts of single-precision numbers keep to the grammar of JSON
numbers, and every numeral that does is read again from its characters, provided that what
follows them does not go on with the number.

## What is proved

`number?_append` reads every numeral of the grammar back, and the writers write no others:
`isGrammatical_ofInt` for integers, `isGrammatical_of_numeral?` for numbers of single precision.

## What is left outside

Which number a numeral is read as, which is the matter of `Proofs.ReadNumerals` and
`Proofs.ReadBack`.
-/

namespace MutantGate

/-! ## Digits -/

theorem Digit.ofChar?_char (d : Digit) : Digit.ofChar? d.char = some d := by
  revert d
  decide

namespace Decimal

theorem foldl_digits (n : Nat) (ds : List Digit) :
    ds.foldl (fun n d => 10 * n + d.val) n = n * 10 ^ ds.length + value ds := by
  induction ds generalizing n with
  | nil => simp [value]
  | cons d ds ih =>
      simp only [value, List.foldl_cons, List.length_cons]
      rw [ih, ih (10 * 0 + d.val), Nat.pow_succ]
      ring

theorem value_append (ds ds' : List Digit) :
    value (ds ++ ds') = value ds * 10 ^ ds'.length + value ds' :=
  List.foldl_append.trans (foldl_digits ..)

theorem value_cons (d : Digit) (ds : List Digit) :
    value (d :: ds) = d.val * 10 ^ ds.length + value ds := by
  have hsingle : value [d] = d.val := by simp [value]
  rw [← List.singleton_append, value_append, hsingle]

theorem value_append_singleton (ds : List Digit) (d : Digit) :
    value (ds ++ [d]) = 10 * value ds + d.val := by
  simp [value]

theorem value_replicate_zero (n : Nat) : value (List.replicate n Digit.zero) = 0 := by
  induction n with
  | zero => rfl
  | succ n ih => rw [List.replicate_succ, value_cons, ih, Digit.zero, Nat.zero_mul]

/-- A number has fewer places than its digits have. -/
theorem value_lt (ds : List Digit) : value ds < 10 ^ ds.length := by
  induction ds with
  | nil => exact Nat.one_pos
  | cons d ds ih =>
      have hd : d.val * 10 ^ ds.length ≤ 9 * 10 ^ ds.length :=
        Nat.mul_le_mul_right _ (Nat.le_of_lt_succ d.isLt)
      rw [value_cons, List.length_cons, Nat.pow_succ]
      omega

theorem value_digits (n : Nat) : value (digits n) = n := by
  induction n using digits.induct with
  | case1 n hn =>
      rw [digits, if_pos hn]
      simp [value, Nat.mod_eq_of_lt hn]
  | case2 n hn ih =>
      rw [digits, if_neg hn, value_append_singleton, ih, Fin.val_ofNat]
      omega

theorem digits_ne_nil (n : Nat) : digits n ≠ [] := by
  rw [digits]
  split <;> simp

/-- The digits of a number are no more than it needs. -/
theorem pow_length_digits_le {n : Nat} (hn : 0 < n) : 10 ^ (digits n).length ≤ 10 * n := by
  induction n using digits.induct with
  | case1 n h =>
      rw [digits, if_pos h, List.length_singleton]
      omega
  | case2 n h ih =>
      have := ih (by omega)
      rw [digits, if_neg h, List.length_append, List.length_singleton, Nat.pow_succ]
      omega

/-- Only zero has a leading zero. -/
theorem eq_zero_of_digits_eq_cons_zero {n : Nat} {ds : List Digit}
    (h : digits n = Digit.zero :: ds) : n = 0 := by
  induction n using digits.induct generalizing ds with
  | case1 n hn =>
      rw [digits, if_pos hn] at h
      have hzero : n % 10 = 0 := congrArg Fin.val (List.cons.inj h).1
      omega
  | case2 n hn ih =>
      rw [digits, if_neg hn] at h
      obtain ⟨d, ds', hds⟩ := List.exists_cons_of_ne_nil (digits_ne_nil (n / 10))
      rw [hds, List.cons_append] at h
      obtain ⟨rfl, -⟩ := List.cons.inj h
      have := ih hds
      omega

theorem digits_zero : digits 0 = [Digit.zero] := by
  rw [digits, if_pos (by decide)]
  rfl

/-- A run of digits ends where no further digit follows. -/
theorem span_append {rest : List Char} (hrest : ∀ c ∈ rest.head?, Digit.ofChar? c = none)
    (ds : List Digit) : span (ds.map Digit.char ++ rest) = (ds, rest) := by
  induction ds with
  | nil =>
      cases rest with
      | nil => rfl
      | cons c rest =>
          simp only [List.map_nil, List.nil_append, span, hrest c List.head?_cons]
  | cons d ds ih => simp only [List.map_cons, List.cons_append, span, Digit.ofChar?_char, ih]

end Decimal

/-! ## Numerals that keep to the grammar -/

namespace Numeral

/-- There is a whole part, which has a leading zero only if it is zero, and behind a point and
behind an exponent mark there are digits. -/
structure IsGrammatical (n : Numeral) : Prop where
  whole : n.whole ≠ []
  leading : ∀ ds, n.whole = Digit.zero :: ds → ds = []
  fraction : n.fraction ≠ some []
  exponent : ∀ e ∈ n.exponent, e.2 ≠ []

theorem leading_digits (n : Nat) (ds : List Digit) (h : Decimal.digits n = Digit.zero :: ds) :
    ds = [] := by
  obtain rfl := Decimal.eq_zero_of_digits_eq_cons_zero h
  exact (List.cons.inj (Decimal.digits_zero.symm.trans h)).2.symm

theorem isGrammatical_ofNat (n : Nat) : (ofNat n).IsGrammatical :=
  ⟨Decimal.digits_ne_nil n, leading_digits n, nofun, nofun⟩

theorem isGrammatical_ofInt (i : Int) : (ofInt i).IsGrammatical :=
  ⟨Decimal.digits_ne_nil _, leading_digits _, nofun, nofun⟩

theorem toInt?_ofNat (n : Nat) : (ofNat n).toInt? = some (n : Int) :=
  congrArg (fun n : Nat => some (n : Int)) (Decimal.value_digits n)

theorem toInt?_ofInt (i : Int) : (ofInt i).toInt? = some i := by
  by_cases hi : i < 0
  · have habs : i.natAbs ≠ 0 := by omega
    simp only [ofInt, hi, decide_true, toInt?, Decimal.value_digits, habs, if_false]
    exact congrArg some (by omega)
  · simp only [ofInt, hi, decide_false, toInt?, Decimal.value_digits]
    exact congrArg some (by omega)

end Numeral

/-! ## Laid out numbers -/

namespace RoundingInterval

/-- Zero is not inside an interval of positive numbers. -/
theorem holds_zero {i : RoundingInterval} (h : 0 < i.low) : i.holds 0 = false := by
  unfold holds
  split
  · simp only [Nat.zero_mul, Bool.and_eq_false_imp, decide_eq_true_eq]
    omega
  · simp

theorem holds_of_neighbour? {tie : Tie} {i : RoundingInterval} {d : Nat}
    (h : i.neighbour? tie = some d) : i.holds d = true := by
  unfold neighbour? at h
  grind

theorem inUnits_low_pos {i : RoundingInterval} (h : 0 < i.low) (k : Int) :
    0 < (i.inUnits k).low := by
  unfold inUnits
  split
  · exact h
  · exact Nat.mul_pos h (Nat.pow_pos (by decide))

end RoundingInterval

namespace Binary32

theorem interval_low_pos {m : Nat} (hm : m ≠ 0) (e : Int) : 0 < (interval m e).low := by
  have hgap : 0 < 4 * m - (if m = 0x800000 ∧ -149 < e then 1 else 2) := by
    split <;> omega
  rw [interval, Nat.shiftLeft_eq, Nat.one_mul]
  exact Nat.mul_pos hgap (Nat.pow_pos (by decide))

/-- The shortest decimal has a significand, unless it is the one with exponent zero. -/
theorem shortest_ne_zero {m : Nat} (hm : m ≠ 0) {e k : Int} {d : Nat} {tie : Tie}
    (h : shortest tie m e = (d, k)) : d ≠ 0 ∨ k = 0 := by
  unfold shortest at h
  cases hfound : grids.findSome? fun k =>
      (((interval m e).inUnits k).neighbour? tie).map fun d => (d, k) with
  | none =>
      simp only [hfound, Option.getD_none] at h
      exact .inr (Prod.mk.inj h).2.symm
  | some p =>
      simp only [hfound, Option.getD_some] at h
      obtain ⟨k', -, hk'⟩ := List.exists_of_findSome?_eq_some hfound
      obtain ⟨d', hd', rfl⟩ := Option.map_eq_some_iff.mp hk'
      obtain ⟨rfl, rfl⟩ := Prod.mk.inj h
      have hin := RoundingInterval.holds_of_neighbour? hd'
      refine .inl fun hzero => ?_
      rw [hzero, RoundingInterval.holds_zero
        (RoundingInterval.inUnits_low_pos (interval_low_pos hm e) k')] at hin
      exact absurd hin (by decide)

end Binary32

namespace Layout

/-- In positional notation there are digits on both sides of the point. -/
theorem positional_ne_nil {ds : List Digit} (hne : ds ≠ []) (x : Int) :
    (positional ds x).1 ≠ [] ∧ (positional ds x).2 ≠ [] := by
  unfold positional
  split
  · simp [hne]
  · refine ⟨by simp [hne], ?_⟩
    dsimp only
    split
    · simp
    · next h => exact fun hnil => h (by rw [hnil]; rfl)

/-- A zero in front stays alone if it stands for the units. -/
theorem positional_leading {ds ds' : List Digit} {x : Int}
    (hzero : ∀ ds', ds = Digit.zero :: ds' → ds' = [] ∧ x = 0) (hne : ds ≠ [])
    (h : (positional ds x).1 = Digit.zero :: ds') : ds' = [] := by
  obtain ⟨d, ds, rfl⟩ := List.exists_cons_of_ne_nil hne
  unfold positional at h
  split at h
  · exact (List.cons.inj h).2.symm
  · dsimp only at h
    rw [List.take_succ_cons, List.cons_append] at h
    obtain ⟨rfl, htail⟩ := List.cons.inj h
    obtain ⟨rfl, rfl⟩ := hzero ds rfl
    exact htail.symm

/-- Digits of which only a zero for the units may start with zero are laid out by the grammar. -/
theorem isGrammatical_arrange (l : Layout) (isNegative : Bool) {ds : List Digit} {x : Int}
    (hne : ds ≠ []) (hzero : ∀ ds', ds = Digit.zero :: ds' → ds' = [] ∧ x = 0) :
    (l.arrange isNegative ds x).IsGrammatical := by
  unfold arrange
  split
  · obtain ⟨hwhole, hfraction⟩ := positional_ne_nil hne x
    exact ⟨hwhole, fun ds' h => positional_leading hzero hne h,
      fun h => hfraction (Option.some.inj h), nofun⟩
  · obtain ⟨d, ds, rfl⟩ := List.exists_cons_of_ne_nil hne
    refine ⟨by simp, by simp, ?_, ?_⟩
    · dsimp only
      split
      · exact nofun
      · next h =>
          rintro hnil
          obtain rfl : ds = [] := Option.some.inj hnil
          exact h (Nat.le_refl 1)
    · rintro e ⟨⟩
      exact Decimal.digits_ne_nil _

theorem isGrammatical_of_numeral? {l : Layout} {x : Binary32} {n : Numeral}
    (h : l.numeral? x = some n) : n.IsGrammatical := by
  unfold numeral? at h
  split at h
  · obtain rfl := Option.some.inj h
    exact ⟨by simp, by simp, by simp, nofun⟩
  · next m e hm _ =>
      rcases hshortest : Binary32.shortest l.tie m e with ⟨d, k⟩
      rw [hshortest] at h
      obtain rfl := Option.some.inj h
      refine isGrammatical_arrange l _ (Decimal.digits_ne_nil d) fun ds' hds => ?_
      obtain rfl := Decimal.eq_zero_of_digits_eq_cons_zero hds
      obtain hd | rfl := Binary32.shortest_ne_zero (fun hzero => hm hzero) hshortest
      · exact absurd rfl hd
      · rw [Decimal.digits_zero] at hds ⊢
        exact ⟨(List.cons.inj hds).2.symm, rfl⟩
  · cases h

end Layout

/-! ## Reading a numeral -/

namespace Json

open Decimal Numeral

variable {rest : List Char}

/-- What comes next does not go on with a number. -/
def EndsNumber (rest : List Char) : Prop :=
  ∀ c ∈ rest.head?, Digit.ofChar? c = none ∧ c ≠ '.' ∧ c ≠ 'e' ∧ c ≠ 'E'

theorem wholePart?_append {ds : List Digit} (hne : ds ≠ [])
    (hleading : ∀ ds', ds = Digit.zero :: ds' → ds' = [])
    (hrest : ∀ c ∈ rest.head?, Digit.ofChar? c = none) :
    wholePart? (ds.map Digit.char ++ rest) = some (ds, rest) := by
  simp only [wholePart?, span_append hrest]
  match ds, hne, hleading with
  | [d], _, _ => rfl
  | d :: e :: ds, _, hleading =>
      have hd : d ≠ Digit.zero := fun hd => absurd (hleading (e :: ds) (by rw [hd])) (by simp)
      simp only [hd, if_false]

theorem fraction?_append {f : Option (List Digit)} (hne : f ≠ some [])
    (hrest : ∀ c ∈ rest.head?, Digit.ofChar? c = none ∧ c ≠ '.') :
    fraction? (fractionChars f ++ rest) = some (f, rest) := by
  match f, hne with
  | none, _ =>
      unfold fraction? fractionChars
      split
      · next r h => exact absurd rfl (hrest '.' (congrArg List.head? h)).2
      · rfl
  | some (d :: ds), _ =>
      simp only [fractionChars, List.cons_append, fraction?,
        span_append fun c hc => (hrest c hc).1]

theorem exponentSign_digits {ds : List Digit} (hne : ds ≠ []) :
    exponentSign (ds.map Digit.char ++ rest) = (.implicit, ds.map Digit.char ++ rest) := by
  obtain ⟨d, ds, rfl⟩ := List.exists_cons_of_ne_nil hne
  have hsigns : ∀ d : Digit, d.char ≠ '+' ∧ d.char ≠ '-' := by decide
  unfold exponentSign
  split
  · next h => exact absurd (List.cons.inj h).1 (hsigns d).1
  · next h => exact absurd (List.cons.inj h).1 (hsigns d).2
  · rfl

theorem exponent?_append {e : Option (ExponentSign × List Digit)} (hne : ∀ p ∈ e, p.2 ≠ [])
    (hrest : EndsNumber rest) : exponent? (exponentChars e ++ rest) = some (e, rest) := by
  match e, hne with
  | none, _ =>
      cases rest with
      | nil => rfl
      | cons c rest =>
          obtain ⟨-, -, he, hE⟩ := hrest c rfl
          simp only [exponentChars, List.nil_append, exponent?, he, hE, or_self, if_false]
  | some (sign, ds), hne =>
      have hds : ds ≠ [] := hne (sign, ds) rfl
      have hspan := span_append (fun c hc => (hrest c hc).1) ds
      obtain ⟨d, ds, rfl⟩ := List.exists_cons_of_ne_nil hds
      cases sign with
      | implicit =>
          simp only [exponentChars, List.cons_append, exponent?, true_or, if_true,
            exponentSign_digits hds, hspan]
      | plus | minus =>
          simp only [exponentChars, List.cons_append, exponent?, true_or, if_true, exponentSign,
            hspan]

/-- What stands behind a whole part and a fraction is neither digit nor point. -/
theorem exponentChars_head (e : Option (ExponentSign × List Digit)) (hrest : EndsNumber rest) :
    ∀ c ∈ (exponentChars e ++ rest).head?, Digit.ofChar? c = none ∧ c ≠ '.' := by
  match e with
  | none => exact fun c hc => ⟨(hrest c hc).1, (hrest c hc).2.1⟩
  | some (.implicit, ds) | some (.plus, ds) | some (.minus, ds) =>
      rintro c ⟨⟩
      decide

/-- What stands behind a whole part is no digit. -/
theorem fractionChars_head (f : Option (List Digit)) (e : Option (ExponentSign × List Digit))
    (hrest : EndsNumber rest) :
    ∀ c ∈ (fractionChars f ++ (exponentChars e ++ rest)).head?, Digit.ofChar? c = none := by
  match f with
  | none => exact fun c hc => (exponentChars_head e hrest c hc).1
  | some ds =>
      rintro c ⟨⟩
      decide

/-- A numeral that keeps to the grammar is read from its characters. -/
theorem number?_append {n : Numeral} (hn : n.IsGrammatical) (hrest : EndsNumber rest) :
    number? (n.chars ++ rest) = some (n, rest) := by
  have hunsigned : unsigned? n.isNegative (n.whole.map Digit.char ++
      (fractionChars n.fraction ++ (exponentChars n.exponent ++ rest))) = some (n, rest) := by
    simp only [unsigned?, wholePart?_append hn.whole hn.leading
        (fractionChars_head n.fraction n.exponent hrest),
      fraction?_append hn.fraction (exponentChars_head n.exponent hrest),
      exponent?_append hn.exponent hrest, Option.bind_eq_bind, Option.bind_some]
  obtain ⟨d, ds, hwhole⟩ := List.exists_cons_of_ne_nil hn.whole
  have hsign : ∀ d : Digit, d.char ≠ '-' := by decide
  unfold number? Numeral.chars
  simp only [List.append_assoc]
  cases hneg : n.isNegative with
  | true => rwa [hneg] at hunsigned
  | false =>
      simp only [Bool.false_eq_true, if_false, List.nil_append]
      split
      · next h =>
          rw [hwhole] at h
          exact absurd (List.cons.inj h).1 (hsign d)
      · rwa [hneg] at hunsigned

end Json

end MutantGate
