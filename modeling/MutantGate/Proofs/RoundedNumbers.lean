import Mathlib.Algebra.Order.Field.Power
import Mathlib.Algebra.Order.Ring.Abs
import Mathlib.Tactic.FieldSimp
import Mathlib.Tactic.Linarith
import Mathlib.Tactic.Positivity
import Mathlib.Tactic.Ring
import MutantGate.Number.Rounding
/-!
# Rounded numbers

Rounding to a binary format is a matter of one exponent and one nearest whole number.  The
exponent is the one for which the fraction has as many bits before the point as a significand,
or the least one; so what is rounded is off by half a unit at most, a number of the format stays
as it is, and the number a fraction is rounded to is known once the fraction is known to be within
half a unit of it.

## What is proved

For every format and every positive fraction: `abs_round_sub_le` bounds the error, `Rounds.value_eq`
keeps numbers of the format, and `round_eq_of_abs_le` finds the result from its distance.

## What is left outside

Overflow: the formats here have no greatest number, and where one ends is for `Number.Reading` to
say.
-/

namespace MutantGate

/-- The rational number of a significand and an exponent. -/
def BinaryNumber.value (a : BinaryNumber) : ℚ := a.significand * 2 ^ a.exponent

theorem BinaryNumber.significand_pos {a : BinaryNumber} (h : 0 < a.value) : 0 < a.significand := by
  refine Nat.pos_of_ne_zero fun hzero => ?_
  rw [BinaryNumber.value, hzero, Nat.cast_zero, zero_mul] at h
  exact lt_irrefl _ h

/-! ## Whole numbers -/

section

variable {num den m : ℕ}

theorem div_eq_div_add_mod (hden : 0 < den) :
    (num : ℚ) / den = (num / den : ℕ) + (num % den : ℕ) / den := by
  have hq : (0 : ℚ) < den := by exact_mod_cast hden
  have hdiv : (num : ℚ) = den * (num / den : ℕ) + (num % den : ℕ) := by
    exact_mod_cast (Nat.div_add_mod num den).symm
  field_simp
  linarith

/-- The whole number below is near if the remainder is half of the denominator at most. -/
theorem abs_div_sub_le (hden : 0 < den) (h : 2 * (num % den) ≤ den) :
    |((num / den : ℕ) : ℚ) - num / den| ≤ 1 / 2 := by
  have hq : (0 : ℚ) < den := by exact_mod_cast hden
  have hnonneg : (0 : ℚ) ≤ (num % den : ℕ) / den := by positivity
  have hhalf : ((num % den : ℕ) : ℚ) / den ≤ 1 / 2 := by
    rw [div_le_iff₀ hq]
    have : (2 : ℚ) * (num % den : ℕ) ≤ den := by exact_mod_cast h
    linarith
  rw [div_eq_div_add_mod hden, abs_le]
  constructor <;> linarith

/-- The whole number above is near if the remainder is half of the denominator at least. -/
theorem abs_div_add_one_sub_le (hden : 0 < den) (h : den ≤ 2 * (num % den)) :
    |((num / den + 1 : ℕ) : ℚ) - num / den| ≤ 1 / 2 := by
  have hq : (0 : ℚ) < den := by exact_mod_cast hden
  have hone : ((num % den : ℕ) : ℚ) / den < 1 := by
    rw [div_lt_one hq]
    exact_mod_cast Nat.mod_lt num hden
  have hhalf : 1 / 2 ≤ ((num % den : ℕ) : ℚ) / den := by
    rw [le_div_iff₀ hq]
    have : (den : ℚ) ≤ 2 * (num % den : ℕ) := by exact_mod_cast h
    linarith
  rw [div_eq_div_add_mod hden, abs_le]
  push_cast
  constructor <;> linarith

variable (num) in
theorem abs_nearestWhole_sub_le (hden : 0 < den) :
    |(nearestWhole num den : ℚ) - num / den| ≤ 1 / 2 := by
  unfold nearestWhole
  dsimp only
  split_ifs with hlow hhigh
  · exact abs_div_sub_le hden hlow.le
  · exact abs_div_add_one_sub_le hden hhigh.le
  · exact abs_div_sub_le hden (not_lt.mp hhigh)
  · exact abs_div_add_one_sub_le hden (not_lt.mp hlow)

/-- What is less than one half away is the nearest whole number. -/
theorem nearestWhole_eq_of_abs_lt (hden : 0 < den) (h : |(num : ℚ) / den - m| < 1 / 2) :
    nearestWhole num den = m := by
  have hnear := abs_nearestWhole_sub_le num hden
  rw [abs_le] at hnear
  rw [abs_lt] at h
  have hlt : (nearestWhole num den : ℚ) < m + 1 := by linarith
  have hgt : (m : ℚ) < nearestWhole num den + 1 := by linarith
  have hlt' : nearestWhole num den < m + 1 := by exact_mod_cast hlt
  have hgt' : m < nearestWhole num den + 1 := by exact_mod_cast hgt
  omega

/-- Of two equally near whole numbers the even one is taken. -/
theorem nearestWhole_of_tie {below : ℕ} (hden : 0 < den)
    (htie : 2 * num = (2 * below + 1) * den) :
    nearestWhole num den = if below % 2 = 0 then below else below + 1 := by
  have hdiv : num / den = below := Nat.div_eq_of_lt_le (by nlinarith) (by nlinarith)
  have hrem : 2 * (num % den) = den := by
    have := Nat.div_add_mod num den
    rw [hdiv] at this
    nlinarith
  unfold nearestWhole
  simp only [hdiv, hrem, lt_irrefl, if_false]

/-- An even number is the nearest whole number also from one half away. -/
theorem nearestWhole_eq_of_even (hden : 0 < den) (hm : m % 2 = 0)
    (h : |(num : ℚ) / den - m| ≤ 1 / 2) : nearestWhole num den = m := by
  obtain h | h := h.lt_or_eq
  · exact nearestWhole_eq_of_abs_lt hden h
  have hq : (0 : ℚ) < den := by exact_mod_cast hden
  obtain h | h := (abs_eq (by norm_num)).mp h
  · have htie : 2 * num = (2 * m + 1) * den := by
      have hnum : (num : ℚ) / den = m + 1 / 2 := by linarith
      rw [div_eq_iff hq.ne'] at hnum
      have : (2 : ℚ) * num = (2 * m + 1) * den := by linarith
      exact_mod_cast this
    rw [nearestWhole_of_tie hden htie, if_pos hm]
  · have hnum : (num : ℚ) / den = m - 1 / 2 := by linarith
    obtain _ | m := m
    · have : (0 : ℚ) ≤ (num : ℚ) / den := by positivity
      norm_num at hnum
      linarith
    · have htie : 2 * num = (2 * m + 1) * den := by
        rw [div_eq_iff hq.ne'] at hnum
        push_cast at hnum
        have : (2 : ℚ) * num = (2 * m + 1) * den := by linarith
        exact_mod_cast this
      rw [nearestWhole_of_tie hden htie, if_neg (by omega)]

end

/-! ## Exponents -/

/-- Scaling a fraction by shifts divides it by a power of two. -/
theorem shift_div_shift (num den : ℕ) (e : ℤ) :
    ((num <<< (-e).toNat : ℕ) : ℚ) / (den <<< e.toNat : ℕ) = num / den / 2 ^ e := by
  obtain ⟨n, rfl | rfl⟩ := e.eq_nat_or_neg
  · simp only [Int.toNat_neg_natCast, Int.toNat_natCast, Nat.shiftLeft_eq, Nat.cast_mul,
      Nat.cast_pow, Nat.cast_ofNat, pow_zero, mul_one, zpow_natCast, div_div]
  · simp only [neg_neg, Int.toNat_neg_natCast, Int.toNat_natCast, Nat.shiftLeft_eq, Nat.cast_mul,
      Nat.cast_pow, Nat.cast_ofNat, pow_zero, mul_one, zpow_neg, zpow_natCast, div_inv_eq_mul]
    ring

/-- Powers of two on both sides of a quotient. -/
theorem two_zpow_log2_bounds {num den : ℕ} (hnum : 0 < num) (hden : 0 < den) :
    (2 : ℚ) ^ ((num.log2 : ℤ) - den.log2 - 1) ≤ num / den ∧
      (num : ℚ) / den < 2 ^ ((num.log2 : ℤ) - den.log2 + 1) := by
  have hq : (0 : ℚ) < den := by exact_mod_cast hden
  have hnum₁ : (2 : ℚ) ^ (num.log2 : ℤ) ≤ num := by exact_mod_cast Nat.log2_self_le hnum.ne'
  have hnum₂ : (num : ℚ) < 2 ^ ((num.log2 : ℤ) + 1) := by exact_mod_cast Nat.lt_log2_self
  have hden₁ : (2 : ℚ) ^ (den.log2 : ℤ) ≤ den := by exact_mod_cast Nat.log2_self_le hden.ne'
  have hden₂ : (den : ℚ) < 2 ^ ((den.log2 : ℤ) + 1) := by exact_mod_cast Nat.lt_log2_self
  constructor
  · rw [le_div_iff₀ hq]
    calc (2 : ℚ) ^ ((num.log2 : ℤ) - den.log2 - 1) * den
        ≤ 2 ^ ((num.log2 : ℤ) - den.log2 - 1) * 2 ^ ((den.log2 : ℤ) + 1) := by gcongr
      _ = 2 ^ (num.log2 : ℤ) := by
          rw [← zpow_add₀ two_ne_zero]
          congr 1
          ring
      _ ≤ num := hnum₁
  · rw [div_lt_iff₀ hq]
    calc (num : ℚ) < 2 ^ ((num.log2 : ℤ) + 1) := hnum₂
      _ = 2 ^ ((num.log2 : ℤ) - den.log2 + 1) * 2 ^ (den.log2 : ℤ) := by
          rw [← zpow_add₀ two_ne_zero]
          congr 1
          ring
      _ ≤ 2 ^ ((num.log2 : ℤ) - den.log2 + 1) * den := by gcongr

namespace BinaryFormat

variable (f : BinaryFormat) {num den : ℕ}

/-- Apart from the least one the exponent leaves as many bits before the point as a significand
has. -/
theorem exists_exponentOf_eq_max (hnum : 0 < num) (hden : 0 < den) :
    ∃ e : ℤ, f.exponentOf num den = max f.least e ∧
      (num : ℚ) / den < 2 ^ (e + f.precision) ∧ (2 : ℚ) ^ (e + f.precision - 1) ≤ num / den := by
  obtain ⟨hlow, hhigh⟩ := two_zpow_log2_bounds hnum hden
  set e : ℤ := (num.log2 : ℤ) - den.log2 - f.precision with he
  have hshort : num <<< (-e).toNat < (den <<< e.toNat) <<< f.precision ↔
      (num : ℚ) / den < 2 ^ (e + f.precision) := by
    have hshift : (0 : ℚ) < (den <<< e.toNat : ℕ) := by
      rw [Nat.shiftLeft_eq]
      positivity
    rw [zpow_add₀ two_ne_zero, ← div_lt_iff₀' (by positivity), ← shift_div_shift,
      div_lt_iff₀ hshift, Nat.shiftLeft_eq _ f.precision, ← Nat.cast_lt (α := ℚ)]
    push_cast
    rw [zpow_natCast, mul_comm]
  by_cases hlt : (num : ℚ) / den < 2 ^ (e + f.precision)
  · refine ⟨e, ?_, hlt, ?_⟩
    · rw [exponentOf, ← he, if_pos (hshort.mpr hlt)]
    · rwa [show e + f.precision - 1 = num.log2 - den.log2 - 1 by omega]
  · refine ⟨e + 1, ?_, ?_, ?_⟩
    · rw [exponentOf, ← he, if_neg (hshort.not.mpr hlt)]
    · rwa [show e + 1 + f.precision = num.log2 - den.log2 + 1 by omega]
    · rw [show e + 1 + f.precision - 1 = e + f.precision by omega]
      exact not_lt.mp hlt

theorem least_le_exponentOf (num den : ℕ) : f.least ≤ f.exponentOf num den := le_max_left ..

/-- An exponent that leaves fewer bits than a significand has is the least one. -/
theorem exponentOf_le (hnum : 0 < num) (hden : 0 < den) {t : ℤ} (ht : f.least ≤ t)
    (h : (num : ℚ) / den < 2 ^ (t + f.precision)) : f.exponentOf num den ≤ t := by
  obtain ⟨e, heq, -, hlow⟩ := f.exists_exponentOf_eq_max hnum hden
  have := (zpow_lt_zpow_iff_right₀ (by norm_num : (1 : ℚ) < 2)).mp (hlow.trans_lt h)
  omega

/-- No exponent leaves more bits than a significand has. -/
theorem le_exponentOf (hnum : 0 < num) (hden : 0 < den) {t : ℤ}
    (h : (2 : ℚ) ^ (t + f.precision - 1) ≤ num / den) : t ≤ f.exponentOf num den := by
  obtain ⟨e, heq, hhigh, -⟩ := f.exists_exponentOf_eq_max hnum hden
  have := (zpow_lt_zpow_iff_right₀ (by norm_num : (1 : ℚ) < 2)).mp (h.trans_lt hhigh)
  omega

/-! ## Rounding -/

theorem round_eq_mk (hnum : 0 < num) {m : ℕ} {e : ℤ} (he : f.exponentOf num den = e)
    (hm : nearestWhole (num <<< (-e).toNat) (den <<< e.toNat) = m) :
    f.round num den = ⟨m, e⟩ := by
  rw [round, if_neg hnum.ne']
  dsimp only
  rw [he, hm]

theorem shiftLeft_pos (hden : 0 < den) (n : ℕ) : 0 < den <<< n := by
  rw [Nat.shiftLeft_eq]
  positivity

/-- What is rounded is off by half a unit at most. -/
theorem abs_round_sub_le (hnum : 0 < num) (hden : 0 < den) :
    |(f.round num den).value - num / den| ≤ 2 ^ f.exponentOf num den / 2 := by
  set e := f.exponentOf num den with he
  have hpow : (0 : ℚ) < 2 ^ e := by positivity
  have hnear := abs_nearestWhole_sub_le (num <<< (-e).toNat) (shiftLeft_pos hden e.toNat)
  rw [shift_div_shift] at hnear
  have hscale : (f.round num den).value - num / den =
      ((nearestWhole (num <<< (-e).toNat) (den <<< e.toNat) : ℚ) - num / den / 2 ^ e) * 2 ^ e := by
    rw [f.round_eq_mk hnum he.symm rfl, BinaryNumber.value, sub_mul, div_mul_cancel₀ _ hpow.ne']
  rw [hscale, abs_mul, abs_of_pos hpow, div_eq_inv_mul _ (2 : ℚ), ← one_div]
  gcongr

/-- A fraction is rounded to the number it is less than half a unit away from, or half a unit if
the significand of that number is even. -/
theorem round_eq_of_abs_le {m : ℕ} {e : ℤ} (hnum : 0 < num) (hden : 0 < den)
    (he : f.exponentOf num den = e) (h : |(num : ℚ) / den - m * 2 ^ e| ≤ 2 ^ e / 2)
    (heven : |(num : ℚ) / den - m * 2 ^ e| < 2 ^ e / 2 ∨ m % 2 = 0) :
    f.round num den = ⟨m, e⟩ := by
  have hpow : (0 : ℚ) < 2 ^ e := by positivity
  have hshift := shiftLeft_pos hden e.toNat
  have hscale : ((num <<< (-e).toNat : ℕ) : ℚ) / (den <<< e.toNat : ℕ) - m =
      (num / den - m * 2 ^ e) / 2 ^ e := by
    rw [shift_div_shift]
    field_simp
  have hhalf : (2 : ℚ) ^ e / 2 / 2 ^ e = 1 / 2 := by field_simp
  refine f.round_eq_mk hnum he ?_
  obtain hlt | heven := heven
  · refine nearestWhole_eq_of_abs_lt hshift ?_
    rw [hscale, abs_div, abs_of_pos hpow, ← hhalf]
    gcongr
  · refine nearestWhole_eq_of_even hshift heven ?_
    rw [hscale, abs_div, abs_of_pos hpow, ← hhalf]
    gcongr

/-! ## What is rounded -/

/-- A number comes from rounding a fraction of the given value. -/
def Rounds (v : ℚ) (r : BinaryNumber) : Prop :=
  ∃ num den : ℕ, 0 < num ∧ 0 < den ∧ (num : ℚ) / den = v ∧ r = f.round num den

variable {f} {v : ℚ} {r a b : BinaryNumber}

/-- Relative to what is rounded the error is no more than the precision allows, unless the number
is too small to have all bits. -/
theorem Rounds.abs_sub_le (hr : f.Rounds v r) (h : (2 : ℚ) ^ (f.least + f.precision - 1) ≤ v) :
    |r.value - v| ≤ v * 2 ^ (-f.precision : ℤ) := by
  obtain ⟨num, den, hnum, hden, rfl, rfl⟩ := hr
  refine (f.abs_round_sub_le hnum hden).trans ?_
  obtain ⟨e, heq, hhigh, hlow⟩ := f.exists_exponentOf_eq_max hnum hden
  have hle : f.least ≤ e := by
    have := (zpow_lt_zpow_iff_right₀ (by norm_num : (1 : ℚ) < 2)).mp (h.trans_lt hhigh)
    omega
  rw [heq, max_eq_right hle]
  calc (2 : ℚ) ^ e / 2 = 2 ^ (e + f.precision - 1) * 2 ^ (-f.precision : ℤ) := by
        rw [← zpow_add₀ two_ne_zero, div_eq_mul_inv, ← zpow_sub_one₀ two_ne_zero]
        congr 1
        ring
    _ ≤ num / den * 2 ^ (-f.precision : ℤ) := by gcongr

/-- A number of the format stays as it is. -/
theorem Rounds.value_eq (hr : f.Rounds v r) {s : ℕ} {t : ℤ} (hs : s < 2 ^ f.precision)
    (ht : f.least ≤ t) (h : v = s * 2 ^ t) : r.value = v := by
  obtain ⟨num, den, hnum, hden, hv, rfl⟩ := hr
  have hfrac : (num : ℚ) / den = s * 2 ^ t := hv.trans h
  set e := f.exponentOf num den with he
  have hs' : (s : ℚ) < 2 ^ (f.precision : ℤ) := by exact_mod_cast hs
  have hle : e ≤ t := by
    refine f.exponentOf_le hnum hden ht ?_
    rw [hfrac, zpow_add₀ two_ne_zero, mul_comm]
    gcongr
  obtain ⟨n, hn⟩ := Int.eq_ofNat_of_zero_le (sub_nonneg.mpr hle)
  have hvalue : (s : ℚ) * 2 ^ t = (s * 2 ^ n : ℕ) * 2 ^ e := by
    push_cast
    rw [mul_assoc, ← zpow_natCast, ← zpow_add₀ two_ne_zero]
    congr 2
    omega
  have hround : f.round num den = ⟨s * 2 ^ n, e⟩ := by
    have hzero : |(num : ℚ) / den - (s * 2 ^ n : ℕ) * 2 ^ e| < 2 ^ e / 2 := by
      rw [hfrac, hvalue, sub_self, abs_zero]
      positivity
    exact f.round_eq_of_abs_le hnum hden he.symm hzero.le (.inl hzero)
  rw [hround, BinaryNumber.value, h, hvalue]

/-- The number that is rounded to one with all bits lies half a unit around it. -/
theorem Rounds.eq_of_abs_le (hr : f.Rounds v r) {m : ℕ} {e : ℤ}
    (he : f.least = e ∧ v < 2 ^ (e + f.precision) ∨
      f.least ≤ e ∧ 2 ^ (e + f.precision - 1) ≤ v ∧ v < 2 ^ (e + f.precision))
    (h : |v - m * 2 ^ e| ≤ 2 ^ e / 2) (heven : |v - m * 2 ^ e| < 2 ^ e / 2 ∨ m % 2 = 0) :
    r = ⟨m, e⟩ := by
  obtain ⟨num, den, hnum, hden, rfl, rfl⟩ := hr
  have hexponent : f.exponentOf num den = e := by
    have hleast := f.least_le_exponentOf num den
    obtain ⟨hleast', hhigh⟩ | ⟨hleast', hlow, hhigh⟩ := he
    · exact le_antisymm (f.exponentOf_le hnum hden hleast'.le hhigh) (hleast' ▸ hleast)
    · exact le_antisymm (f.exponentOf_le hnum hden hleast' hhigh) (f.le_exponentOf hnum hden hlow)
  exact f.round_eq_of_abs_le hnum hden hexponent h heven

theorem rounds_number (ha : 0 < a.value) :
    f.Rounds a.value
      (f.round (a.significand <<< a.exponent.toNat) (1 <<< (-a.exponent).toNat)) := by
  refine ⟨_, _, shiftLeft_pos (BinaryNumber.significand_pos ha) _, shiftLeft_pos one_pos _, ?_, rfl⟩
  have h := shift_div_shift a.significand 1 (-a.exponent)
  rw [neg_neg] at h
  rw [h, BinaryNumber.value, zpow_neg, div_inv_eq_mul, Nat.cast_one, div_one]

theorem rounds_product (ha : 0 < a.value) (hb : 0 < b.value) :
    f.Rounds (a.value * b.value) (f.product a b) := by
  have hvalue : BinaryNumber.value ⟨a.significand * b.significand, a.exponent + b.exponent⟩ =
      a.value * b.value := by
    simp only [BinaryNumber.value, Nat.cast_mul, zpow_add₀ (two_ne_zero' ℚ)]
    ring
  have hpos := mul_pos ha hb
  rw [← hvalue] at hpos ⊢
  exact rounds_number hpos

theorem rounds_quotient (ha : 0 < a.value) (hb : 0 < b.value) :
    f.Rounds (a.value / b.value) (f.quotient a b) := by
  refine ⟨_, _, shiftLeft_pos (BinaryNumber.significand_pos ha) _,
    shiftLeft_pos (BinaryNumber.significand_pos hb) _, ?_, rfl⟩
  have h := shift_div_shift a.significand b.significand (-(a.exponent - b.exponent))
  rw [neg_neg] at h
  rw [h, BinaryNumber.value, BinaryNumber.value, zpow_neg, div_inv_eq_mul, zpow_sub₀ two_ne_zero]
  ring

end BinaryFormat

end MutantGate
