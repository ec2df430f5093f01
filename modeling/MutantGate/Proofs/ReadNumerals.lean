import MutantGate.Number.Reading
import MutantGate.Proofs.Numerals
import MutantGate.Proofs.RoundedNumbers
/-!
# Decimals read through double precision

A decimal that is laid out is read as a whole number times a power of ten, and this product is
taken in double precision: the whole number is exact, the power is rounded once and the product
once more, so what comes out is off by four roundings at most.  Up to the twenty-second the powers
of ten are exact, and then the product is rounded only once.

## What is proved

`exists_scaled?` bounds the error for every significand and exponent of moderate size, and
`exists_magnitude?_arrange` shows that what is laid out for a number of single precision is read in
this way.

## What is left outside

Numerals beyond that size, where the power of ten may have to be taken in several parts or is out of
range.
-/

namespace MutantGate

open BinaryFormat

/-! ## Powers of ten -/

theorem BinaryNumber.reaches_iff {a : BinaryNumber} {n : ℕ} :
    a.reaches n = true ↔ (2 : ℚ) ^ n ≤ a.value := by
  have hshift : (0 : ℚ) < (1 <<< (n - a.exponent).toNat : ℕ) := by
    exact_mod_cast shiftLeft_pos one_pos _
  have hfraction := shift_div_shift a.significand 1 (n - a.exponent)
  rw [neg_sub, Nat.cast_one, div_one] at hfraction
  rw [reaches, decide_eq_true_iff, ← Nat.cast_le (α := ℚ), ← one_le_div₀ hshift, hfraction,
    one_le_div₀ (by positivity), zpow_sub₀ two_ne_zero, div_le_iff₀ (by positivity), zpow_natCast,
    BinaryNumber.value]

namespace Numeral

/-- The greatest rounding error in double precision, relative to what is rounded. -/
def doubleError : ℚ := 2 ^ (-53 : ℤ)

theorem doubleError_nonneg : 0 ≤ doubleError := by norm_num [doubleError]

theorem doubleError_le : doubleError ≤ 1 / 4 := by norm_num [doubleError]

theorem abs_double_sub_le {v : ℚ} {r : BinaryNumber} (hr : double.Rounds v r)
    (hv : (10 : ℚ) ^ (-70 : ℤ) ≤ v) : |r.value - v| ≤ v * doubleError := by
  refine hr.abs_sub_le (le_trans ?_ hv)
  calc (2 : ℚ) ^ (double.least + double.precision - 1) ≤ 2 ^ (-250 : ℤ) :=
        zpow_le_zpow_right₀ one_le_two (by decide)
    _ ≤ 10 ^ (-70 : ℤ) := by norm_num

theorem rounds_powerOfTen (k : ℕ) : double.Rounds (10 ^ k) (powerOfTen k) :=
  ⟨10 ^ k, 1, by positivity, one_pos, by push_cast; ring, rfl⟩

theorem abs_powerOfTen_sub_le (k : ℕ) :
    |(powerOfTen k).value - 10 ^ k| ≤ 10 ^ k * doubleError := by
  refine abs_double_sub_le (rounds_powerOfTen k) ?_
  calc (10 : ℚ) ^ (-70 : ℤ) ≤ 1 := by norm_num
    _ ≤ 10 ^ k := one_le_pow₀ (by norm_num)

theorem powerOfTen_bounds (k : ℕ) :
    10 ^ k / 2 ≤ (powerOfTen k).value ∧ (powerOfTen k).value ≤ 2 * 10 ^ k := by
  have herror := abs_powerOfTen_sub_le k
  have hpos : (0 : ℚ) < 10 ^ k := by positivity
  have hsmall := mul_le_mul_of_nonneg_left doubleError_le hpos.le
  rw [abs_le] at herror
  constructor <;> linarith

/-- Powers of ten up to the twenty-second are exact. -/
theorem powerOfTen_value {k : ℕ} (hk : k ≤ 22) : (powerOfTen k).value = 10 ^ k := by
  refine (rounds_powerOfTen k).value_eq (s := 5 ^ k) (t := k) ?_ ?_ ?_
  · calc 5 ^ k ≤ 5 ^ 22 := Nat.pow_le_pow_right (by decide) hk
      _ < 2 ^ double.precision := by decide
  · have : double.least = -1074 := rfl
    omega
  · push_cast
    rw [zpow_natCast, ← mul_pow]
    norm_num

/-! ## Scaling -/

/-- A significand that fits is exact. -/
theorem round_whole_value {s : ℕ} (hs : 0 < s) (hlt : s < 2 ^ 53) :
    (double.round s 1).value = s := by
  have hrounds : double.Rounds s (double.round s 1) :=
    ⟨s, 1, hs, one_pos, by push_cast; ring, rfl⟩
  exact hrounds.value_eq (t := 0) hlt (by decide) (by simp)

/-- A number `r` that is off by `u` from one that is off by `2 * u` is off by `4 * u` at most. -/
theorem abs_sub_le_of_factors {v v' r u : ℚ} (hu : 0 ≤ u) (hu' : u ≤ 1 / 4) (hv : 0 ≤ v)
    (h : |v' - v| ≤ v * (2 * u)) (h' : |r - v'| ≤ v' * u) : |r - v| ≤ v * (4 * u) := by
  have hv' : v' ≤ v * 2 := by
    have := (abs_le.mp h).2
    nlinarith
  calc |r - v| ≤ |r - v'| + |v' - v| := abs_sub_le r v' v
    _ ≤ v' * u + v * (2 * u) := add_le_add h' h
    _ ≤ v * 2 * u + v * (2 * u) := by gcongr
    _ = v * (4 * u) := by ring

section

variable {a : BinaryNumber} {s : ℕ} {k : ℕ}

theorem rounds_scaleUp (ha : a.value = s) (hs : 0 < s) :
    double.Rounds (s * (powerOfTen k).value) (double.product a (powerOfTen k)) := by
  have hs' : (0 : ℚ) < s := by exact_mod_cast hs
  have hpos : (0 : ℚ) < 10 ^ k / 2 := by positivity
  exact ha ▸ rounds_product (by rwa [ha]) (hpos.trans_le (powerOfTen_bounds k).1)

theorem rounds_scaleDown (ha : a.value = s) (hs : 0 < s) (hk : k ≤ 308) :
    double.Rounds (s / (powerOfTen k).value) (scaleDown a k) := by
  have hs' : (0 : ℚ) < s := by exact_mod_cast hs
  have hpos : (0 : ℚ) < 10 ^ k / 2 := by positivity
  rw [scaleDown, if_pos hk]
  exact ha ▸ rounds_quotient (by rwa [ha]) (hpos.trans_le (powerOfTen_bounds k).1)

theorem abs_product_sub_le (ha : a.value = s) (hs : 0 < s) :
    |(double.product a (powerOfTen k)).value - s * 10 ^ k| ≤ s * 10 ^ k * (4 * doubleError) := by
  obtain ⟨hlow, hhigh⟩ := powerOfTen_bounds k
  have hs' : (1 : ℚ) ≤ s := by exact_mod_cast hs
  have hten : (1 : ℚ) ≤ 10 ^ k := one_le_pow₀ (by norm_num)
  have hu := doubleError_nonneg
  have hround := abs_double_sub_le (rounds_scaleUp ha hs (k := k)) (by
    calc (10 : ℚ) ^ (-70 : ℤ) ≤ 1 * (1 / 2) := by norm_num
      _ ≤ s * (powerOfTen k).value := by gcongr; linarith)
  have hfactor :
      |(s : ℚ) * (powerOfTen k).value - s * 10 ^ k| ≤ s * 10 ^ k * (2 * doubleError) := by
    rw [← mul_sub, abs_mul, abs_of_pos (by linarith : (0 : ℚ) < s), mul_assoc]
    gcongr
    refine (abs_powerOfTen_sub_le k).trans ?_
    gcongr
    linarith
  exact abs_sub_le_of_factors hu doubleError_le (by positivity) hfactor hround

theorem abs_scaleDown_sub_le (ha : a.value = s) (hs : 0 < s) (hk : k ≤ 60) :
    |(scaleDown a k).value - s / 10 ^ k| ≤ s / 10 ^ k * (4 * doubleError) := by
  obtain ⟨hlow, hhigh⟩ := powerOfTen_bounds k
  have hs' : (1 : ℚ) ≤ s := by exact_mod_cast hs
  have hten : (1 : ℚ) ≤ 10 ^ k := one_le_pow₀ (by norm_num)
  have hten' : (10 : ℚ) ^ k ≤ 10 ^ 60 := pow_le_pow_right₀ (by norm_num) hk
  have hp : (0 : ℚ) < (powerOfTen k).value := by linarith
  have hu := doubleError_nonneg
  have hround := abs_double_sub_le (rounds_scaleDown ha hs (k := k) (by omega)) (by
    rw [le_div_iff₀ hp]
    calc (10 : ℚ) ^ (-70 : ℤ) * (powerOfTen k).value ≤ 10 ^ (-70 : ℤ) * (2 * 10 ^ 60) := by
          gcongr
          linarith
      _ ≤ 1 := by norm_num
      _ ≤ s := hs')
  have hfactor :
      |(s : ℚ) / (powerOfTen k).value - s / 10 ^ k| ≤ s / 10 ^ k * (2 * doubleError) := by
    have hdiff : (s : ℚ) / (powerOfTen k).value - s / 10 ^ k =
        s / 10 ^ k * ((10 ^ k - (powerOfTen k).value) / (powerOfTen k).value) := by
      field_simp
    rw [hdiff, abs_mul, abs_of_pos (by positivity : (0 : ℚ) < s / 10 ^ k), abs_div, abs_of_pos hp,
      abs_sub_comm]
    gcongr
    rw [div_le_iff₀ hp]
    calc _ ≤ 10 ^ k * doubleError := abs_powerOfTen_sub_le k
      _ ≤ 2 * doubleError * (10 ^ k / 2) := by linarith
      _ ≤ 2 * doubleError * (powerOfTen k).value := by gcongr
  exact abs_sub_le_of_factors hu doubleError_le (by positivity) hfactor hround

/-- The product of decimals of moderate size is in the range of double precision. -/
theorem scaleUp?_eq_some (ha : a.value = s) (hs : 0 < s) (hlt : s < 2 ^ 53) (hk : k ≤ 60) :
    scaleUp? a k = some (double.product a (powerOfTen k)) := by
  have herror := (abs_le.mp (abs_product_sub_le ha hs (k := k))).2
  have hv : (0 : ℚ) ≤ s * 10 ^ k := by positivity
  have hlt' : (s : ℚ) ≤ 2 ^ 53 := by exact_mod_cast hlt.le
  have hten : (10 : ℚ) ^ k ≤ 10 ^ 60 := pow_le_pow_right₀ (by norm_num) hk
  have hsmall : (s : ℚ) * 10 ^ k * (4 * doubleError) ≤ s * 10 ^ k * 1 := by
    gcongr
    linarith [doubleError_le]
  have hbound : (double.product a (powerOfTen k)).value < 2 ^ 1024 := by
    calc (double.product a (powerOfTen k)).value ≤ s * 10 ^ k * 2 := by linarith
      _ ≤ 2 ^ 53 * 10 ^ 60 * 2 := by gcongr
      _ < 2 ^ 255 := by norm_num
      _ ≤ 2 ^ 1024 := pow_le_pow_right₀ one_le_two (by decide)
  have hreaches : (double.product a (powerOfTen k)).reaches 1024 = false := by
    rw [← Bool.not_eq_true, BinaryNumber.reaches_iff]
    exact not_le.mpr hbound
  rw [scaleUp?, if_pos (by omega)]
  simp only [hreaches, Bool.false_eq_true, if_false]

end

/-- A decimal of moderate size has a value in double precision, which is off by four times the
error of one rounding at most. -/
theorem exists_scaled? {s : ℕ} {e : ℤ} (hs : 0 < s) (hlt : s < 2 ^ 53) (hlow : -60 ≤ e)
    (hhigh : e ≤ 60) :
    ∃ r, scaled? s e = some r ∧ |r.value - s * 10 ^ e| ≤ s * 10 ^ e * (4 * doubleError) ∧
      (-22 ≤ e → e ≤ 22 → double.Rounds (s * 10 ^ e) r) := by
  have ha := round_whole_value hs hlt
  obtain hnonneg | hneg := le_or_gt 0 e
  · obtain ⟨k, rfl⟩ := Int.eq_ofNat_of_zero_le hnonneg
    refine ⟨double.product (double.round s 1) (powerOfTen k), ?_, ?_, ?_⟩
    · rw [scaled?]
      simp only [hnonneg, if_true, Int.toNat_natCast]
      exact scaleUp?_eq_some ha hs hlt (by omega)
    · rw [zpow_natCast]
      exact abs_product_sub_le ha hs
    · intro _ hk
      rw [zpow_natCast, ← powerOfTen_value (by omega)]
      exact rounds_scaleUp ha hs
  · obtain ⟨k, rfl⟩ : ∃ k : ℕ, e = -k := ⟨(-e).toNat, by omega⟩
    refine ⟨scaleDown (double.round s 1) k, ?_, ?_, ?_⟩
    · rw [scaled?]
      simp only [not_le.mpr hneg, if_false, neg_neg, Int.toNat_natCast]
    · rw [zpow_neg, zpow_natCast, ← div_eq_mul_inv]
      exact abs_scaleDown_sub_le ha hs (by omega)
    · intro hk _
      rw [zpow_neg, zpow_natCast, ← div_eq_mul_inv, ← powerOfTen_value (by omega)]
      exact rounds_scaleDown ha hs (by omega)

/-- A numeral scaled by a power of ten from the table. -/
def scaledOnce? (s : ℕ) (e : ℤ) : Option BinaryNumber :=
  if 0 ≤ e then scaleUp? (double.round s 1) e.toNat
  else some (double.quotient (double.round s 1) (powerOfTen (-e).toNat))

theorem scaled?_eq_scaledOnce? (s : ℕ) {e : ℤ} (he : -308 ≤ e) : scaled? s e = scaledOnce? s e := by
  have hsteps (a : BinaryNumber) (h : ¬ 0 ≤ e) :
      scaleDown a (-e).toNat = double.quotient a (powerOfTen (-e).toNat) := by
    rw [scaleDown, if_pos (by omega)]
  unfold scaled? scaledOnce?
  dsimp only
  split
  · rfl
  · next h => rw [hsteps _ h]

/-! ## Significands -/

theorem gather_eq {n : ℕ} {ds : List Digit}
    (h : n * 10 ^ ds.length + Decimal.value ds < UInt64.size) :
    gather n ds = (n * 10 ^ ds.length + Decimal.value ds, []) := by
  induction ds generalizing n with
  | nil => simp [gather, Decimal.value]
  | cons d ds ih =>
      have hstep : n * 10 ^ (d :: ds).length + Decimal.value (d :: ds) =
          (10 * n + d.val) * 10 ^ ds.length + Decimal.value ds := by
        rw [Decimal.value_cons, List.length_cons, Nat.pow_succ]
        ring
      rw [hstep] at h
      have hlt : 10 * n + d.val < UInt64.size :=
        (Nat.le_mul_of_pos_right _ (by positivity)).trans_lt ((Nat.le_add_right _ _).trans_lt h)
      rw [gather, if_pos hlt, ih h, hstep]

theorem gather_zero_eq {ds : List Digit} (h : Decimal.value ds < UInt64.size) :
    gather 0 ds = (Decimal.value ds, []) := by
  rw [gather_eq (by rwa [Nat.zero_mul, Nat.zero_add]), Nat.zero_mul, Nat.zero_add]

/-- The digits on both sides of a point are counted in the last place. -/
theorem significand_fraction (b : Bool) (whole fraction : List Digit)
    (e : Option (ExponentSign × List Digit))
    (h : Decimal.value (whole ++ fraction) < UInt64.size) :
    significand ⟨b, whole, some fraction, e⟩ =
      (Decimal.value (whole ++ fraction), -(fraction.length : ℤ)) := by
  rw [Decimal.value_append] at h ⊢
  have hwhole : gather 0 whole = (Decimal.value whole, []) := gather_zero_eq
    ((Nat.le_mul_of_pos_right _ (by positivity)).trans_lt ((Nat.le_add_right _ _).trans_lt h))
  simp only [significand, hwhole, gather_eq h, List.length_nil, Nat.cast_zero, sub_zero, zero_sub]

theorem significand_whole (b : Bool) (whole : List Digit) (e : Option (ExponentSign × List Digit))
    (h : Decimal.value whole < UInt64.size) :
    significand ⟨b, whole, none, e⟩ = (Decimal.value whole, 0) := by
  simp only [significand, gather_zero_eq h, List.length_nil, Nat.cast_zero]

/-! ## Laid out decimals -/

/-- In positional notation the digits of `d * 10 ^ k` denote it in units of the last place. -/
theorem positional_value {d : ℕ} {k x : ℤ} (hx : x = k + (Decimal.digits d).length - 1) :
    ∃ j : ℕ, Decimal.value ((Layout.positional (Decimal.digits d) x).1 ++
        (Layout.positional (Decimal.digits d) x).2) = d * 10 ^ j ∧
      -((Layout.positional (Decimal.digits d) x).2.length : ℤ) = k - j ∧
      (j = 0 ∨ 0 ≤ k ∧ j = k + 1) := by
  set ds := Decimal.digits d with hds
  have hvalue : Decimal.value ds = d := Decimal.value_digits d
  unfold Layout.positional
  split
  · refine ⟨0, ?_, ?_, .inl rfl⟩
    · rw [Decimal.value_append, List.length_append, Decimal.value_append,
        Decimal.value_replicate_zero, hvalue]
      simp [Decimal.value, Digit.zero]
    · rw [List.length_append, List.length_replicate]
      omega
  · next hnonneg =>
      dsimp only
      obtain hle | hlt := le_or_gt ds.length (x.toNat + 1)
      · -- All digits stand before the point, and zeros fill up to it and one place behind.
        have hdrop : ds.drop (x.toNat + 1) = [] := List.drop_eq_nil_of_le hle
        refine ⟨x.toNat + 1 - ds.length + 1, ?_, ?_, .inr ⟨by omega, by omega⟩⟩
        · rw [hdrop, List.take_of_length_le hle, List.isEmpty_nil, if_pos rfl, List.append_assoc,
            ← List.replicate_succ', Decimal.value_append, Decimal.value_replicate_zero, hvalue,
            List.length_replicate, add_zero]
        · rw [hdrop, List.isEmpty_nil, if_pos rfl, List.length_singleton]
          omega
      · -- The point stands between the digits.
        have hne : (ds.drop (x.toNat + 1)).isEmpty = false := by
          rw [List.isEmpty_eq_false_iff, ne_eq, List.drop_eq_nil_iff]
          omega
        refine ⟨0, ?_, ?_, .inl rfl⟩
        · rw [Nat.sub_eq_zero_of_le hlt.le, List.replicate_zero, List.append_nil, hne,
            if_neg (by decide), List.take_append_drop, hvalue, pow_zero, mul_one]
        · rw [hne, if_neg (by decide), List.length_drop]
          omega

/-- An exponent of moderate size is added to the one of the significand. -/
theorem magnitude?_exponent {l : Layout} (hsign : l.positiveExponent ≠ .minus) (b : Bool)
    (whole : List Digit) (fraction : Option (List Digit)) {x : ℤ} (hx : x.natAbs ≤ exponentLimit)
    {s : ℕ} {e : ℤ} (hs : significand ⟨b, whole, fraction, some (l.exponent x)⟩ = (s, e)) :
    magnitude? ⟨b, whole, fraction, some (l.exponent x)⟩ = scaled? s (e + x) := by
  rw [magnitude?, hs]
  simp only [Layout.exponent, Decimal.value_digits, not_lt.mpr hx, if_false]
  by_cases hneg : x < 0
  · simp only [hneg, if_true]
    congr 1
    omega
  · simp only [hneg, hsign, if_false]
    congr 1
    omega

/-- The whole numbers and the powers of ten that `d * 10 ^ k` is read as.  Behind a whole number in
positional notation a zero is written. -/
def readings (l : Layout) (d : ℕ) (k : ℤ) : List (ℕ × ℤ) :=
  (d, k) :: if 0 ≤ k ∧ k < l.limit then [(d * 10 ^ (k + 1).toNat, -1)] else []

theorem readings_value {l : Layout} {d : ℕ} {k : ℤ} {p : ℕ × ℤ} (h : p ∈ readings l d k) :
    (p.1 : ℚ) * 10 ^ p.2 = d * 10 ^ k ∧ (p.2 = k ∨ p.2 = -1) ∧ d ≤ p.1 := by
  rw [readings, List.mem_cons] at h
  obtain rfl | h := h
  · exact ⟨rfl, .inl rfl, le_rfl⟩
  split at h
  · obtain rfl := List.mem_singleton.mp h
    refine ⟨?_, .inr rfl, Nat.le_mul_of_pos_right d (by positivity)⟩
    push_cast
    rw [mul_assoc, ← zpow_natCast, ← zpow_add₀ (by norm_num)]
    congr 2
    omega
  · exact absurd h List.not_mem_nil

/-- In a layout that has at most fourteen places before the point a decimal is read as a whole
number of moderate size times a power of ten. -/
theorem exists_magnitude?_arrange {l : Layout} (hlimit : l.limit ≤ 14)
    (hsign : l.positiveExponent ≠ .minus) (b : Bool) {d : ℕ} {k : ℤ} (hd : 0 < d)
    (hd' : d < 2 ^ 53) (hlow : -60 ≤ k) (hhigh : k ≤ 60) :
    ∃ p ∈ readings l d k,
      (l.arrange b (Decimal.digits d) (k + (Decimal.digits d).length - 1)).magnitude? =
        scaled? p.1 p.2 ∧ p.1 < 2 ^ 53 := by
  set ds := Decimal.digits d with hds
  have hvalue : Decimal.value ds = d := Decimal.value_digits d
  have hlength : ds.length < 17 := by
    have hpow : 10 ^ ds.length < 10 ^ 17 := by
      calc 10 ^ ds.length ≤ 10 * d := Decimal.pow_length_digits_le hd
        _ < 10 ^ 17 := by omega
    exact (Nat.pow_lt_pow_iff_right (by decide)).mp hpow
  set x := k + (ds.length : ℤ) - 1 with hx
  unfold Layout.arrange
  split
  · next hrange =>
      obtain ⟨j, hall, hplaces, hj⟩ := positional_value hx
      have hlt : d * 10 ^ j < 2 ^ 53 := by
        obtain rfl | ⟨hk, hj⟩ := hj
        · rwa [pow_zero, mul_one]
        · calc d * 10 ^ j < 10 ^ ds.length * 10 ^ j := by
                gcongr
                exact hvalue ▸ Decimal.value_lt ds
            _ = 10 ^ (ds.length + j) := (pow_add ..).symm
            _ ≤ 10 ^ 15 := Nat.pow_le_pow_right (by decide) (by omega)
            _ < 2 ^ 53 := by decide
      refine ⟨(d * 10 ^ j, k - j), ?_, ?_, hlt⟩
      · obtain rfl | ⟨hk, hj⟩ := hj
        · simp [readings]
        · have hlength' : 0 < ds.length := List.length_pos_of_ne_nil (Decimal.digits_ne_nil d)
          have hj' : (k + 1).toNat = j := by omega
          rw [readings, if_pos (by omega), hj', show k - (j : ℤ) = -1 by omega]
          exact List.mem_cons_of_mem _ (List.mem_singleton.mpr rfl)
      · rw [magnitude?, significand_fraction, hall, hplaces]
        rw [hall]
        exact hlt.trans (by decide)
  · have hlimit' : x.natAbs ≤ exponentLimit := by
      have : exponentLimit = 0x7fffffff := rfl
      omega
    refine ⟨(d, k), List.mem_cons_self, ?_, hd'⟩
    dsimp only
    split
    · next hone =>
        have hwhole := significand_whole b (ds.take 1) (some (l.exponent x)) (by
          rw [List.take_of_length_le hone, hvalue]
          exact hd'.trans (by decide))
        rw [magnitude?_exponent hsign b _ _ hlimit' hwhole, List.take_of_length_le hone, hvalue]
        have : 0 < ds.length := List.length_pos_of_ne_nil (Decimal.digits_ne_nil d)
        congr 1
        omega
    · next hmany =>
        have hfraction := significand_fraction b (ds.take 1) (ds.drop 1)
          (some (l.exponent x)) (by
            rw [List.take_append_drop, hvalue]
            exact hd'.trans (by decide))
        rw [magnitude?_exponent hsign b _ _ hlimit' hfraction, List.take_append_drop, hvalue,
          List.length_drop]
        congr 1
        omega

end Numeral

end MutantGate
