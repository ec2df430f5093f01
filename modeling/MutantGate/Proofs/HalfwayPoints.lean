import Mathlib.Algebra.Order.Field.Power
import Mathlib.Algebra.Order.Ring.Abs
import Mathlib.Data.Int.GCD
import Mathlib.Tactic.FieldSimp
import Mathlib.Tactic.Linarith
import Mathlib.Tactic.Positivity
import Mathlib.Tactic.Ring
import MutantGate.Number.Shortest
/-!
# Decimals near halfway points

Halfway between two neighbouring single-precision numbers a rounding error decides which of them
is read.  For each exponent there is a grid of decimals that is about as wide as a unit of the last
place.  A decimal `d * 10 ^ k` of the grid comes close to a halfway point `h * 2 ^ (e - 1)` only if
`h / d` comes close to a fixed ratio, and then it is a multiple of a convergent of this ratio.  So
the multiples of one convergent for each exponent show all decimals that are close: either they are
exactly halfway, which happens for small exponents only, or they are near one of two points.

## What is proved

`near_halfway`, for every exponent of single precision and every decimal of its grid with a
significand up to `2 ^ 24`: a decimal that is closer to a halfway point than one part in `2 ^ 26` of
half a unit is that point, and then the exponent lies between -40 and 40, or the point is one of the
two `exceptions`.  The convergents are computed and checked for every exponent.

## What is left outside

What becomes of a decimal that does come close to one of the two; `Proofs.ReadBack` looks at them
one by one.
-/

namespace MutantGate.Halfway

/-! ## Ratios -/

section

variable {d h q p a b : ℕ}

/-- A fraction that comes close to `a / b` is equal to a convergent. -/
theorem mul_eq_mul_of_near (hd : d ≤ 2 ^ 24) (hnear : 2 ^ 26 * |(d * a : ℤ) - h * b| < b)
    (hconvergent : 2 ^ 50 * |(q * a : ℤ) - p * b| + q * b < 2 ^ 26 * b) : h * q = d * p := by
  have hb : (0 : ℤ) < b := lt_of_le_of_lt (by positivity) hnear
  have hd' : (d : ℤ) ≤ 2 ^ 24 := by exact_mod_cast hd
  have hcross : ((h : ℤ) * q - d * p) * b = d * (q * a - p * b) - q * (d * a - h * b) := by ring
  have hbound : 2 ^ 26 * |(h : ℤ) * q - d * p| * b < 2 ^ 26 * b := by
    calc 2 ^ 26 * |(h : ℤ) * q - d * p| * b = 2 ^ 26 * |((h : ℤ) * q - d * p) * b| := by
          rw [abs_mul, abs_of_pos hb, mul_assoc]
      _ ≤ 2 ^ 26 * (d * |(q * a : ℤ) - p * b| + q * |(d * a : ℤ) - h * b|) := by
          rw [hcross]
          have hsub := abs_sub ((d : ℤ) * (q * a - p * b)) (q * (d * a - h * b))
          rw [abs_mul, abs_mul, Nat.abs_cast, Nat.abs_cast] at hsub
          gcongr
      _ ≤ 2 ^ 50 * |(q * a : ℤ) - p * b| + q * b := by
          have hfirst : (d : ℤ) * |(q * a : ℤ) - p * b| ≤ 2 ^ 24 * |(q * a : ℤ) - p * b| := by
            gcongr
          have hsecond : (q : ℤ) * (2 ^ 26 * |(d * a : ℤ) - h * b|) ≤ q * b := by gcongr
          linarith
      _ < 2 ^ 26 * b := hconvergent
  have hzero : |(h : ℤ) * q - d * p| < 1 := by nlinarith
  have := Int.abs_lt_one_iff.mp hzero
  exact_mod_cast sub_eq_zero.mp this

/-- Equal fractions are multiples of the reduced one. -/
theorem exists_multiple (hd : 0 < d) (hq : Nat.Coprime q p) (h' : h * q = d * p) :
    ∃ u, 0 < q ∧ d = u * q ∧ h = u * p := by
  obtain ⟨u, rfl⟩ : q ∣ d := hq.dvd_of_dvd_mul_right (h' ▸ Dvd.intro_left h rfl)
  have hpos : 0 < q := Nat.pos_of_mul_pos_right hd
  refine ⟨u, hpos, Nat.mul_comm .., ?_⟩
  exact Nat.eq_of_mul_eq_mul_right hpos (by rw [h']; ring)

/-- If the denominator is small once the fraction is reduced, close means equal. -/
theorem eq_of_near (hgcd : b ≤ 2 ^ 26 * Nat.gcd a b) (hnear : 2 ^ 26 * |(d * a : ℤ) - h * b| < b) :
    d * a = h * b := by
  have hdvd : (Nat.gcd a b : ℤ) ∣ d * a - h * b :=
    dvd_sub ((Int.natCast_dvd_natCast.mpr (Nat.gcd_dvd_left a b)).mul_left _)
      ((Int.natCast_dvd_natCast.mpr (Nat.gcd_dvd_right a b)).mul_left _)
  have hgcd' : (b : ℤ) ≤ 2 ^ 26 * Nat.gcd a b := by exact_mod_cast hgcd
  have hlt : |(d * a : ℤ) - h * b| < Nat.gcd a b := by linarith
  have hzero := Int.eq_zero_of_abs_lt_dvd hdvd hlt
  exact_mod_cast sub_eq_zero.mp hzero

end

/-! ## One convergent for each exponent -/

/-- The least power of ten that is not below `2 ^ e`, for the exponents of single precision. -/
def grid (e : ℤ) : ℤ := -(-e * 30103 / 100000)

/-- The numerator of `10 ^ grid e` over `2 ^ (e - 1)`. -/
def numerator (e : ℤ) : ℕ := 10 ^ (grid e).toNat * 2 ^ (1 - e).toNat

/-- The denominator of `10 ^ grid e` over `2 ^ (e - 1)`. -/
def denominator (e : ℤ) : ℕ := 10 ^ (-grid e).toNat * 2 ^ (e - 1).toNat

/-- The last convergent `p / q` of a fraction with `q` below `2 ^ 25`, as the pair of `q` and `p`.
The fraction `x / y` is what is left to expand, and the pairs are the last two convergents. -/
def convergent (fuel x y : ℕ) (before last : ℕ × ℕ) : ℕ × ℕ :=
  match fuel with
  | 0 => last
  | fuel + 1 =>
    let next := (x / y * last.1 + before.1, x / y * last.2 + before.2)
    if y = 0 ∨ 2 ^ 25 ≤ next.1 then last else convergent fuel y (x % y) last next

/-- The halfway points that a decimal comes close to without being one: exponents and odd
multiples of half a unit. -/
def exceptions : List (ℤ × ℕ) := [(-133, 18028199), (-107, 22841339)]

/-- How far the multiples of a convergent are from halfway points tells how far all decimals
are. -/
def isSeparatedBy (e : ℤ) (c : ℕ × ℕ) : Bool :=
  let r := ((c.1 * numerator e : ℤ) - c.2 * denominator e).natAbs
  decide (2 ^ 50 * r + c.1 * denominator e < 2 ^ 26 * denominator e) &&
    decide (Nat.Coprime c.1 c.2) &&
    (List.range (2 ^ 24 / c.1 + 1)).all fun u =>
      decide (u * c.2 % 2 = 0) || decide (2 ^ 25 ≤ u * c.2) ||
        (decide (e ≠ -149) && decide (u * c.2 ≤ 2 ^ 24)) ||
        decide (denominator e ≤ 2 ^ 26 * (u * r)) || exceptions.contains (e, u * c.2)

/-- The grid is as fine as it is said to be, and its decimals are not close to halfway points. -/
def isSeparated (e : ℤ) : Bool :=
  decide (2 * denominator e ≤ numerator e) &&
    decide (2 ^ 20 * numerator e ≤ 20 * (2 ^ 20 - 1) * denominator e) &&
    if denominator e ≤ 2 ^ 26 * Nat.gcd (numerator e) (denominator e) then
      decide (-40 ≤ e) && decide (e ≤ 40)
    else isSeparatedBy e (convergent 100 (numerator e) (denominator e) (1, 0) (0, 1))

theorem isSeparated_of_lt : ∀ n < 254, isSeparated ((n : ℕ) - 149) = true := by
  decide +kernel

theorem ten_zpow_grid (e : ℤ) :
    (10 : ℚ) ^ grid e = numerator e / denominator e * 2 ^ (e - 1) := by
  have hten (k : ℤ) : (10 : ℚ) ^ k = 10 ^ k.toNat / 10 ^ (-k).toNat := by
    rw [← zpow_natCast, ← zpow_natCast, ← zpow_sub₀ (by norm_num)]
    congr 1
    omega
  have htwo (k : ℤ) : (2 : ℚ) ^ k = 2 ^ k.toNat / 2 ^ (-k).toNat := by
    rw [← zpow_natCast, ← zpow_natCast, ← zpow_sub₀ (by norm_num)]
    congr 1
    omega
  rw [hten, htwo, neg_sub, numerator, denominator]
  push_cast
  field_simp

theorem denominator_pos (e : ℤ) : 0 < denominator e := by
  unfold denominator
  positivity

section

variable {e : ℤ} (hlow : -149 ≤ e) (hhigh : e ≤ 104)
include hlow hhigh

theorem isSeparated_eq_true : isSeparated e = true := by
  have h := isSeparated_of_lt (e + 149).toNat (by omega)
  rwa [show (((e + 149).toNat : ℕ) : ℤ) - 149 = e by omega] at h

/-- The grid is not finer than a unit of the last place, and the next finer one is. -/
theorem grid_bounds : (2 : ℚ) ^ e ≤ 10 ^ grid e ∧
    (10 : ℚ) ^ (grid e - 1) ≤ 2 ^ e * (1 - 1 / 2 ^ 20) := by
  have hseparated := isSeparated_eq_true hlow hhigh
  simp only [isSeparated, Bool.and_eq_true, decide_eq_true_eq] at hseparated
  obtain ⟨⟨hcoarse, hfine⟩, -⟩ := hseparated
  have hden : (0 : ℚ) < denominator e := by exact_mod_cast denominator_pos e
  have hcoarse' : (2 : ℚ) * denominator e ≤ numerator e := by exact_mod_cast hcoarse
  have hfine' : (2 : ℚ) ^ 20 * numerator e ≤ 20 * (2 ^ 20 - 1) * denominator e := by
    have h : ((2 ^ 20 * numerator e : ℕ) : ℚ) ≤ (20 * (2 ^ 20 - 1) * denominator e : ℕ) := by
      exact_mod_cast hfine
    push_cast at h
    norm_num at h ⊢
    exact h
  have hhalf : (2 : ℚ) ^ e = 2 * 2 ^ (e - 1) := by
    rw [zpow_sub_one₀ two_ne_zero]
    ring
  have hpow : (0 : ℚ) < 2 ^ (e - 1) := by positivity
  constructor
  · rw [ten_zpow_grid, hhalf]
    gcongr
    rwa [le_div_iff₀ hden]
  · rw [zpow_sub_one₀ (by norm_num), ten_zpow_grid, hhalf]
    have hratio : (numerator e : ℚ) / denominator e ≤ 20 * (1 - 1 / 2 ^ 20) := by
      rw [div_le_iff₀ hden]
      linarith
    calc (numerator e : ℚ) / denominator e * 2 ^ (e - 1) * 10⁻¹
        ≤ 20 * (1 - 1 / 2 ^ 20) * 2 ^ (e - 1) * 10⁻¹ := by gcongr
      _ = 2 * 2 ^ (e - 1) * (1 - 1 / 2 ^ 20) := by ring

theorem near_halfway_ratio {d h : ℕ} (hd : 0 < d) (hd' : d ≤ 2 ^ 24) (hodd : h % 2 = 1)
    (hh : h < 2 ^ 25) (hbits : e = -149 ∨ 2 ^ 24 < h)
    (hnear : 2 ^ 26 * |(d * numerator e : ℤ) - h * denominator e| < denominator e) :
    d * numerator e = h * denominator e ∧ -40 ≤ e ∧ e ≤ 40 ∨ (e, h) ∈ exceptions := by
  have hseparated := isSeparated_eq_true hlow hhigh
  simp only [isSeparated, Bool.and_eq_true, decide_eq_true_eq] at hseparated
  obtain ⟨-, hseparated⟩ := hseparated
  split at hseparated
  · next hgcd =>
      simp only [Bool.and_eq_true, decide_eq_true_eq] at hseparated
      exact .inl ⟨eq_of_near hgcd hnear, hseparated⟩
  · right
    generalize convergent 100 (numerator e) (denominator e) (1, 0) (0, 1) = c at hseparated
    simp only [isSeparatedBy, Bool.and_eq_true, decide_eq_true_eq, List.all_eq_true,
      List.mem_range, Bool.or_eq_true, List.contains_iff_mem] at hseparated
    obtain ⟨⟨hconvergent, hcoprime⟩, hmultiples⟩ := hseparated
    have hcross : h * c.1 = d * c.2 := by
      refine mul_eq_mul_of_near hd' hnear ?_
      rw [← Int.natCast_natAbs]
      exact_mod_cast hconvergent
    obtain ⟨u, hpos, rfl, rfl⟩ := exists_multiple hd hcoprime hcross
    have hu : u < 2 ^ 24 / c.1 + 1 :=
      Nat.lt_succ_of_le ((Nat.le_div_iff_mul_le hpos).mpr hd')
    have hscale : ((u * c.1 : ℕ) * numerator e : ℤ) - (u * c.2 : ℕ) * denominator e =
        u * ((c.1 * numerator e : ℤ) - c.2 * denominator e) := by
      push_cast
      ring
    have hfar : 2 ^ 26 * (u * ((c.1 * numerator e : ℤ) - c.2 * denominator e).natAbs) <
        denominator e := by
      rw [hscale, abs_mul, Nat.abs_cast, ← Int.natCast_natAbs] at hnear
      exact_mod_cast hnear
    obtain (((heven | hlarge) | ⟨hleast, hsmall⟩) | hnone) | hexception := hmultiples u hu
    · omega
    · omega
    · omega
    · omega
    · exact hexception

/-- A decimal of the grid that is close to a halfway point is one, or the point is one of the
exceptions. -/
theorem near_halfway {d h : ℕ} (hd : 0 < d) (hd' : d ≤ 2 ^ 24) (hodd : h % 2 = 1)
    (hh : h < 2 ^ 25) (hbits : e = -149 ∨ 2 ^ 24 < h)
    (hnear : |(d : ℚ) * 10 ^ grid e - h * 2 ^ (e - 1)| < 2 ^ (e - 1) / 2 ^ 26) :
    (d : ℚ) * 10 ^ grid e = h * 2 ^ (e - 1) ∧ -40 ≤ e ∧ e ≤ 40 ∨ (e, h) ∈ exceptions := by
  have hden : (0 : ℚ) < denominator e := by exact_mod_cast denominator_pos e
  have hpow : (0 : ℚ) < 2 ^ (e - 1) := by positivity
  have hdiff : (d : ℚ) * 10 ^ grid e - h * 2 ^ (e - 1) =
      (d * numerator e - h * denominator e) / denominator e * 2 ^ (e - 1) := by
    rw [ten_zpow_grid]
    field_simp
  have hratio : 2 ^ 26 * |(d * numerator e : ℤ) - h * denominator e| < denominator e := by
    rw [hdiff, abs_mul, abs_div, abs_of_pos hpow, abs_of_pos hden] at hnear
    have hquotient : |(d : ℚ) * numerator e - h * denominator e| / denominator e < 1 / 2 ^ 26 := by
      refine lt_of_mul_lt_mul_right (hnear.trans_eq ?_) hpow.le
      ring
    rw [div_lt_iff₀ hden] at hquotient
    have hproduct : (2 : ℚ) ^ 26 * |(d : ℚ) * numerator e - h * denominator e| < denominator e := by
      linarith
    exact_mod_cast hproduct
  refine (near_halfway_ratio hlow hhigh hd hd' hodd hh hbits hratio).imp_left ?_
  rintro ⟨heq, hsmall⟩
  refine ⟨sub_eq_zero.mp ?_, hsmall⟩
  have heq' : (d : ℚ) * numerator e = h * denominator e := by exact_mod_cast heq
  rw [hdiff, heq', sub_self, zero_div, zero_mul]

end

end MutantGate.Halfway
