import MutantGate.Proofs.Numerals
import MutantGate.Proofs.RoundedNumbers
/-!
# Shortest decimals

The decimal that is taken for a number lies in the interval that rounds to it.  On a grid that is
finer than the interval is wide one of the two neighbours always does, and the nearer one is taken;
so no grid finer than that is ever used, and on this one the decimal is off by half a unit of the
grid at most.

## What is proved

`exists_shortest`, for every number around which numbers are equally dense: the search gives a
decimal, and this lies inside the interval, on a grid that is not too fine, and close to the number
if the grid is the finest that may be needed.

## What is left outside

Powers of two, below which numbers are twice as dense; `Proofs.ReadBack` computes them.  And that no
decimal with fewer digits lies in the interval, which reading back does not need.
-/

namespace MutantGate

open BinaryFormat

namespace RoundingInterval

variable {i : RoundingInterval} {v : ℚ}

/-- A number lies in the interval, or at its ends if these belong to it. -/
def Contains (i : RoundingInterval) (v : ℚ) : Prop :=
  if i.isClosed then (i.low : ℚ) / i.denominator ≤ v ∧ v ≤ i.high / i.denominator
  else (i.low : ℚ) / i.denominator < v ∧ v < i.high / i.denominator

theorem holds_iff (hden : 0 < i.denominator) {t : ℕ} : i.holds t = true ↔ i.Contains t := by
  have hq : (0 : ℚ) < i.denominator := by exact_mod_cast hden
  rw [holds, Contains]
  split <;>
  simp only [Bool.and_eq_true, decide_eq_true_eq, div_le_iff₀ hq, le_div_iff₀ hq, div_lt_iff₀ hq,
    lt_div_iff₀ hq, ← Nat.cast_mul, Nat.cast_le, Nat.cast_lt]

theorem inUnits_denominator_pos (hden : 0 < i.denominator) (k : ℤ) :
    0 < (i.inUnits k).denominator := by
  unfold inUnits
  split
  · exact Nat.mul_pos hden (Nat.pow_pos (by decide))
  · exact hden

theorem inUnits_isClosed (k : ℤ) : (i.inUnits k).isClosed = i.isClosed := by
  unfold inUnits
  split <;> rfl

/-- In units of `10 ^ k` the ends and the middle are divided by it. -/
theorem inUnits_values (i : RoundingInterval) (k : ℤ) :
    ((i.inUnits k).low : ℚ) / (i.inUnits k).denominator = i.low / i.denominator / 10 ^ k ∧
      ((i.inUnits k).mid : ℚ) / (i.inUnits k).denominator = i.mid / i.denominator / 10 ^ k ∧
      ((i.inUnits k).high : ℚ) / (i.inUnits k).denominator = i.high / i.denominator / 10 ^ k := by
  unfold inUnits
  split
  · next hk =>
      obtain ⟨n, rfl⟩ := Int.eq_ofNat_of_zero_le hk
      simp only [Int.toNat_natCast, Nat.pow_eq, Nat.cast_mul, Nat.cast_pow, Nat.cast_ofNat,
        zpow_natCast, div_div, and_self]
  · next hk =>
      obtain ⟨n, rfl⟩ : ∃ n : ℕ, k = -n := ⟨(-k).toNat, by omega⟩
      simp only [neg_neg, Int.toNat_natCast, Nat.pow_eq, Nat.cast_mul, Nat.cast_pow,
        Nat.cast_ofNat, zpow_neg, zpow_natCast, div_inv_eq_mul, mul_div_right_comm, and_self]

/-- What lies in the interval measured in units lies in the interval. -/
theorem contains_inUnits_iff {k : ℤ} : (i.inUnits k).Contains v ↔ i.Contains (v * 10 ^ k) := by
  have hpow : (0 : ℚ) < 10 ^ k := by positivity
  obtain ⟨hlow, -, hhigh⟩ := i.inUnits_values k
  simp only [Contains, inUnits_isClosed, hlow, hhigh, div_le_iff₀ hpow, div_lt_iff₀ hpow,
    le_div_iff₀ hpow, lt_div_iff₀ hpow]

/-- If a unit is less than half of the interval on either side, then the whole number that is
taken is off by half a unit at most. -/
theorem exists_neighbour? (tie : Tie) (hden : 0 < i.denominator)
    (hlow : (i.low : ℚ) / i.denominator + 1 / 2 < i.mid / i.denominator)
    (hhigh : (i.mid : ℚ) / i.denominator + 1 / 2 < i.high / i.denominator) :
    ∃ t, i.neighbour? tie = some t ∧ |(t : ℚ) - i.mid / i.denominator| ≤ 1 / 2 := by
  have hq : (0 : ℚ) < i.denominator := by exact_mod_cast hden
  have hinside {t : ℕ} (ht : |(t : ℚ) - i.mid / i.denominator| ≤ 1 / 2) : i.holds t = true := by
    rw [holds_iff hden, Contains]
    rw [abs_le] at ht
    split <;> constructor <;> linarith
  have hbelow (h : 2 * (i.mid % i.denominator) ≤ i.denominator) := abs_div_sub_le hden h
  have habove (h : i.denominator ≤ 2 * (i.mid % i.denominator)) := abs_div_add_one_sub_le hden h
  unfold neighbour?
  dsimp only
  split
  · next hout =>
      refine ⟨_, rfl, hbelow ?_⟩
      by_contra h
      rw [hinside (habove (by omega))] at hout
      cases hout
  · next hout _ =>
      refine ⟨_, rfl, habove ?_⟩
      by_contra h
      rw [hinside (hbelow (by omega))] at hout
      cases hout
  · next hout hout' =>
      obtain h | h := le_total (2 * (i.mid % i.denominator)) i.denominator
      · rw [hinside (hbelow h)] at hout
        cases hout
      · rw [hinside (habove h)] at hout'
        cases hout'
  · split
    · next hlt => exact ⟨_, rfl, hbelow hlt.le⟩
    · next hlt =>
        split
        · next hgt => exact ⟨_, rfl, habove hgt.le⟩
        · next hgt =>
            cases tie with
            | up => exact ⟨_, rfl, habove (not_lt.mp hlt)⟩
            | toEven =>
                refine ⟨_, rfl, ?_⟩
                split
                · exact hbelow (not_lt.mp hgt)
                · exact habove (not_lt.mp hlt)

theorem contains_of_neighbour? {tie : Tie} (hden : 0 < i.denominator) {t : ℕ}
    (h : i.neighbour? tie = some t) : i.Contains t := by
  rw [← holds_iff hden]
  exact holds_of_neighbour? h

end RoundingInterval

namespace Binary32

open RoundingInterval

/-! ## The interval of a number -/

section

variable {m : ℕ} {e : ℤ} {v : ℚ}

theorem interval_denominator_pos (m : ℕ) (e : ℤ) : 0 < (interval m e).denominator :=
  shiftLeft_pos one_pos _

theorem interval_scale (m : ℕ) (e : ℤ) (n : ℕ) :
    ((n * 1 <<< (e - 2).toNat : ℕ) : ℚ) / (interval m e).denominator = n * 2 ^ (e - 2) := by
  have h := shift_div_shift n 1 (2 - e)
  rw [neg_sub, Nat.cast_one, div_one, ← neg_sub e 2, zpow_neg, div_inv_eq_mul, neg_sub,
    Nat.shiftLeft_eq, ← Nat.one_mul (2 ^ _), ← Nat.shiftLeft_eq] at h
  exact h

theorem interval_mid (m : ℕ) (e : ℤ) :
    ((interval m e).mid : ℚ) / (interval m e).denominator = m * 2 ^ e := by
  have h := interval_scale m e (4 * m)
  rw [zpow_sub₀ two_ne_zero] at h
  refine h.trans ?_
  push_cast
  ring

theorem interval_high (m : ℕ) (e : ℤ) :
    ((interval m e).high : ℚ) / (interval m e).denominator = m * 2 ^ e + 2 ^ e / 2 := by
  have h := interval_scale m e (4 * m + 2)
  rw [zpow_sub₀ two_ne_zero] at h
  refine h.trans ?_
  push_cast
  ring

/-- Where the numbers are equally dense on both sides, the interval reaches half a unit down. -/
theorem interval_low (hgap : ¬ (m = 0x800000 ∧ -149 < e)) (hm : m ≠ 0) :
    ((interval m e).low : ℚ) / (interval m e).denominator = m * 2 ^ e - 2 ^ e / 2 := by
  have h := interval_scale m e (4 * m - 2)
  rw [zpow_sub₀ two_ne_zero, Nat.cast_sub (by omega)] at h
  have hlow : (interval m e).low = (4 * m - 2) * 1 <<< (e - 2).toNat := by
    simp only [interval, hgap, if_false]
  rw [hlow]
  refine h.trans ?_
  push_cast
  ring

theorem contains_interval_iff (hgap : ¬ (m = 0x800000 ∧ -149 < e)) (hm : m ≠ 0) :
    (interval m e).Contains v ↔
      |v - m * 2 ^ e| ≤ 2 ^ e / 2 ∧ (|v - m * 2 ^ e| < 2 ^ e / 2 ∨ m % 2 = 0) := by
  have hclosed : (interval m e).isClosed = (m % 2 == 0) := rfl
  rw [Contains, interval_low hgap hm, interval_high, hclosed, abs_le, abs_lt]
  by_cases heven : m % 2 = 0
  · simp only [heven, beq_self_eq_true, if_true, or_true, and_true]
    constructor <;> rintro ⟨hl, hh⟩ <;> constructor <;> linarith
  · simp only [heven, beq_iff_eq, if_false, or_false]
    constructor
    · rintro ⟨hl, hh⟩
      refine ⟨⟨?_, ?_⟩, ?_, ?_⟩ <;> linarith
    · rintro ⟨-, hl, hh⟩
      constructor <;> linarith

end

/-! ## The decimal that is taken -/

theorem mem_grids_iff {k : ℤ} : k ∈ grids ↔ -59 ≤ k ∧ k ≤ 40 := by
  simp only [grids, List.mem_map, List.mem_range]
  constructor
  · rintro ⟨n, hn, rfl⟩
    omega
  · intro h
    exact ⟨(40 - k).toNat, by omega, by omega⟩

theorem grids_pairwise : grids.Pairwise (· > ·) := by
  decide

/-- A grid that is finer than the interval is wide has a decimal for the number, which is off by
half a unit at most. -/
theorem exists_neighbour?_inUnits (tie : Tie) {m : ℕ} {e k : ℤ}
    (hgap : ¬ (m = 0x800000 ∧ -149 < e)) (hm : m ≠ 0) (hfine : (10 : ℚ) ^ k < 2 ^ e) :
    ∃ t, ((interval m e).inUnits k).neighbour? tie = some t ∧
      |(t : ℚ) * 10 ^ k - m * 2 ^ e| ≤ 10 ^ k / 2 := by
  have hpow : (0 : ℚ) < 10 ^ k := by positivity
  obtain ⟨hlow, hmid, hhigh⟩ := (interval m e).inUnits_values k
  rw [interval_low hgap hm] at hlow
  rw [interval_mid] at hmid
  rw [interval_high] at hhigh
  have hhalf : (1 : ℚ) / 2 < 2 ^ e / 2 / 10 ^ k := by
    rw [lt_div_iff₀ hpow]
    linarith
  obtain ⟨t, ht, hnear⟩ := exists_neighbour? tie
    (inUnits_denominator_pos (interval_denominator_pos m e) k)
    (by rw [hlow, hmid, sub_div]; linarith) (by rw [hhigh, hmid, add_div]; linarith)
  refine ⟨t, ht, ?_⟩
  rw [hmid] at hnear
  have hscale : (t : ℚ) * 10 ^ k - m * 2 ^ e = (t - m * 2 ^ e / 10 ^ k) * 10 ^ k := by
    field_simp
  rw [hscale, abs_mul, abs_of_pos hpow]
  calc _ ≤ 1 / 2 * (10 : ℚ) ^ k := by gcongr
    _ = 10 ^ k / 2 := by ring

/-- The decimal that is taken lies in the interval.  The grid it is taken from is not finer than
one that is already finer than the interval is wide, and on that one it is off by half a unit of
the grid at most. -/
theorem exists_shortest (tie : Tie) {m : ℕ} {e k₀ : ℤ} (hgap : ¬ (m = 0x800000 ∧ -149 < e))
    (hm : m ≠ 0) (hgrid : k₀ ∈ grids) (hfine : (10 : ℚ) ^ k₀ < 2 ^ e) :
    ∃ d k, shortest tie m e = (d, k) ∧ k ∈ grids ∧ k₀ ≤ k ∧
      (interval m e).Contains (d * 10 ^ k) ∧
      (k = k₀ → |(d : ℚ) * 10 ^ k - m * 2 ^ e| ≤ 10 ^ k / 2) := by
  obtain ⟨t, ht, hnear⟩ := exists_neighbour?_inUnits tie hgap hm hfine
  let taken (k : ℤ) : Option (ℕ × ℤ) :=
    (((interval m e).inUnits k).neighbour? tie).map fun d => (d, k)
  have htaken : taken k₀ = some (t, k₀) := congrArg (Option.map fun d => (d, k₀)) ht
  cases hfound : grids.findSome? taken with
  | none =>
      rw [List.findSome?_eq_none_iff.mp hfound k₀ hgrid] at htaken
      cases htaken
  | some p =>
      obtain ⟨coarser, k, finer, hgrids, hk, hnone⟩ := List.findSome?_eq_some_iff.mp hfound
      obtain ⟨d, hd, rfl⟩ := Option.map_eq_some_iff.mp hk
      have hle : k₀ ≤ k := by
        rw [hgrids, List.mem_append, List.mem_cons] at hgrid
        obtain hcoarser | rfl | hfiner := hgrid
        · rw [hnone k₀ hcoarser] at htaken
          cases htaken
        · exact le_rfl
        · have hsorted := grids_pairwise
          rw [hgrids] at hsorted
          exact (List.rel_of_pairwise_cons (List.pairwise_append.mp hsorted).2.1 hfiner).le
      have hden := inUnits_denominator_pos (interval_denominator_pos m e) k
      refine ⟨d, k, ?_, by rw [hgrids]; simp, hle,
        contains_inUnits_iff.mp (contains_of_neighbour? hden hd), ?_⟩
      · rw [shortest]
        exact congrArg (Option.getD · (0, 0)) hfound
      · rintro rfl
        rw [ht] at hd
        obtain rfl := Option.some.inj hd
        exact hnear

end Binary32

end MutantGate
