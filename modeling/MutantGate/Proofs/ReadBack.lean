import Mathlib.Tactic.LinearCombination
import MutantGate.IR.JsonForm
import MutantGate.Proofs.HalfwayPoints
import MutantGate.Proofs.ReadNumerals
import MutantGate.Proofs.ShortestDecimals
/-!
# Numbers read back

The numeral that JSON has for a finite number is read as this number, although it is read through
double precision and rounded twice.  The double-precision number is off by one part in `2 ^ 51` of
the decimal at most.  So it is rounded to the number the decimal lies closest to, unless the
decimal comes as close as that to a point halfway between two numbers.  Such a decimal is the point
itself, then it is small enough to be exact in double precision and the tie is broken as
the decimal needs it; or the number is one of four exceptional ones, which are checked one by one.
Powers of two are checked as well, because the numbers below them are twice as dense.

## What is proved

For every finite number of single precision, zeros of both signs included: the numeral that is
written for it exists, is read, and is read as this number, bit by bit
(`exists_numeral?_toBinary32?`).

## What is left outside

Other numerals of the same number.  Reading through double precision rounds twice, so a decimal that
is not the shortest one may be read as a neighbour of the nearest number.
-/

namespace MutantGate

open BinaryFormat

/-- A number rounded to single precision. -/
def BinaryNumber.toSingle (a : BinaryNumber) : BinaryNumber :=
  single.round (a.significand <<< a.exponent.toNat) (1 <<< (-a.exponent).toNat)

/-- The place of a number of single precision among those of its sign. -/
def BinaryNumber.place (a : BinaryNumber) : ℕ :=
  (a.exponent + 149).toNat * 0x800000 + a.significand

theorem BinaryNumber.place_mk (m : ℕ) (e : ℤ) :
    BinaryNumber.place ⟨m, e⟩ = (e + 149).toNat * 0x800000 + m := rfl

namespace Binary32

/-! ## Significands and exponents -/

/-- The significand and exponent of a number other than zero. -/
structure IsParts (m : ℕ) (e : ℤ) : Prop where
  pos : 0 < m
  lt : m < 2 ^ 24
  low : -149 ≤ e
  high : e ≤ 104
  bits : e = -149 ∨ 2 ^ 23 ≤ m

section

variable {x : Binary32} {m : ℕ} {e : ℤ}

/-- The bit pattern of a finite number has its parts in their places. -/
theorem bits_of_magnitude (h : x.magnitude = .finite m e) :
    x.bits.toNat = (if x.isNegative then 0x80000000 else 0) + ((e + 149).toNat * 0x800000 + m) ∧
      m < 2 ^ 24 ∧ -149 ≤ e ∧ e ≤ 104 ∧ (e = -149 ∨ 2 ^ 23 ≤ m) := by
  have hlt := x.bits.toNat_lt
  have hfield : x.exponentField = x.bits.toNat / 0x800000 % 256 := by
    rw [exponentField, Nat.shiftRight_eq_div_pow]
  have hfraction : x.fractionField = x.bits.toNat % 0x800000 := rfl
  have hsign : x.isNegative = decide (0x80000000 ≤ x.bits.toNat) := rfl
  rw [hsign]
  simp only [decide_eq_true_eq]
  unfold magnitude at h
  split at h
  · next hzero =>
      obtain ⟨rfl, rfl⟩ := Magnitude.finite.inj h
      split <;> omega
  · split at h <;> cases h
  · next hzero hmax =>
      obtain ⟨rfl, rfl⟩ := Magnitude.finite.inj h
      have : x.exponentField ≠ 0 := hzero
      have : x.exponentField ≠ 255 := hmax
      split <;> omega

theorem isParts_of_magnitude (h : x.magnitude = .finite m e) (hm : m ≠ 0) : IsParts m e := by
  obtain ⟨-, hlt, hlow, hhigh, hbits⟩ := bits_of_magnitude h
  exact ⟨Nat.pos_of_ne_zero hm, hlt, hlow, hhigh, hbits⟩

/-- A number that is rounded to the place of `x` is `x`. -/
theorem toBinary32_eq (h : x.magnitude = .finite m e) {r : BinaryNumber}
    (hr : r.toSingle.place = BinaryNumber.place ⟨m, e⟩) : r.toBinary32 x.isNegative = x := by
  obtain ⟨hbits, hlt, hlow, hhigh, -⟩ := bits_of_magnitude h
  have hplace : min r.toSingle.place 0x7f800000 = (e + 149).toNat * 0x800000 + m := by
    rw [hr, BinaryNumber.place_mk]
    omega
  have hmod : ((if x.isNegative then 0x80000000 + ((e + 149).toNat * 0x800000 + m)
      else (e + 149).toNat * 0x800000 + m).toUInt32) = x.bits := by
    rw [← UInt32.toNat_inj, hbits]
    cases x.isNegative <;> simp <;> omega
  rw [← hplace] at hmod
  exact congrArg Binary32.mk hmod

end

/-! ## How far the decimal is from the ends of the interval -/

/-- The numbers on both sides of the halfway points that a decimal comes close to. -/
def exceptionalParts : List (ℕ × ℤ) :=
  [(9014099, -133), (9014100, -133), (11420669, -107), (11420670, -107)]

/-- A decimal stays away from the ends of the interval by one part in `2 ^ 26`. -/
def IsInner (m : ℕ) (e : ℤ) (v : ℚ) : Prop := |v - m * 2 ^ e| ≤ 2 ^ e / 2 * (1 - 1 / 2 ^ 26)

section

variable {m : ℕ} {e : ℤ} {d : ℕ} {v : ℚ}

theorem IsParts.bounds (h : IsParts m e) (hv : |v - m * 2 ^ e| ≤ 2 ^ e / 2) :
    0 < v ∧ v < 2 ^ 24 * 2 ^ e := by
  have hpow : (0 : ℚ) < 2 ^ e := by positivity
  have hone : (1 : ℚ) ≤ m := by exact_mod_cast h.pos
  have hlt : (m : ℚ) + 1 ≤ 2 ^ 24 := by exact_mod_cast h.lt
  rw [abs_le] at hv
  constructor <;> nlinarith

theorem two_zpow_eq (e : ℤ) : (2 : ℚ) ^ e = 2 * 2 ^ (e - 1) := by
  rw [zpow_sub_one₀ two_ne_zero]
  ring

/-- The ends of the interval are odd multiples of half a unit. -/
theorem abs_end_sub {n : ℕ} (hn : n = 2 * m + 1 ∨ n + 1 = 2 * m) :
    |(n : ℚ) * 2 ^ (e - 1) - m * 2 ^ e| = 2 ^ e / 2 := by
  have hpow : (0 : ℚ) < 2 ^ (e - 1) := by positivity
  rw [two_zpow_eq e]
  obtain rfl | hn := hn
  · have hdiff : ((2 * m + 1 : ℕ) : ℚ) * 2 ^ (e - 1) - m * (2 * 2 ^ (e - 1)) = 2 ^ (e - 1) := by
      push_cast
      ring
    rw [hdiff, abs_of_pos hpow]
    ring
  · have hn' : (n : ℚ) + 1 = 2 * m := by exact_mod_cast hn
    have hdiff : (n : ℚ) * 2 ^ (e - 1) - m * (2 * 2 ^ (e - 1)) = -2 ^ (e - 1) := by
      linear_combination 2 ^ (e - 1) * hn'
    rw [hdiff, abs_neg, abs_of_pos hpow]
    ring

/-- A decimal of the grid that comes close to an end of the interval is this end, or the number is
one of the exceptional ones. -/
theorem IsParts.eq_end_of_near (h : IsParts m e) (hgap : ¬ (m = 0x800000 ∧ -149 < e))
    (hd : 0 < d) (hd' : d ≤ 2 ^ 24) {n : ℕ} (hn : n = 2 * m + 1 ∨ n + 1 = 2 * m)
    (hnear : |(d : ℚ) * 10 ^ Halfway.grid e - n * 2 ^ (e - 1)| < 2 ^ (e - 1) / 2 ^ 26) :
    (d : ℚ) * 10 ^ Halfway.grid e = n * 2 ^ (e - 1) ∧ -40 ≤ e ∧ e ≤ 40 ∨
      (m, e) ∈ exceptionalParts := by
  have := h.pos
  have := h.lt
  have := h.low
  have := h.bits
  refine (Halfway.near_halfway h.low h.high hd hd' (by omega) (by omega) (by omega) hnear).imp_right
    fun hexception => ?_
  simp only [Halfway.exceptions, exceptionalParts, List.mem_cons, List.not_mem_nil, or_false,
    Prod.mk.injEq] at hexception ⊢
  omega

/-- A decimal of the grid that is not well inside the interval is an end of it, or the number is
one of the exceptional ones. -/
theorem IsParts.eq_end_of_not_isInner (h : IsParts m e) (hgap : ¬ (m = 0x800000 ∧ -149 < e))
    (hv : |(d : ℚ) * 10 ^ Halfway.grid e - m * 2 ^ e| ≤ 2 ^ e / 2)
    (hinner : ¬ IsInner m e (d * 10 ^ Halfway.grid e)) :
    (∃ n : ℕ, n < 2 ^ 25 ∧ (d : ℚ) * 10 ^ Halfway.grid e = n * 2 ^ (e - 1) ∧
      |(n : ℚ) * 2 ^ (e - 1) - m * 2 ^ e| = 2 ^ e / 2 ∧ -40 ≤ e ∧ e ≤ 40) ∨
      (m, e) ∈ exceptionalParts := by
  obtain ⟨hpos, hlt⟩ := h.bounds hv
  have hten : (0 : ℚ) < 10 ^ Halfway.grid e := by positivity
  have hd : 0 < d := by
    rw [← Nat.cast_pos (α := ℚ)]
    exact pos_of_mul_pos_left hpos hten.le
  have hd' : d ≤ 2 ^ 24 := by
    have hprod : (d : ℚ) * 10 ^ Halfway.grid e < 2 ^ 24 * 10 ^ Halfway.grid e :=
      hlt.trans_le (mul_le_mul_of_nonneg_left (Halfway.grid_bounds h.low h.high).1 (by norm_num))
    have := lt_of_mul_lt_mul_right hprod hten.le
    exact_mod_cast this.le
  obtain ⟨n, hn, hnear⟩ : ∃ n : ℕ, (n = 2 * m + 1 ∨ n + 1 = 2 * m) ∧
      |(d : ℚ) * 10 ^ Halfway.grid e - n * 2 ^ (e - 1)| < 2 ^ (e - 1) / 2 ^ 26 := by
    rw [IsInner, not_le, two_zpow_eq e] at hinner
    rw [two_zpow_eq e] at hv
    have hm : ((2 * m - 1 : ℕ) : ℚ) = 2 * m - 1 := by
      rw [Nat.cast_sub (by have := h.pos; omega)]
      push_cast
      ring
    obtain hle | hle := le_total ((m : ℚ) * (2 * 2 ^ (e - 1))) (d * 10 ^ Halfway.grid e)
    · refine ⟨2 * m + 1, .inl rfl, ?_⟩
      rw [abs_of_nonneg (by linarith)] at hv hinner
      push_cast
      rw [abs_of_nonpos (by linarith)]
      linarith
    · refine ⟨2 * m - 1, .inr (by have := h.pos; omega), ?_⟩
      rw [abs_of_nonpos (by linarith)] at hv hinner
      rw [hm, abs_of_nonneg (by linarith)]
      linarith
  refine (h.eq_end_of_near hgap hd hd' hn hnear).imp_left fun ⟨heq, hsmall⟩ => ?_
  exact ⟨n, by have := h.lt; omega, heq, abs_end_sub hn, hsmall⟩

/-- A decimal of a coarser grid is one of the grid. -/
theorem decimal_eq (d : ℕ) {k k' : ℤ} (hk : k' ≤ k) :
    (d : ℚ) * 10 ^ k = (d * 10 ^ (k - k').toNat : ℕ) * 10 ^ k' := by
  push_cast
  rw [mul_assoc, ← zpow_natCast, ← zpow_add₀ (by norm_num)]
  congr 2
  omega

/-- The decimal that is taken is well inside the interval, or it is an end of it and small enough
to be exact in double precision. -/
theorem IsParts.exists_shortest (h : IsParts m e) (hgap : ¬ (m = 0x800000 ∧ -149 < e))
    (hexception : (m, e) ∉ exceptionalParts) (tie : Tie) :
    ∃ d k, shortest tie m e = (d, k) ∧ 0 < d ∧ d < 2 ^ 28 ∧ -46 ≤ k ∧ k ≤ 40 ∧
      (interval m e).Contains (d * 10 ^ k) ∧
      (IsInner m e (d * 10 ^ k) ∨ -22 ≤ k ∧ k ≤ 22 ∧
        ∃ n : ℕ, n < 2 ^ 25 ∧ (d : ℚ) * 10 ^ k = n * 2 ^ (e - 1)) := by
  have hlow := h.low
  have hhigh := h.high
  have hgrid : Halfway.grid e = -(-e * 30103 / 100000) := rfl
  obtain ⟨hcoarse, hfine⟩ := Halfway.grid_bounds hlow hhigh
  have hpow : (0 : ℚ) < 2 ^ e := by positivity
  have hfine' : (10 : ℚ) ^ (Halfway.grid e - 1) < 2 ^ e :=
    hfine.trans_lt (mul_lt_of_lt_one_right hpow (by norm_num))
  obtain ⟨d, k, hshortest, hk, hle, hcontains, hnearest⟩ := Binary32.exists_shortest tie
    hgap h.pos.ne' (mem_grids_iff.mpr (by omega)) hfine'
  have hv := ((contains_interval_iff hgap h.pos.ne').mp hcontains).1
  obtain ⟨hpos, hlt⟩ := h.bounds hv
  have hten : (0 : ℚ) < 10 ^ k := by positivity
  have hd : 0 < d := by
    rw [← Nat.cast_pos (α := ℚ)]
    exact pos_of_mul_pos_left hpos hten.le
  refine ⟨d, k, hshortest, hd, ?_, by omega, (mem_grids_iff.mp hk).2, hcontains, ?_⟩
  · have hfinest : (0 : ℚ) < 10 ^ (Halfway.grid e - 1) := by positivity
    have hprod : (d : ℚ) * 10 ^ (Halfway.grid e - 1) < 2 ^ 28 * 10 ^ (Halfway.grid e - 1) :=
      calc (d : ℚ) * 10 ^ (Halfway.grid e - 1) ≤ d * 10 ^ k := by gcongr; norm_num
        _ < 2 ^ 24 * 2 ^ e := hlt
        _ ≤ 2 ^ 24 * 10 ^ Halfway.grid e := by gcongr
        _ = 2 ^ 24 * 10 * 10 ^ (Halfway.grid e - 1) := by
            rw [zpow_sub_one₀ (by norm_num)]
            ring
        _ ≤ 2 ^ 28 * 10 ^ (Halfway.grid e - 1) := by gcongr; norm_num
    have := lt_of_mul_lt_mul_right hprod hfinest.le
    exact_mod_cast this
  · obtain rfl | hcoarser := hle.eq_or_lt
    · -- On the finest grid half a unit of the grid is less than half a unit of the number.
      refine .inl ((hnearest rfl).trans ?_)
      linarith
    · by_cases hinner : IsInner m e (d * 10 ^ k)
      · exact .inl hinner
      have hdecimal := decimal_eq d (by omega : Halfway.grid e ≤ k)
      rw [hdecimal] at hv hinner
      obtain ⟨n, hn, heq, -, hsmall⟩ | hmem := h.eq_end_of_not_isInner hgap hv hinner
      · have hkhigh : (10 : ℚ) ^ k < 10 ^ (22 : ℤ) := by
          calc (10 : ℚ) ^ k ≤ d * 10 ^ k := le_mul_of_one_le_left hten.le (by exact_mod_cast hd)
            _ < 2 ^ 24 * 2 ^ e := hlt
            _ ≤ 2 ^ 24 * 2 ^ (40 : ℤ) := by
                gcongr
                · norm_num
                · exact hsmall.2
            _ < 10 ^ (22 : ℤ) := by norm_num
        have := (zpow_lt_zpow_iff_right₀ (by norm_num : (1 : ℚ) < 10)).mp hkhigh
        exact .inr ⟨by omega, by omega, n, hn, hdecimal.trans heq⟩
      · exact absurd hmem hexception

/-- A number in double precision that is close enough to `m * 2 ^ e` is rounded to it. -/
theorem IsParts.toSingle_eq (h : IsParts m e) (hgap : ¬ (m = 0x800000 ∧ -149 < e))
    {r : BinaryNumber} (hr : |r.value - m * 2 ^ e| ≤ 2 ^ e / 2)
    (heven : |r.value - m * 2 ^ e| < 2 ^ e / 2 ∨ m % 2 = 0) :
    r.toSingle = ⟨m, e⟩ := by
  obtain ⟨hpos, hlt⟩ := h.bounds hr
  have hprecision : single.precision = 24 := rfl
  have hleast : single.least = -149 := rfl
  have hhigh : r.value < 2 ^ (e + single.precision) := by
    rwa [zpow_add₀ two_ne_zero, mul_comm]
  refine (rounds_number hpos).eq_of_abs_le ?_ hr heven
  obtain he | hbits := h.bits
  · exact .inl ⟨by omega, hhigh⟩
  by_cases he : e = -149
  · exact .inl ⟨by omega, hhigh⟩
  · -- The significand is not the least one with all bits, so the number below has all bits, too.
    have hlow := h.low
    have hm : ((2 ^ 23 + 1 : ℕ) : ℚ) ≤ m := by
      have : m ≠ 0x800000 := fun hm => hgap ⟨hm, by omega⟩
      exact_mod_cast (by omega : 2 ^ 23 + 1 ≤ m)
    refine .inr ⟨by omega, ?_, hhigh⟩
    have hpow : (0 : ℚ) < 2 ^ e := by positivity
    rw [hprecision, show e + (24 : ℕ) - 1 = (23 : ℕ) + e by omega, zpow_add₀ two_ne_zero,
      zpow_natCast]
    have hnext : ((2 ^ 23 + 1 : ℕ) : ℚ) * 2 ^ e ≤ m * 2 ^ e := by gcongr
    push_cast at hnext
    linarith [(abs_le.mp hr).1]

/-- The decimal that is taken for `m * 2 ^ e` is read as a number that is rounded back to it. -/
def IsReread (l : Layout) (b : Bool) (m : ℕ) (e : ℤ) : Prop :=
  ∃ r, (l.arrange b (Decimal.digits (shortest l.tie m e).1) ((shortest l.tie m e).2 +
      (Decimal.digits (shortest l.tie m e).1).length - 1)).magnitude? = some r ∧
    r.toSingle.place = BinaryNumber.place ⟨m, e⟩

theorem IsParts.isReread (h : IsParts m e) (hgap : ¬ (m = 0x800000 ∧ -149 < e))
    (hexception : (m, e) ∉ exceptionalParts) {l : Layout} (hlimit : l.limit ≤ 14)
    (hsign : l.positiveExponent ≠ .minus) (b : Bool) : IsReread l b m e := by
  obtain ⟨d, k, hshortest, hd, hd', hlow, hhigh, hcontains, hplace⟩ :=
    h.exists_shortest hgap hexception l.tie
  obtain ⟨hv, heven⟩ := (contains_interval_iff hgap h.pos.ne').mp hcontains
  obtain ⟨p, hp, hread, hlt⟩ := Numeral.exists_magnitude?_arrange hlimit hsign b hd
    (by omega) (by omega : -60 ≤ k) (by omega)
  obtain ⟨hvalue, ht, hle⟩ := Numeral.readings_value hp
  obtain ⟨r, hr, herror, hexact⟩ := Numeral.exists_scaled? (hd.trans_le hle) hlt
    (by omega : -60 ≤ p.2) (by omega)
  rw [hvalue] at herror hexact
  rw [IsReread, hshortest]
  refine ⟨r, hread.trans hr, congrArg BinaryNumber.place ?_⟩
  obtain hinner | ⟨hk, hk', n, hn, hend⟩ := hplace
  · have hclose : |r.value - m * 2 ^ e| < 2 ^ e / 2 := by
      calc |r.value - m * 2 ^ e|
          ≤ |r.value - (d : ℚ) * 10 ^ k| + |(d : ℚ) * 10 ^ k - m * 2 ^ e| := abs_sub_le _ _ _
        _ < 2 ^ e / 2 / 2 ^ 26 + 2 ^ e / 2 * (1 - 1 / 2 ^ 26) := by
            refine add_lt_add_of_lt_of_le (herror.trans_lt ?_) hinner
            have herror' : 4 * Numeral.doubleError = 1 / 2 ^ 51 := by norm_num [Numeral.doubleError]
            rw [herror']
            linarith [(h.bounds hv).2]
        _ = 2 ^ e / 2 := by ring
    exact h.toSingle_eq hgap hclose.le (.inl hclose)
  · have hexact' : r.value = d * 10 ^ k := by
      have hleast : double.least = -1074 := rfl
      have := h.low
      refine (hexact (by omega) (by omega)).value_eq (s := n) (t := e - 1) ?_ (by omega) hend
      exact hn.trans (by decide)
    rw [← hexact'] at hv heven
    exact h.toSingle_eq hgap hv heven

/-! ## Singular numbers -/

/-- The numbers that are not reached by the argument about distances: powers of two, below which
the numbers are twice as dense, and the exceptional ones. -/
def singularParts : List (ℕ × ℤ) :=
  exceptionalParts ++ (List.range 253).map fun (n : ℕ) => (0x800000, (n : ℤ) - 148)

/-- Checks all ways to read the decimal that is taken. -/
def isRereadAll (l : Layout) (m : ℕ) (e : ℤ) : Bool :=
  let (d, k) := shortest l.tie m e
  decide (0 < d ∧ d < 2 ^ 53 ∧ -60 ≤ k ∧ k ≤ 60) && (Numeral.readings l d k).all fun p =>
    (Numeral.scaledOnce? p.1 p.2).map (·.toSingle.place) == some (BinaryNumber.place ⟨m, e⟩)

theorem isReread_of_isRereadAll {l : Layout} (hlimit : l.limit ≤ 14)
    (hsign : l.positiveExponent ≠ .minus) (b : Bool) (h : isRereadAll l m e = true) :
    IsReread l b m e := by
  simp only [isRereadAll, Bool.and_eq_true, decide_eq_true_iff, List.all_eq_true,
    beq_iff_eq] at h
  obtain ⟨⟨hd, hd', hlow, hhigh⟩, hall⟩ := h
  obtain ⟨p, hp, hread, -⟩ := Numeral.exists_magnitude?_arrange hlimit hsign b hd hd' hlow hhigh
  obtain ⟨r, hr, hplace⟩ := Option.map_eq_some_iff.mp (hall p hp)
  obtain ⟨-, ht, -⟩ := Numeral.readings_value hp
  exact ⟨r, by rw [hread, Numeral.scaled?_eq_scaledOnce? _ (by omega), hr], hplace⟩

theorem isRereadAll_singularParts :
    ∀ p ∈ singularParts, isRereadAll jsonLayout p.1 p.2 = true := by
  decide +kernel

theorem IsParts.isReread_jsonLayout (h : IsParts m e) (b : Bool) : IsReread jsonLayout b m e := by
  have hlimit : jsonLayout.limit ≤ 14 := by decide
  have hsign : jsonLayout.positiveExponent ≠ .minus := by decide
  by_cases hsingular : (m, e) ∈ singularParts
  · exact isReread_of_isRereadAll hlimit hsign b (isRereadAll_singularParts (m, e) hsingular)
  simp only [singularParts, List.mem_append, List.mem_map, List.mem_range, Prod.mk.injEq, not_or,
    not_exists, not_and] at hsingular
  refine h.isReread ?_ hsingular.1 hlimit hsign b
  rintro ⟨hm, he⟩
  exact hsingular.2 (e + 148).toNat (by have := h.high; omega) hm.symm (by omega)

end

end Binary32

/-! ## Numerals -/

theorem Layout.arrange_isNegative (l : Layout) (b : Bool) (ds : List Digit) (x : ℤ) :
    (l.arrange b ds x).isNegative = b := by
  unfold Layout.arrange
  split <;> rfl

/-- A laid out decimal has a fraction or an exponent, so it is not read as an integer. -/
theorem Layout.toInt?_arrange (l : Layout) (b : Bool) (ds : List Digit) (x : ℤ) :
    (l.arrange b ds x).toInt? = none := by
  unfold Layout.arrange
  dsimp only
  split
  · cases b <;> rfl
  · split <;> cases b <;> rfl

theorem Numeral.magnitude?_zero (b : Bool) :
    Numeral.magnitude? ⟨b, [Digit.zero], some [Digit.zero], none⟩ = some ⟨0, -1074⟩ := by
  have hread : Numeral.magnitude? ⟨b, [Digit.zero], some [Digit.zero], none⟩ =
      Numeral.scaled? 0 (-1) := rfl
  rw [hread, Numeral.scaled?_eq_scaledOnce? 0 (by decide)]
  decide +kernel

namespace Binary32

/-- Where the numeral has a fraction or an exponent, its magnitude decides. -/
theorem toBinary32?_eq {x : Binary32} {m : ℕ} {e : ℤ} (hx : x.magnitude = .finite m e)
    {n : Numeral} (hn : n.isNegative = x.isNegative) (hint : n.toInt? = none) {r : BinaryNumber}
    (hr : n.magnitude? = some r) (hplace : r.toSingle.place = BinaryNumber.place ⟨m, e⟩) :
    n.toBinary32? = some x := by
  rw [Numeral.toBinary32?, hint]
  dsimp only
  rw [hr, hn, Option.map_some, toBinary32_eq hx hplace]

theorem exists_magnitude_of_isFinite {x : Binary32} (h : x.isFinite) :
    ∃ m e, x.magnitude = .finite m e := by
  unfold magnitude
  split
  · exact ⟨_, _, rfl⟩
  · next hmax => simp [isFinite, hmax] at h
  · exact ⟨_, _, rfl⟩

/-- The numeral of a finite number in JSON is read as this number. -/
theorem exists_numeral?_toBinary32? {x : Binary32} (h : x.isFinite) :
    ∃ n, jsonLayout.numeral? x = some n ∧ n.toBinary32? = some x := by
  obtain ⟨m, e, hx⟩ := exists_magnitude_of_isFinite h
  obtain _ | m := m
  · obtain ⟨-, -, hlow, -, he⟩ := bits_of_magnitude hx
    obtain rfl : e = -149 := by omega
    refine ⟨⟨x.isNegative, [Digit.zero], some [Digit.zero], none⟩, ?_, ?_⟩
    · rw [Layout.numeral?, hx]
      rfl
    · refine toBinary32?_eq hx rfl ?_ (Numeral.magnitude?_zero _) (by decide +kernel)
      cases x.isNegative <;> rfl
  · obtain ⟨r, hr, hplace⟩ :=
      (isParts_of_magnitude hx (Nat.succ_ne_zero m)).isReread_jsonLayout x.isNegative
    refine ⟨_, ?_, toBinary32?_eq hx ?_ (Layout.toInt?_arrange ..) hr hplace⟩
    · rw [Layout.numeral?, hx]
      rfl
    · exact Layout.arrange_isNegative ..

end Binary32

end MutantGate
