import Mathlib.Algebra.Group.Nat.Defs
import GraphicScore.Proofs.Number.Shortest

/-!
# Overflow

Which values are too large to be rounded to a finite magnitude: those from half way between the largest one and
the power of two above it.
-/

namespace GraphicScore

theorem roundHalfEven_bounds (num den : Nat) :
    num / den ≤ roundHalfEven num den ∧ roundHalfEven num den ≤ num / den + 1 := by
  have hmod := Nat.mod_lt (num / den) Nat.two_pos
  simp only [roundHalfEven]
  split
  · omega
  · split <;> omega

/-- An even integer is reached as soon as half of the step up to it has been made. -/
theorem le_roundHalfEven_iff {n num den : Nat} (hn : n % 2 = 0) (hpos : 0 < n) (hden : 0 < den) :
    n ≤ roundHalfEven num den ↔ (2 * n - 1) * den ≤ 2 * num := by
  have hsplit := Nat.div_add_mod num den
  have hlt := Nat.mod_lt num hden
  simp only [roundHalfEven]
  generalize num / den = floor at *
  generalize num % den = left at *
  have hhalf : (2 * n - 1) * den + den = 2 * (den * n) := by
    rw [← Nat.succ_mul, Nat.succ_eq_add_one, Nat.sub_add_cancel (by omega), Nat.mul_assoc, Nat.mul_comm n]
  rcases Nat.lt_or_ge floor n with hfloor | hfloor
  · obtain ⟨k, rfl⟩ := Nat.exists_eq_add_of_lt hfloor
    have hstep : den * (floor + k + 1) = den * floor + den * k + den := by
      rw [Nat.mul_add, Nat.mul_add, Nat.mul_one]
    by_cases hk : k = 0
    · subst hk
      rw [Nat.mul_zero] at hstep
      split
      · omega
      · split <;> omega
    · -- two steps at least, and no rounding makes up for more than one
      have hk' : den ≤ den * k := Nat.le_mul_of_pos_right den (Nat.pos_of_ne_zero hk)
      have hmod := Nat.mod_lt floor Nat.two_pos
      split
      · omega
      · split <;> omega
  · have hle : den * n ≤ den * floor := Nat.mul_le_mul_left den hfloor
    split
    · omega
    · split <;> omega

namespace Binary64

/-- The scale of the largest exponent. -/
def lastScale : Nat := 2045

/-- Half way between the largest magnitude and the power of two above it, in half units. -/
def limit : Nat := (2 * (2 * fractions) - 1) * Nat.pow 2 lastScale

section
variable {num den scale : Nat}

theorem magnitudes_eq : magnitudes = lastScale * fractions + 2 * fractions := by decide

theorem two_pow_scale : 2 ^ (52 + scale) = fractions * Nat.pow 2 scale := by
  rw [Nat.pow_add]
  rfl

theorem scale_mul_two_le {top : Nat} (h : scale < top) : Nat.pow 2 scale * 2 ≤ Nat.pow 2 top :=
  Nat.pow_le_pow_right Nat.two_pos h

theorem round_bounds (num den scale : Nat) :
    num / den / Nat.pow 2 scale ≤ roundHalfEven num (den * Nat.pow 2 scale) ∧
      roundHalfEven num (den * Nat.pow 2 scale) ≤ num / den / Nat.pow 2 scale + 1 := by
  rw [Nat.div_div_eq_div_mul]
  exact roundHalfEven_bounds num _

theorem of_scale_lt (hden : 0 < den) (h : (num / den).log2 - 52 < lastScale) :
    nearestRank num den < magnitudes ∧ 2 * num < limit * den := by
  have hF := fractions_pos
  have hround := (round_bounds num den ((num / den).log2 - 52)).2
  have hnum : num < (num / den + 1) * den := Nat.lt_mul_of_div_lt (Nat.lt_succ_self _) hden
  have hquotient : num / den < 2 ^ (52 + ((num / den).log2 - 52) + 1) := by
    refine Nat.lt_of_lt_of_le Nat.lt_log2_self (Nat.pow_le_pow_right Nat.two_pos ?_)
    omega
  rw [Nat.pow_succ, two_pow_scale] at hquotient
  simp only [nearestRank]
  generalize (num / den).log2 - 52 = scale at *
  constructor
  · have hlt : num / den / Nat.pow 2 scale < 2 * fractions := by
      have hpos : 0 < Nat.pow 2 scale := Nat.two_pow_pos scale
      rwa [Nat.div_lt_iff_lt_mul hpos, Nat.mul_assoc, Nat.mul_comm 2]
    have hle : (scale + 1) * fractions ≤ lastScale * fractions := Nat.mul_le_mul_right _ h
    rw [magnitudes_eq]
    rw [Nat.succ_mul] at hle
    omega
  · -- the integer part and one more is at most the power of two above, which is a scale short of the last one
    have hscale := scale_mul_two_le h
    have hlimit : 2 * (num / den + 1) ≤ limit := by
      have hle : fractions * (Nat.pow 2 scale * 2) ≤ fractions * Nat.pow 2 lastScale :=
        Nat.mul_le_mul_left _ hscale
      have hlast : 2 * fractions * Nat.pow 2 lastScale ≤ limit := Nat.mul_le_mul_right _ (by omega)
      rw [← Nat.mul_assoc] at hle
      rw [Nat.mul_assoc] at hlast
      omega
    calc 2 * num < 2 * ((num / den + 1) * den) := by omega
      _ = 2 * (num / den + 1) * den := (Nat.mul_assoc ..).symm
      _ ≤ limit * den := Nat.mul_le_mul_right den hlimit

theorem of_lt_scale (h : lastScale < (num / den).log2 - 52) :
    magnitudes ≤ nearestRank num den ∧ limit * den ≤ 2 * num := by
  have hF := fractions_pos
  have hround := (round_bounds num den ((num / den).log2 - 52)).1
  have hquotient : 2 ^ (52 + ((num / den).log2 - 52)) ≤ num / den := by
    refine Nat.le_trans (Nat.pow_le_pow_right Nat.two_pos ?_) (Nat.log2_self_le ?_)
    · omega
    · intro hzero
      rw [hzero, Nat.log2_zero] at h
      omega
  rw [two_pow_scale] at hquotient
  simp only [nearestRank]
  generalize (num / den).log2 - 52 = scale at *
  constructor
  · have hle : fractions ≤ num / den / Nat.pow 2 scale := by
      have hpos : 0 < Nat.pow 2 scale := Nat.two_pow_pos scale
      rwa [Nat.le_div_iff_mul_le hpos]
    have hscale : (lastScale + 1) * fractions ≤ scale * fractions := Nat.mul_le_mul_right _ h
    rw [magnitudes_eq]
    rw [Nat.succ_mul] at hscale
    omega
  · have hscale := scale_mul_two_le h
    have hlimit : limit ≤ 2 * (num / den) := by
      have hle : fractions * (Nat.pow 2 lastScale * 2) ≤ fractions * Nat.pow 2 scale :=
        Nat.mul_le_mul_left _ hscale
      have hlast : limit ≤ 2 * (2 * fractions) * Nat.pow 2 lastScale := Nat.mul_le_mul_right _ (by omega)
      rw [← Nat.mul_assoc] at hle
      rw [Nat.mul_assoc, Nat.mul_assoc] at hlast
      omega
    calc limit * den ≤ 2 * (num / den) * den := Nat.mul_le_mul_right den hlimit
      _ = 2 * (num / den * den) := Nat.mul_assoc ..
      _ ≤ 2 * num := Nat.mul_le_mul_left 2 (Nat.div_mul_le_self num den)

theorem magnitudes_le_nearestRank_iff (hden : 0 < den) :
    magnitudes ≤ nearestRank num den ↔ limit * den ≤ 2 * num := by
  have hF := fractions_pos
  have hpos : ∀ scale, 0 < Nat.pow 2 scale := Nat.two_pow_pos
  rcases Nat.lt_trichotomy ((num / den).log2 - 52) lastScale with hscale | hscale | hscale
  · obtain ⟨hrank, hnum⟩ := of_scale_lt hden hscale
    exact ⟨fun h => absurd hrank (Nat.not_lt.mpr h), fun h => absurd hnum (Nat.not_lt.mpr h)⟩
  · have hunits : 0 < den * Nat.pow 2 lastScale := Nat.mul_pos hden (hpos lastScale)
    have hround : 2 * fractions ≤ roundHalfEven num (den * Nat.pow 2 lastScale) ↔
        (2 * (2 * fractions) - 1) * (den * Nat.pow 2 lastScale) ≤ 2 * num :=
      le_roundHalfEven_iff (Nat.mul_mod_right 2 fractions) (by omega) hunits
    rw [nearestRank, hscale, magnitudes_eq, Nat.add_le_add_iff_left, hround, limit, Nat.mul_assoc,
      Nat.mul_comm den]
  · obtain ⟨hrank, hnum⟩ := of_lt_scale hscale
    exact ⟨fun _ => hnum, fun _ => hrank⟩

end

section
variable {negative : Bool} {rank : Nat}

theorem ofRank_eq_infinite_iff : ofRank negative rank = .infinite negative ↔ magnitudes ≤ rank := by
  unfold ofRank
  split <;> simp <;> omega

theorem isFinite_ofRank : (ofRank negative rank).isFinite = true ↔ rank < magnitudes := by
  unfold ofRank
  split <;> simp_all [isFinite]

end

end Binary64

namespace Decimal

/-- Half way between the largest magnitude and the power of two above it. -/
def limit : Nat := (Nat.pow 2 54 - 1) * Nat.pow 2 970

/-- At least the `limit`. -/
def Overflows (d : Decimal) : Prop := limit * d.denominator ≤ d.numerator

theorem limit_pos : 0 < limit := by decide +kernel

theorem le_pow_of_le {m n size : Nat} (h : m ≤ n) (hsize : size ≤ Nat.pow 10 m) : size ≤ Nat.pow 10 n :=
  Nat.le_trans hsize (Nat.pow_le_pow_right (by decide) h)

theorem limit_le_pow {places : Nat} (h : 342 ≤ places) : limit ≤ Nat.pow 10 places :=
  le_pow_of_le h (by decide +kernel)

theorem half_units_pos : 0 < 2 * Binary64.unitsPerOne := by decide +kernel

theorem limit_in_half_units : Binary64.limit = limit * (2 * Binary64.unitsPerOne) := by decide +kernel

theorem denominator_pos (d : Decimal) : 0 < d.denominator := Nat.pow_pos (by decide)

theorem overflows_of_le_exponent {d : Decimal} (hd : d.significand ≠ 0) (h : 342 ≤ d.exponent) :
    d.Overflows := by
  have hden : d.denominator = 1 := by
    rw [denominator, Int.toNat_eq_zero.mpr (by omega), Nat.pow_eq, Nat.pow_zero]
  rw [Overflows, hden, Nat.mul_one]
  exact Nat.le_trans (limit_le_pow (by omega)) (Nat.le_mul_of_pos_left _ (Nat.pos_of_ne_zero hd))

theorem numerator_lt_denominator {d : Decimal} (h : d.significand.log2 + 1076 + 3 * d.exponent ≤ 0) :
    d.numerator < d.denominator := by
  have hnum : d.numerator = d.significand := by
    rw [numerator, Int.toNat_eq_zero.mpr (by omega)]
    exact Nat.mul_one _
  calc d.numerator = d.significand := hnum
    _ < 2 ^ (d.significand.log2 + 1) := Nat.lt_log2_self
    _ ≤ 2 ^ (3 * (-d.exponent).toNat) := Nat.pow_le_pow_right Nat.two_pos (by omega)
    _ = (2 ^ 3) ^ (-d.exponent).toNat := Nat.pow_mul 2 3 _
    _ ≤ 10 ^ (-d.exponent).toNat := Nat.pow_le_pow_left (by decide) _

theorem magnitudes_le_nearestRank_iff (d : Decimal) :
    Binary64.magnitudes ≤ d.nearestRank ↔ d.Overflows := by
  have hmagnitudes : 0 < Binary64.magnitudes := by decide
  have hden := d.denominator_pos
  fun_cases nearestRank d
  case case1 hzero =>
    have hpos := Nat.mul_pos limit_pos hden
    rw [Overflows, numerator, hzero, Nat.zero_mul]
    omega
  case case2 hsignificand hexponent =>
    exact ⟨fun _ => overflows_of_le_exponent hsignificand hexponent, fun _ => Nat.le_refl _⟩
  case case3 hsmall =>
    have hlt := numerator_lt_denominator hsmall
    have hle : d.denominator ≤ limit * d.denominator := Nat.le_mul_of_pos_left _ limit_pos
    rw [Overflows]
    omega
  case case4 =>
    rw [Binary64.magnitudes_le_nearestRank_iff hden, limit_in_half_units, Overflows,
      Nat.mul_left_comm 2, Nat.mul_right_comm]
    exact Nat.mul_le_mul_right_iff half_units_pos

/-- A decimal is rounded to infinity exactly from half way beyond the largest magnitude on. -/
theorem toBinary64_eq_infinite_iff (d : Decimal) (negative : Bool) :
    d.toBinary64 negative = .infinite negative ↔ d.Overflows :=
  Binary64.ofRank_eq_infinite_iff.trans d.magnitudes_le_nearestRank_iff

theorem isFinite_toBinary64 {d : Decimal} {negative : Bool} :
    (d.toBinary64 negative).isFinite = true ↔ ¬ d.Overflows := by
  rw [toBinary64, Binary64.isFinite_ofRank, ← d.magnitudes_le_nearestRank_iff, Nat.not_le]

end Decimal

end GraphicScore
