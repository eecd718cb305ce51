import GraphicScore.Number.Shortest
import GraphicScore.Proofs.Number.Rounding

/-!
# Shortest decimals read back

The decimal that stands for a magnitude rounds to it, and its text spells that decimal out.
-/

namespace GraphicScore

namespace Decimal

theorem nearestRank_zero {exponent : Int} : (Decimal.mk 0 exponent).nearestRank = 0 := by
  unfold nearestRank
  exact if_pos rfl

/-- A decimal that neither overflows nor vanishes by its exponent alone is rounded. -/
theorem nearestRank_of_bounds {d : Decimal} (hs : d.significand ≠ 0) (high : d.exponent < 342)
    (low : 0 < d.significand.log2 + 1076 + 3 * d.exponent) :
    d.nearestRank = Binary64.nearestRank (d.numerator * Binary64.unitsPerOne) d.denominator := by
  unfold nearestRank
  rw [if_neg hs, if_neg (by omega), if_neg (by omega)]

end Decimal

namespace Shortest

theorem nearestRank_of_neighbour? {rank num den : Nat} {step : Int} {d : Decimal}
    (h : neighbour? rank step num den = some d) : d.nearestRank = rank := by
  unfold neighbour? at h
  generalize Decimal.mk (num / den) step = lower at h
  generalize Decimal.mk (num / den + 1) step = upper at h
  cases el : lower.nearestRank == rank <;> cases eu : upper.nearestRank == rank <;>
    simp only [el, eu, Option.some.injEq] at h
  · contradiction
  · rw [← h, beq_iff_eq.mp eu]
  · rw [← h, beq_iff_eq.mp el]
  · rw [← h]
    split
    · exact beq_iff_eq.mp eu
    · exact beq_iff_eq.mp el

theorem log2_mul_five_pow {units : Nat} (h : units ≠ 0) (places : Nat) :
    2 * places ≤ (units * Nat.pow 5 places).log2 := by
  have hpow : 2 ^ (2 * places) ≤ 5 ^ places := by
    rw [Nat.pow_mul]
    exact Nat.pow_le_pow_left (by decide) places
  have hle : 5 ^ places ≤ units * 5 ^ places := Nat.le_mul_of_pos_left _ (Nat.pos_of_ne_zero h)
  have hpos : 0 < 5 ^ places := Nat.pow_pos (by decide)
  refine (Nat.le_log2 (Nat.mul_ne_zero h (Nat.ne_of_gt hpos))).mpr ?_
  exact Nat.le_trans hpow hle

theorem units_ne_zero {rank : Nat} (h : rank ≠ 0) : Binary64.units rank ≠ 0 := by
  intro hz
  have := Binary64.nearestRank_units rank
  rw [hz] at this
  exact h this.symm

/-- A unit is `2 ^ -places`, so the power of ten cancels. -/
theorem nearestRank_fives {units places : Nat} (hunits : units ≠ 0) (hplaces : places < 1076)
    (hone : Binary64.unitsPerOne = Nat.pow 2 places) :
    (Decimal.mk (units * Nat.pow 5 places) (-places)).nearestRank = Binary64.nearestRank units 1 := by
  have hlog := log2_mul_five_pow hunits places
  have hpos : 0 < Nat.pow 10 places := Nat.pow_pos (by decide)
  have hten : Nat.pow 10 places = Nat.pow 5 places * Nat.pow 2 places := Nat.mul_pow 5 2 places
  have hs : units * Nat.pow 5 places ≠ 0 := Nat.mul_ne_zero hunits (Nat.ne_of_gt (Nat.pow_pos (by decide)))
  have hnum : (Decimal.mk (units * Nat.pow 5 places) (-places)).numerator = units * Nat.pow 5 places := by
    simp [Decimal.numerator]
  have hden : (Decimal.mk (units * Nat.pow 5 places) (-places)).denominator = 1 * Nat.pow 10 places := by
    simp [Decimal.denominator]
  rw [Decimal.nearestRank_of_bounds hs (by simp only; omega) (by simp only; omega), hnum, hden, hone,
    Nat.mul_assoc, ← hten, Binary64.nearestRank_mul hpos]

theorem nearestRank_exact {rank : Nat} (h : rank ≠ 0) : (exact rank).nearestRank = rank := by
  have hone : Binary64.unitsPerOne = Nat.pow 2 1074 := rfl
  have := nearestRank_fives (units_ne_zero h) (by decide) hone
  rwa [Binary64.nearestRank_units] at this

theorem nearestRank_decimal (rank : Nat) : (decimal rank).nearestRank = rank := by
  unfold decimal
  split
  case isTrue h => rw [h, Decimal.nearestRank_zero]
  case isFalse h =>
    -- either some shorter decimal rounds to the rank or the exact one is taken
    cases hs : (List.range 19).findSome? fun (n : Nat) => onGrid? rank (top rank - n) with
    | none => exact nearestRank_exact h
    | some d =>
      obtain ⟨n, -, hn⟩ := List.exists_of_findSome?_eq_some hs
      exact nearestRank_of_neighbour? hn

end Shortest

end GraphicScore
