import GraphicScore.Number.Rounding

/-!
# Rounding of exact values

A magnitude of the format rounds to its own rank, and a quotient rounds as every other form of it does.
-/

namespace GraphicScore

theorem roundHalfEven_mul {num den k : Nat} (hk : 0 < k) :
    roundHalfEven (num * k) (den * k) = roundHalfEven num den := by
  have assoc : 2 * (num % den * k) = 2 * (num % den) * k := (Nat.mul_assoc ..).symm
  simp only [roundHalfEven, Nat.mul_div_mul_right _ _ hk, Nat.mul_mod_mul_right, assoc,
    Nat.mul_lt_mul_right hk]

theorem roundHalfEven_exact {n den : Nat} (hden : 0 < den) : roundHalfEven (n * den) den = n := by
  simp [roundHalfEven, Nat.mul_div_cancel _ hden, hden]

namespace Binary64

theorem nearestRank_mul {num den k : Nat} (hk : 0 < k) :
    nearestRank (num * k) (den * k) = nearestRank num den := by
  simp only [nearestRank, Nat.mul_div_mul_right _ _ hk, Nat.mul_right_comm _ k, roundHalfEven_mul hk]

theorem fractions_pos : 0 < fractions := by decide

/-- What is left of a rank under the scale of its exponent. -/
theorem le_sub_scale {rank : Nat} (h : fractions ≤ rank) :
    fractions ≤ rank - (rank / fractions - 1) * fractions ∧
      rank - (rank / fractions - 1) * fractions < 2 * fractions := by
  obtain ⟨scale, hscale⟩ := Nat.exists_eq_add_one.mpr (Nat.div_pos h fractions_pos)
  have split := Nat.div_add_mod rank fractions
  have below := Nat.mod_lt rank fractions_pos
  rw [hscale, Nat.mul_add_one, Nat.mul_comm] at split
  rw [hscale, Nat.add_sub_cancel]
  omega

theorem log2_units {rank : Nat} (h : fractions ≤ rank) :
    (units rank).log2 = 52 + (rank / fractions - 1) := by
  obtain ⟨low, high⟩ := le_sub_scale h
  rw [units]
  generalize rank / fractions - 1 = scale at *
  have hpos : 0 < Nat.pow 2 scale := Nat.two_pow_pos scale
  have hne : (rank - scale * fractions) * Nat.pow 2 scale ≠ 0 := by
    have := fractions_pos
    exact Nat.mul_ne_zero (by omega) (by omega)
  have hpow : 2 ^ (52 + scale) = fractions * Nat.pow 2 scale := Nat.pow_add 2 52 scale
  have hpow' : 2 ^ (52 + scale + 1) = 2 * fractions * Nat.pow 2 scale := by
    rw [Nat.pow_succ, hpow, Nat.mul_comm _ 2, Nat.mul_assoc]
  refine (Nat.log2_eq_iff hne).mpr ⟨?_, ?_⟩
  · rw [hpow]
    exact Nat.mul_le_mul_right _ low
  · rw [hpow']
    exact Nat.mul_lt_mul_of_pos_right high hpos

theorem nearestRank_units (rank : Nat) : nearestRank (units rank) 1 = rank := by
  rw [nearestRank, Nat.div_one, Nat.one_mul]
  rcases Nat.lt_or_ge rank fractions with h | h
  · have hscale : rank / fractions = 0 := Nat.div_eq_of_lt h
    have hunits : units rank = rank := by simp [units, hscale]
    have hlog : rank.log2 - 52 = 0 := by
      by_cases hz : rank = 0
      · simp [hz]
      · have : rank.log2 < 52 := (Nat.log2_lt hz).mpr h
        omega
    rw [hunits, hlog]
    simpa using roundHalfEven_exact Nat.one_pos
  · have hpos : 0 < Nat.pow 2 (rank / fractions - 1) := Nat.two_pow_pos _
    obtain ⟨low, -⟩ := le_sub_scale h
    have := fractions_pos
    rw [log2_units h, Nat.add_sub_cancel_left, units, roundHalfEven_exact hpos]
    omega

end Binary64

end GraphicScore
