import GraphicScore.Proofs.Number.Numeral
import GraphicScore.Proofs.Number.Shortest

/-!
# Positional text read back

A decimal written out with a point is scanned as a numeral with a fraction, and the numeral's value
rounds as the decimal does.
-/

namespace GraphicScore.Decimal

/-- All digits written out, with at least one place behind the point. -/
def pointed (d : Decimal) : List Char :=
  if 0 ≤ d.exponent then d.positional ++ ['.', '0'] else d.positional

def parts (d : Decimal) : List Char × List Char :=
  let digits := Nat.toDigits 10 d.significand
  if 0 ≤ d.exponent then (digits ++ List.replicate d.exponent.toNat '0', ['0'])
  else
    let places := (-d.exponent).toNat
    let padded := List.replicate (places + 1 - digits.length) '0' ++ digits
    (padded.take (padded.length - places), padded.drop (padded.length - places))

section
variable (d : Decimal)

theorem pointed_eq : d.pointed = d.parts.1 ++ '.' :: d.parts.2 := by
  unfold pointed parts positional
  split
  · simp
  · rfl

theorem allDigits_toDigits (n : Nat) : Numeral.AllDigits (Nat.toDigits 10 n) :=
  fun _ hc => Nat.isDigit_of_mem_toDigits (by decide) (by decide) hc

theorem allDigits_zeros (n : Nat) : Numeral.AllDigits (List.replicate n '0') := by
  intro c hc
  rw [(List.mem_replicate.mp hc).2]
  rfl

theorem allDigits_parts : Numeral.AllDigits (d.parts.1 ++ d.parts.2) := by
  unfold parts
  split
  · simp only [Numeral.AllDigits, List.forall_mem_append]
    exact ⟨⟨allDigits_toDigits _, allDigits_zeros _⟩, allDigits_zeros 1⟩
  · simp only [List.take_append_drop]
    simp only [Numeral.AllDigits, List.forall_mem_append]
    exact ⟨allDigits_zeros _, allDigits_toDigits _⟩

theorem parts_ne_nil : d.parts.1 ≠ [] ∧ d.parts.2 ≠ [] := by
  unfold parts
  split
  · simp [Nat.toDigits_ne_nil]
  · simp only [ne_eq, List.take_eq_nil_iff, List.drop_eq_nil_iff, List.append_eq_nil_iff, List.length_append,
      List.length_replicate, Nat.toDigits_ne_nil, and_false, or_false]
    omega

theorem scan_pointed : Numeral.scan d.pointed = (⟨d.parts.1, some d.parts.2, none⟩, []) := by
  rw [pointed_eq]
  have hall := d.allDigits_parts
  simp only [Numeral.AllDigits, List.forall_mem_append] at hall
  exact Numeral.scan_fraction hall.1 hall.2 d.parts_ne_nil.2

/-- What the numeral stands for: the decimal itself, or its whole value in tenths. -/
theorem value_parts :
    (⟨d.parts.1, some d.parts.2, none⟩ : Numeral).value =
      if 0 ≤ d.exponent then ⟨d.significand * Nat.pow 10 d.exponent.toNat * 10, -1⟩ else d := by
  unfold parts Numeral.value
  split
  case isTrue =>
    simp [Nat.ofDigitChars_append, Nat.ofDigitChars_cons, Nat.mul_comm]
  case isFalse h =>
    have hdigits (n : Nat) : Nat.ofDigitChars 10 (List.replicate n '0' ++ Nat.toDigits 10 d.significand) 0 =
        d.significand := by
      simp [Nat.ofDigitChars_append]
    obtain ⟨significand, exponent⟩ := d
    simp only [Option.getD_some, List.take_append_drop, hdigits, List.length_drop, List.length_append,
      List.length_replicate, Option.elim_none, mk.injEq, true_and] at h ⊢
    omega

end

theorem nearestRank_tenths {significand : Nat} {exponent : Int} (h : 0 ≤ exponent)
    (hlt : significand ≠ 0 → exponent < 342) :
    (mk (significand * Nat.pow 10 exponent.toNat * 10) (-1)).nearestRank =
      (mk significand exponent).nearestRank := by
  by_cases hs : significand = 0
  · subst hs
    rw [Nat.zero_mul, Nat.zero_mul, nearestRank_zero, nearestRank_zero]
  · have hpos : 0 < Nat.pow 10 exponent.toNat := Nat.pow_pos (by decide)
    have hs' : significand * Nat.pow 10 exponent.toNat * 10 ≠ 0 :=
      Nat.mul_ne_zero (Nat.mul_ne_zero hs (Nat.ne_of_gt hpos)) (by decide)
    have hden : (mk significand exponent).denominator = 1 := by
      have : (-exponent).toNat = 0 := by omega
      simp [denominator, this]
    have hnum' : (mk (significand * Nat.pow 10 exponent.toNat * 10) (-1)).numerator =
        (mk significand exponent).numerator * 10 := by
      simp [numerator]
    have hden' : (mk (significand * Nat.pow 10 exponent.toNat * 10) (-1)).denominator = 1 * 10 := by
      simp [denominator]
    -- the factor ten stands above and below the line
    have hlt := hlt hs
    rw [nearestRank_of_bounds hs' (by simp) (by simp only; omega),
      nearestRank_of_bounds hs hlt (by simp only; omega), hden, hnum', hden', Nat.mul_right_comm,
      Binary64.nearestRank_mul (by decide)]

theorem nearestRank_parts {d : Decimal} (h : d.nearestRank < Binary64.magnitudes) :
    (⟨d.parts.1, some d.parts.2, none⟩ : Numeral).value.nearestRank = d.nearestRank := by
  rw [value_parts]
  split
  case isTrue hexp =>
    refine nearestRank_tenths hexp fun hs => Int.not_le.mp fun hle => ?_
    rw [nearestRank, if_neg hs, if_pos hle] at h
    exact Nat.lt_irrefl _ h
  case isFalse => rfl

end GraphicScore.Decimal
