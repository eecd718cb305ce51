import GraphicScore.Number.Literal

/-!
# Values of literals

A literal is accepted exactly when its value fits, and then it denotes that value.
-/

namespace GraphicScore.Literal

variable {digits : List Char}

theorem upTo?_eq_some {limit value : Nat} :
    upTo? limit digits = some value ↔ value = Nat.ofDigitChars 10 digits 0 ∧ value ≤ limit := by
  simp only [upTo?, Option.ite_none_right_eq_some, Option.some.injEq]
  constructor
  · intro h
    obtain ⟨h, rfl⟩ := h
    exact ⟨rfl, h⟩
  · intro h
    obtain ⟨rfl, h⟩ := h
    exact ⟨h, rfl⟩

theorem upTo?_eq_none {limit : Nat} : upTo? limit digits = none ↔ limit < Nat.ofDigitChars 10 digits 0 := by
  simp [upTo?]

theorem uint32?_eq_none : uint32? digits = none ↔ 4294967295 < Nat.ofDigitChars 10 digits 0 := by
  rw [uint32?, Option.map_eq_none_iff, upTo?_eq_none]
  rfl

theorem int64?_eq_none : int64? digits = none ↔ 9223372036854775807 < Nat.ofDigitChars 10 digits 0 := by
  rw [int64?, Option.map_eq_none_iff, upTo?_eq_none]
  rfl

theorem negInt64?_eq_none : negInt64? digits = none ↔ 9223372036854775808 < Nat.ofDigitChars 10 digits 0 := by
  rw [negInt64?, Option.map_eq_none_iff, upTo?_eq_none]
  rfl

theorem uint32?_eq_some {number : UInt32} :
    uint32? digits = some number ↔ number.toNat = Nat.ofDigitChars 10 digits 0 := by
  simp only [uint32?, Option.map_eq_some_iff, upTo?_eq_some]
  constructor
  · intro h
    obtain ⟨_, ⟨rfl, h⟩, rfl⟩ := h
    exact UInt32.toNat_ofNat_of_lt (by simp only [UInt32.size] at h ⊢; omega)
  · intro h
    refine ⟨number.toNat, ⟨h, ?_⟩, UInt32.ofNat_toNat⟩
    have := number.toNat_lt_size
    omega

theorem int64?_eq_some {value : Int64} :
    int64? digits = some value ↔ value.toInt = Nat.ofDigitChars 10 digits 0 := by
  simp only [int64?, Option.map_eq_some_iff, upTo?_eq_some]
  constructor
  · intro h
    obtain ⟨_, ⟨rfl, h⟩, rfl⟩ := h
    simp only [UInt64.size] at h
    exact Int64.toInt_ofInt_of_le (by omega) (by omega)
  · intro h
    refine ⟨Nat.ofDigitChars 10 digits 0, ⟨rfl, ?_⟩, ?_⟩
    · have := value.toInt_lt
      simp only [UInt64.size]
      omega
    · rw [← h, Int64.ofInt_toInt]

theorem negInt64?_eq_some {value : Int64} :
    negInt64? digits = some value ↔ value.toInt = -(Nat.ofDigitChars 10 digits 0 : Int) := by
  simp only [negInt64?, Option.map_eq_some_iff, upTo?_eq_some]
  constructor
  · intro h
    obtain ⟨_, ⟨rfl, h⟩, rfl⟩ := h
    simp only [UInt64.size] at h
    exact Int64.toInt_ofInt_of_le (by omega) (by omega)
  · intro h
    refine ⟨Nat.ofDigitChars 10 digits 0, ⟨rfl, ?_⟩, ?_⟩
    · have := value.le_toInt
      simp only [UInt64.size]
      omega
    · rw [← h, Int64.ofInt_toInt]

theorem binary64?_eq_some {text : List Char} {value : Binary64} :
    binary64? text = some value ↔
      (Numeral.scan text).1.value.toBinary64 false = value ∧ value.isFinite = true := by
  simp only [binary64?, Option.ite_none_right_eq_some, Option.some.injEq]
  constructor
  · intro h
    obtain ⟨h, rfl⟩ := h
    exact ⟨rfl, h⟩
  · intro h
    obtain ⟨rfl, h⟩ := h
    exact ⟨h, rfl⟩

end GraphicScore.Literal
