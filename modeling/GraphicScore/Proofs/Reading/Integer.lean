import GraphicScore.Proofs.Grammar.Expression
import GraphicScore.Proofs.Number.Literal
import GraphicScore.Proofs.Reading.Literal
import GraphicScore.Reading.Score

/-!
# Reading digits

The same digits are a constant, a constant behind its minus, a p-field or an instrument's number. Each of them has
a bound of its own, up to which the value is kept and beyond which the digits are refused.
-/

namespace GraphicScore

namespace Reading

/-- How digits of a value are read wherever a number can stand. -/
structure ReadsDigits (config : Config) (inner : Reading Expr) (digits : String) (n : Nat) : Prop where
  operand : ∀ r : Reader, r.current.value = .integer digits →
    (n ≤ 9223372036854775807 →
      ∃ value : Int64, value.toInt = n ∧ unary config inner r = past (.constant (.int value)) r) ∧
    (9223372036854775807 < n → unary config inner r = .error ⟨r.current.position, .invalidNumber digits⟩ r)
  negated : ∀ r r₁ : Reader, r.current.value = .minus → advance r = .ok () r₁ →
    r₁.current.value = .integer digits →
    (n ≤ 9223372036854775808 →
      ∃ value : Int64, value.toInt = -(n : Int) ∧ unary config inner r = past (.constant (.int value)) r₁) ∧
    (9223372036854775808 < n →
      unary config inner r = .error ⟨r₁.current.position, .invalidNumber ("-" ++ digits)⟩ r₁)
  pField : ∀ (r r₁ : Reader) (next : Token), r.current.value = .identifier ("p" ++ digits) →
    peek r = .ok next r₁ → next ≠ .openParen →
    (n = 0 → unary config inner r = .error ⟨r.current.position, .pFieldZero⟩ r₁) ∧
    (1 ≤ n → n ≤ 4294967295 →
      ∃ number : UInt32, number.toNat = n ∧ unary config inner r = past (.pField number []) r₁) ∧
    (4294967295 < n → unary config inner r = .error ⟨r.current.position, .pFieldOutOfRange ("p" ++ digits)⟩ r₁)
  instrument : ∀ (defined : Definitions) (numbers : List UInt32) (r r₁ : Reader),
    r.current.value = .integer digits → advance r = .ok () r₁ →
    (n ≤ 4294967295 → ∃ number : UInt32, number.toNat = n ∧ instrumentKey number = toString n ∧
      ((∃ m ∈ numbers ++ defined.numbers, m.toNat = n) →
        instrumentNumber defined numbers r = .error ⟨r.current.position, .duplicateInstrument number⟩ r₁) ∧
      ((∀ m ∈ numbers ++ defined.numbers, m.toNat ≠ n) →
        instrumentNumber defined numbers r = .ok (numbers ++ [number]) r₁)) ∧
    (4294967295 < n →
      instrumentNumber defined numbers r = .error ⟨r.current.position, .instrumentOutOfRange digits⟩ r₁)

section
variable {config : Config} {inner : Reading Expr} {r r₁ : Reader} {digits : String} {next : Token}
  {defined : Definitions} {numbers : List UInt32} {number : UInt32}

theorem unary_integer (h : r.current.value = .integer digits) :
    unary config inner r = literal ((Literal.int64? digits.toList).map .int) digits r := by
  rw [unary_of_ne_minus (by rw [h]; simp), primary_integer h]

theorem pFieldDigits?_append (hd : Numeral.IsDigits digits.toList) :
    pFieldDigits? ("p" ++ digits) = some digits.toList := by
  exact pFieldDigits?_eq_some.mpr ⟨by simp, hd.1, hd.2⟩

theorem unary_pField (hd : Numeral.IsDigits digits.toList) (h : r.current.value = .identifier ("p" ++ digits))
    (hpeek : peek r = .ok next r₁) (hnext : next ≠ .openParen) :
    unary config inner r = Reading.pField ("p" ++ digits) digits.toList r₁ := by
  have hcalled : (next == .openParen) = false := by simpa using hnext
  rw [unary_of_ne_minus (by rw [h]; simp), primary, token_bind, h]
  simp only [named, pFieldDigits?_append hd]
  rw [bind_of_ok hpeek, hcalled]
  rfl

theorem pField_of_none (name : String) {digits : List Char} (h : Literal.uint32? digits = none) :
    Reading.pField name digits r = .error ⟨r.current.position, .pFieldOutOfRange name⟩ r := by
  rw [Reading.pField, h]
  rfl

theorem pField_of_zero (name : String) {digits : List Char} (h : Literal.uint32? digits = some 0) :
    Reading.pField name digits r = .error ⟨r.current.position, .pFieldZero⟩ r := by
  rw [Reading.pField, h]
  rfl

theorem pField_of_ne_zero (name : String) {digits : List Char} (h : Literal.uint32? digits = some number)
    (hne : number ≠ 0) : Reading.pField name digits r = past (.pField number []) r := by
  have hrequire : require (number != 0) .pFieldZero r = .ok () r := require_eq_ok.mpr ⟨by simpa using hne, rfl⟩
  rw [Reading.pField, h]
  exact bind_of_ok hrequire

theorem instrumentNumber_of_none (h : r.current.value = .integer digits) (hr : advance r = .ok () r₁)
    (hnone : Literal.uint32? digits.toList = none) :
    instrumentNumber defined numbers r = .error ⟨r.current.position, .instrumentOutOfRange digits⟩ r₁ := by
  obtain ⟨⟨position, t⟩, ahead, feed, depth, notes⟩ := r
  obtain rfl : t = .integer digits := h
  rw [instrumentNumber, current_bind]
  simp only [hnone]
  exact bind_of_ok hr

theorem instrumentNumber_of_some (h : r.current.value = .integer digits) (hr : advance r = .ok () r₁)
    (hsome : Literal.uint32? digits.toList = some number) :
    instrumentNumber defined numbers r =
      if number ∈ numbers ++ defined.numbers then
        .error ⟨r.current.position, .duplicateInstrument number⟩ r₁
      else .ok (numbers ++ [number]) r₁ := by
  have hmem : (numbers.contains number || defined.declares number) = true ↔
      number ∈ numbers ++ defined.numbers := by
    simp [Definitions.declares]
  obtain ⟨⟨position, t⟩, ahead, feed, depth, notes⟩ := r
  obtain rfl : t = .integer digits := h
  rw [instrumentNumber, current_bind]
  simp only [hsome]
  rw [bind_of_ok hr]
  simp only [hmem]
  split <;> rfl

/-! ## each place by its bound -/

variable {n : Nat}

/-- Digits that are refused from a bound on are kept up to it. -/
theorem literal_by_bound {value? : Option Int64} {bound : Nat} {m : Int} {text : String}
    (hnone : value? = none ↔ bound < n) (hsome : ∀ value, value? = some value → value.toInt = m) :
    (n ≤ bound → ∃ value : Int64, value.toInt = m ∧
      literal (value?.map .int) text r = past (.constant (.int value)) r) ∧
    (bound < n → literal (value?.map .int) text r = .error ⟨r.current.position, .invalidNumber text⟩ r) := by
  constructor
  · intro hle
    cases hvalue : value? with
    | none => exact absurd (hnone.mp hvalue) (Nat.not_lt.mpr hle)
    | some value => exact ⟨value, hsome value hvalue, rfl⟩
  · intro hlt
    exact literal_of_none (by rw [hnone.mpr hlt]; rfl)

theorem mem_numbers_iff (hn : number.toNat = n) :
    number ∈ numbers ++ defined.numbers ↔ ∃ m ∈ numbers ++ defined.numbers, m.toNat = n := by
  constructor
  · intro h
    exact ⟨number, h, hn⟩
  · intro h
    obtain ⟨m, hm, hvalue⟩ := h
    rwa [← UInt32.toNat_inj.mp (hvalue.trans hn.symm)]

theorem readsDigits (config : Config) (inner : Reading Expr) (hd : Numeral.IsDigits digits.toList)
    (hn : Nat.ofDigitChars 10 digits.toList 0 = n) : ReadsDigits config inner digits n where
  operand r hr := by
    rw [unary_integer hr]
    exact literal_by_bound (hn ▸ Literal.int64?_eq_none) fun _ h => hn ▸ Literal.int64?_eq_some.mp h
  negated r r₁ hminus hadvance hr := by
    rw [unary_minus hminus hadvance, negated_integer hr]
    exact literal_by_bound (hn ▸ Literal.negInt64?_eq_none) fun _ h => hn ▸ Literal.negInt64?_eq_some.mp h
  pField r r₁ next hr hpeek hnext := by
    have hposition : r₁.current.position = r.current.position := by
      obtain ⟨_, -, -, rfl⟩ := peek_eq_ok.mp hpeek
      rfl
    rw [unary_pField hd hr hpeek hnext, ← hposition]
    cases hvalue : Literal.uint32? digits.toList with
    | none =>
      have hlarge := hn ▸ Literal.uint32?_eq_none.mp hvalue
      exact ⟨by omega, by omega, fun _ => pField_of_none _ hvalue⟩
    | some number =>
      have hnumber := hn ▸ Literal.uint32?_eq_some.mp hvalue
      have hsize := number.toNat_lt_size
      refine ⟨fun hzero => ?_, fun hpos _ => ⟨number, hnumber, pField_of_ne_zero _ hvalue ?_⟩, fun hlt => ?_⟩
      · obtain rfl : number = 0 := UInt32.toNat_inj.mp (hnumber.trans hzero)
        exact pField_of_zero _ hvalue
      · rintro rfl
        rw [← hnumber] at hpos
        contradiction
      · simp only [UInt32.size] at hsize
        omega
  instrument defined numbers r r₁ hr hadvance := by
    cases hvalue : Literal.uint32? digits.toList with
    | none =>
      have hlarge := hn ▸ Literal.uint32?_eq_none.mp hvalue
      exact ⟨by omega, fun _ => instrumentNumber_of_none hr hadvance hvalue⟩
    | some number =>
      have hnumber := hn ▸ Literal.uint32?_eq_some.mp hvalue
      have hsize := number.toNat_lt_size
      have hread : instrumentNumber defined numbers r = _ := instrumentNumber_of_some hr hadvance hvalue
      refine ⟨fun _ => ⟨number, hnumber, congrArg toString hnumber, fun hm => ?_, fun hm => ?_⟩, fun hlt => ?_⟩
      · rw [hread, if_pos ((mem_numbers_iff hnumber).mpr hm)]
      · refine hread.trans (if_neg fun hmem => ?_)
        exact hm number hmem hnumber
      · simp only [UInt32.size] at hsize
        omega

end

end Reading

end GraphicScore
