import GraphicScore.Proofs.Grammar.Integers
import GraphicScore.Proofs.Reading.Integer
import GraphicScore.Proofs.Source.RoundTrip

/-!
# Integers of sources

No integer is read as another one: digits that do not fit are refused, and all others keep their value, from the
source to what it declares and from there to its text and back.
-/

namespace GraphicScore

/-! ## expressions around a place -/

namespace Expr

/-- An expression with a place left open in it. -/
inductive Context where
  | hole
  | inLeft (operator : Operator) (around : Context) (right : Expr) (converters : List Converter)
  | inRight (operator : Operator) (left : Expr) (around : Context) (converters : List Converter)

def Context.fill (e : Expr) : Context → Expr
  | .hole => e
  | .inLeft operator around right converters => .binary operator (around.fill e) right converters
  | .inRight operator left around converters => .binary operator left (around.fill e) converters

theorem Context.isRegular_fill (around : Context) (value value' : Int64) :
    (around.fill (.constant (.int value))).all isRegular =
      (around.fill (.constant (.int value'))).all isRegular := by
  induction around with
  | hole => rfl
  | inLeft operator around right converters ih => simp only [fill, all, isRegular_binary, ih]
  | inRight operator left around converters ih => simp only [fill, all, isRegular_binary, ih]

end Expr

/-! ## bounds -/

def Fits (n : Int) : Prop := -9223372036854775808 ≤ n ∧ n ≤ 9223372036854775807

instance : DecidablePred Fits := fun _ => instDecidableAnd

theorem fits_toInt (value : Int64) : Fits value.toInt :=
  ⟨value.le_toInt, Int.le_of_lt_add_one value.toInt_lt⟩

theorem fits_toNat (number : UInt32) : Fits number.toNat := by
  have hsize := number.toNat_lt_size
  simp only [UInt32.size] at hsize
  unfold Fits
  omega

theorem Expr.forall_fits (e : Expr) : ∀ n ∈ e.integers, Fits n := by
  induction e with
  | constant value =>
    cases value with
    | int value => exact List.forall_mem_singleton.mpr (fits_toInt value)
    | float value => exact List.forall_mem_nil _
  | pField number converters => exact List.forall_mem_nil _
  | binary operator left right converters ihl ihr => exact List.forall_mem_append.mpr ⟨ihl, ihr⟩

theorem Block.forall_fits (b : Block) : ∀ n ∈ b.integers, Fits n := by
  refine List.forall_mem_append.mpr ⟨List.forall_mem_map.mpr fun number _ => fits_toNat number, ?_⟩
  simp only [List.mem_flatMap, Feature.integers]
  rintro n ⟨f, -, e, -, hn⟩
  exact e.forall_fits n hn

theorem Definitions.forall_fits (d : Definitions) : ∀ n ∈ d.integers, Fits n := by
  simp only [Definitions.integers, List.mem_flatMap]
  rintro n ⟨b, -, hn⟩
  exact b.forall_fits n hn

/-! ## integers there and back -/

section
variable {source : String} {config : Config} {inner : Reading Expr} {d : Definitions} {r r' : Reader}

theorem integers_of_parse (h : parse source config = .ok d) :
    ∃ ts, tokenize source = .ok ts ∧ integers ts = d.integers := by
  obtain ⟨ts, hts, hword⟩ := parse_iff_scoreWord.mp h
  exact ⟨ts, hts, hword.integers.written⟩

theorem past_of_advance {e : Expr} (h : Reading.advance r = .ok () r') : Reading.past e r = .ok e r' := by
  rw [Reading.past, Reading.bind_of_ok h]
  rfl

theorem unary_of_passes {value : Int64} (h : r.Passes (Constant.int value).tokens r') :
    Reading.unary config inner r = .ok (.constant (.int value)) r' := by
  have hdigits : Numeral.IsDigits (toString value.toInt.natAbs).toList := by
    rw [Nat.toString_eq_repr, Nat.toList_repr]
    exact ⟨Nat.toDigits_ne_nil, Decimal.allDigits_toDigits _⟩
  have hread := Reading.readsDigits config inner hdigits (ofDigitChars_toString _)
  have hfits := fits_toInt value
  unfold Fits at hfits
  by_cases hneg : value.toInt < 0
  · simp only [Constant.tokens, signed, hneg, decide_true, if_true] at h
    obtain ⟨hminus, r₁, hr₁, h⟩ := Reader.passes_cons.mp h
    obtain ⟨hvalue, hr'⟩ := Reader.passes_singleton.mp h
    obtain ⟨value', hvalue', hunary⟩ := (hread.negated r r₁ hminus hr₁ hvalue).1 (by omega)
    obtain rfl : value' = value := Int64.toInt_inj.mp (by omega)
    rw [hunary, past_of_advance hr']
  · simp only [Constant.tokens, signed, hneg, decide_false, Bool.false_eq_true, if_false] at h
    obtain ⟨hvalue, hr'⟩ := Reader.passes_singleton.mp h
    obtain ⟨value', hvalue', hunary⟩ := (hread.operand r hvalue).1 (by omega)
    obtain rfl : value' = value := Int64.toInt_inj.mp (by omega)
    rw [hunary, past_of_advance hr']

end

/--
Digits are read by their value and refused where it does not fit. So the integers that a score declares are those
that are written in its source, and all of them fit. The text of an integer is read back as the integer wherever
an operand can stand.
-/
theorem integers_exact (config : Config) (inner : Reading Expr) :
    (∀ (digits : String) (n : Nat), Numeral.IsDigits digits.toList → Nat.ofDigitChars 10 digits.toList 0 = n →
      Reading.ReadsDigits config inner digits n) ∧
    (∀ (source : String) (d : Definitions), parse source config = .ok d →
      ∃ ts, tokenize source = .ok ts ∧ integers ts = d.integers ∧ ∀ n ∈ integers ts, Fits n) ∧
    ∀ value : Int64,
      (∀ r r' : Reader, r.Passes (Constant.int value).tokens r' →
        Reading.unary config inner r = .ok (.constant (.int value)) r') ∧
      ∀ around : Expr.Context, (around.fill (.constant (.int 0))).all Expr.isRegular = true →
        ∃ r r', Reading.advance (.ofFeed (.ofString ((around.fill (.constant (.int value))).text ++ ","))) =
            .ok () r ∧
          Reading.expression {} r = .ok (around.fill (.constant (.int value))) r' ∧ r'.current.value = .comma := by
  refine ⟨fun digits n hd hn => Reading.readsDigits config inner hd hn, fun source d hd => ?_,
    fun value => ⟨fun r r' => unary_of_passes, fun around haround => ?_⟩⟩
  · obtain ⟨ts, hts, hintegers⟩ := integers_of_parse hd
    exact ⟨ts, hts, hintegers, hintegers ▸ d.forall_fits⟩
  · rw [around.isRegular_fill 0 value] at haround
    obtain ⟨r, r', hr, -, -, hend, hok⟩ := exists_reader_of_isRegular haround
    exact ⟨r, r', hr, hok, hend⟩

/-- The least integer is written with its minus; as an operand of a minus its digits are refused. -/
theorem integers_exact_least :
    (∃ r : Reader, r.current.value = .integer "9223372036854775808" ∧
      Reading.unary {} (Reading.unexpected .expression) r =
        .error ⟨r.current.position, .invalidNumber "9223372036854775808"⟩ r) ∧
    (¬ ∃ d, parse "instr 1 do\n  line 0 - 9223372036854775808, p5, p6, p7\nend\n" = .ok d) ∧
    (∃ d ts, parse "instr 1 do\n  line -9223372036854775808, p5, p6, p7\nend\n" = .ok d ∧
      tokenize "instr 1 do\n  line -9223372036854775808, p5, p6, p7\nend\n" = .ok ts ∧
      integers ts = d.integers ∧ d.integers = [1, -9223372036854775808]) ∧
    ∃ r r', Reading.advance (.ofFeed (.ofString "0 - -9223372036854775808,")) = .ok () r ∧
      Reading.expression {} r =
        .ok (.binary .minus (.constant (.int 0)) (.constant (.int (-9223372036854775808))) []) r' := by
  obtain ⟨hdigits, hsource, hvalue⟩ := integers_exact {} (Reading.unexpected .expression)
  refine ⟨?_, fun ⟨d, hd⟩ => ?_, ?_, ?_⟩
  · let r : Reader := ⟨⟨.start, .integer "9223372036854775808"⟩, none, .ofString "", 0, ()⟩
    have hread := hdigits "9223372036854775808" 9223372036854775808 (by decide) rfl
    exact ⟨r, rfl, (hread.operand r rfl).2 (by decide)⟩
  · obtain ⟨ts, hts, -, hfits⟩ := hsource _ d hd
    have hwritten : (tokenize "instr 1 do\n  line 0 - 9223372036854775808, p5, p6, p7\nend\n").toOption.map integers =
        some [1, 0, 9223372036854775808] := by
      decide +kernel
    rw [hts] at hwritten
    have hlarge : Fits 9223372036854775808 := hfits _ (by rw [Option.some.inj hwritten]; simp)
    exact absurd hlarge (by decide)
  · let l : Line := ⟨.constant (.int (-9223372036854775808)), .pField 5 [], .pField 6 [], .pField 7 [], .empty⟩
    let d : Definitions := ⟨[⟨[1], ⟨[.line l]⟩⟩]⟩
    have hend : ∀ b ∈ d.blocks, ∀ f ∈ b.instrument.features, f.beginsWithEnd = false := by decide
    have htext : d.toSource = "instr 1 do\n  line -9223372036854775808, p5, p6, p7\nend\n" := by decide
    have hd : parse "instr 1 do\n  line -9223372036854775808, p5, p6, p7\nend\n" = .ok d :=
      htext ▸ parse_toSource (by decide) hend (by decide)
    obtain ⟨ts, hts, hintegers, -⟩ := hsource _ d hd
    exact ⟨d, ts, hd, hts, hintegers, by decide⟩
  · let around : Expr.Context := .inRight .minus (.constant (.int 0)) .hole []
    have htext : (around.fill (.constant (.int (-9223372036854775808)))).text ++ "," = "0 - -9223372036854775808," := by
      decide
    obtain ⟨r, r', hr, hok, -⟩ := (hvalue (-9223372036854775808)).2 around (by decide)
    rw [htext] at hr
    exact ⟨r, r', hr, hok⟩

end GraphicScore
