import GraphicScore.Proofs.Number.Overflow
import GraphicScore.Proofs.Reading.Passing
import GraphicScore.Proofs.Token.Decomposition
import GraphicScore.Proofs.Token.Longest
import GraphicScore.Reading.Expression

/-!
# Reading literals

A literal is gone past with its value or refused where it stands. A text with a fraction or an exponent is the
longest numeral at its place, so the only thing to refuse in it is a value that is too large.
-/

namespace GraphicScore

namespace Reading

/-- Goes past the token with a result for it. -/
def past {α : Type} (a : α) : Reading α := do
  advance
  return a

section
variable {config : Config} {inner : Reading Expr} {r r' : Reader} {digits text : String}
  {value? : Option Constant}

theorem literal_of_none (h : value? = none) :
    literal value? text r = .error ⟨r.current.position, .invalidNumber text⟩ r := by
  rw [h]
  rfl

theorem primary_integer (h : r.current.value = .integer digits) :
    primary config inner r = literal ((Literal.int64? digits.toList).map .int) digits r := by
  rw [primary, token_bind, h]

theorem primary_float (h : r.current.value = .float text) :
    primary config inner r = literal ((Literal.binary64? text.toList).map .float) text r := by
  rw [primary, token_bind, h]

theorem negated_integer (h : r.current.value = .integer digits) :
    negated r = literal ((Literal.negInt64? digits.toList).map .int) ("-" ++ digits) r := by
  rw [negated, token_bind, h]

theorem negated_float (h : r.current.value = .float text) :
    negated r = literal ((Literal.binary64? text.toList).map fun value => .float (-value)) text r := by
  rw [negated, token_bind, h]

theorem unary_of_ne_minus (h : r.current.value ≠ .minus) : unary config inner r = primary config inner r := by
  rw [unary, token_bind, if_neg h]

theorem unary_minus (h : r.current.value = .minus) (hr : advance r = .ok () r') :
    unary config inner r = negated r' := by
  rw [unary, token_bind, if_pos h, bind_of_ok hr]

end

end Reading

/-! ## numbers -/

section
variable {c : Char} {n : Numeral} {text : String} {cursor : Cursor} {p : Position}

def Numeral.token (n : Numeral) : Token :=
  if n.isFloat then .float (.ofList n.spelling) else .integer (.ofList n.spelling)

theorem next_of_isDigit (digit : c.isDigit = true) (p : Position) (cs : List Char) :
    Cursor.next ⟨p, c :: cs⟩ =
      (.ok ⟨p, (Numeral.scan (c :: cs)).1.token⟩,
        ⟨p.past (Numeral.scan (c :: cs)).1.spelling, (Numeral.scan (c :: cs)).2⟩) := by
  have htrivia : trivia (c :: cs) = ([], c :: cs) :=
    trivia_of_continuesName (Character.continuesName_of_isDigit digit)
  simp only [Cursor.next, htrivia, read_of_isDigit digit]
  rfl

theorem binary64?_of_overflows (hn : n.IsWritten) (h : n.value.Overflows) :
    Literal.binary64? n.spelling = none := by
  have hfinite : ¬ (n.value.toBinary64 false).isFinite = true := fun hf => Decimal.isFinite_toBinary64.mp hf h
  rw [Literal.binary64?, Numeral.scan_spelling hn, if_neg hfinite]

theorem binary64?_of_not_overflows (hn : n.IsWritten) (h : ¬ n.value.Overflows) :
    Literal.binary64? n.spelling = some (n.value.toBinary64 false) := by
  rw [Literal.binary64?, Numeral.scan_spelling hn, if_pos (Decimal.isFinite_toBinary64.mpr h)]

theorem exists_numeral_of_float (h : cursor.next.1 = .ok ⟨p, .float text⟩) :
    ∃ n : Numeral, n.IsWritten ∧ n.isFloat = true ∧ text.toList = n.spelling := by
  obtain ⟨ho, -⟩ := Cursor.next_eq_ok.mp (Prod.ext h rfl)
  have hlexical := isLexical_of_read ho (by simp)
  simp only [Token.isLexical, Bool.and_eq_true, List.isEmpty_iff] at hlexical
  obtain ⟨⟨hhead, hfloat⟩, hrest⟩ := hlexical
  have hsplit := Numeral.scan_append text.toList
  rw [hrest, List.append_nil] at hsplit
  refine ⟨(Numeral.scan text.toList).1, ?_, hfloat, hsplit.symm⟩
  cases htext : text.toList with
  | nil => simp [htext] at hhead
  | cons c cs => exact Numeral.isWritten_scan (by simpa [htext] using hhead) cs

theorem refused_of_overflows {config : Config} {inner : Reading Expr} {r : Reader} (hn : n.IsWritten)
    (htext : text.toList = n.spelling) (hr : r.current.value = .float text) (h : n.value.Overflows) :
    Reading.primary config inner r = .error ⟨r.current.position, .invalidNumber text⟩ r ∧
      Reading.negated r = .error ⟨r.current.position, .invalidNumber text⟩ r := by
  rw [Reading.primary_float hr, Reading.negated_float hr, htext, binary64?_of_overflows hn h]
  exact ⟨rfl, rfl⟩

theorem past_of_not_overflows {config : Config} {inner : Reading Expr} {r : Reader} (hn : n.IsWritten)
    (htext : text.toList = n.spelling) (hr : r.current.value = .float text) (h : ¬ n.value.Overflows) :
    Reading.primary config inner r = Reading.past (.constant (.float (n.value.toBinary64 false))) r ∧
      Reading.negated r = Reading.past (.constant (.float (-n.value.toBinary64 false))) r := by
  rw [Reading.primary_float hr, Reading.negated_float hr, htext, binary64?_of_not_overflows hn h]
  exact ⟨rfl, rfl⟩

end

/--
From a digit on, the next token is the longest numeral that the text begins with, and what is behind it is left.
So the text of a float is a numeral, and the only floats that are refused as numbers are those whose value is
rounded to infinity.
-/
theorem numbers_longest (config : Config) (inner : Reading Expr) :
    (∀ (p : Position) (c : Char) (cs : List Char), c.isDigit = true →
      ∃ (n : Numeral) (rest : List Char), n.IsWritten ∧ c :: cs = n.spelling ++ rest ∧
        (∀ m : Numeral, m.IsWritten → m.spelling <+: c :: cs → m.spelling <+: n.spelling) ∧
        Cursor.next ⟨p, c :: cs⟩ = (.ok ⟨p, n.token⟩, ⟨p.past n.spelling, rest⟩)) ∧
    ∀ (cursor : Cursor) (p : Position) (text : String), cursor.next.1 = .ok ⟨p, .float text⟩ →
      ∃ n : Numeral, n.IsWritten ∧ n.isFloat = true ∧ text.toList = n.spelling ∧
        (n.value.toBinary64 false = .infinite false ↔ n.value.Overflows) ∧
        ∀ r : Reader, r.current = ⟨p, .float text⟩ →
          (n.value.Overflows → Reading.primary config inner r = .error ⟨p, .invalidNumber text⟩ r ∧
            Reading.negated r = .error ⟨p, .invalidNumber text⟩ r) ∧
          (¬ n.value.Overflows →
            Reading.primary config inner r = Reading.past (.constant (.float (n.value.toBinary64 false))) r ∧
            Reading.negated r = Reading.past (.constant (.float (-n.value.toBinary64 false))) r) := by
  refine ⟨fun p c cs digit => ?_, fun cursor p text hnext => ?_⟩
  · exact ⟨_, _, Numeral.isWritten_scan digit cs, (Numeral.scan_append _).symm,
      fun _ hm => Numeral.spelling_prefix_scan hm, next_of_isDigit digit p cs⟩
  · obtain ⟨n, hn, hfloat, htext⟩ := exists_numeral_of_float hnext
    refine ⟨n, hn, hfloat, htext, n.value.toBinary64_eq_infinite_iff false, fun r hr => ?_⟩
    have hvalue : r.current.value = .float text := congrArg Located.value hr
    obtain rfl : r.current.position = p := congrArg Located.position hr
    exact ⟨refused_of_overflows hn htext hvalue, past_of_not_overflows hn htext hvalue⟩

/-- A sign without digits is left, and so is a second point; `1e400` is read as a float and refused as a number. -/
theorem numbers_longest_cut :
    (∃ n : Numeral, n.IsWritten ∧ n.spelling = ['1', '.', '5'] ∧
      Cursor.next ⟨.start, ['1', '.', '5', 'e', '+', '.', '2']⟩ =
        (.ok ⟨.start, n.token⟩, ⟨⟨1, 4⟩, ['e', '+', '.', '2']⟩)) ∧
    ∃ r : Reader, r.current = ⟨.start, .float "1e400"⟩ ∧
      Reading.primary {} (Reading.unexpected .expression) r = .error ⟨.start, .invalidNumber "1e400"⟩ r := by
  obtain ⟨hlongest, hfloats⟩ := numbers_longest {} (Reading.unexpected .expression)
  constructor
  · obtain ⟨n, rest, hn, hsplit, -, hnext⟩ := hlongest .start '1' ['.', '5', 'e', '+', '.', '2'] rfl
    have hrest : rest = ['e', '+', '.', '2'] := congrArg (fun answer => answer.2.rest) hnext.symm
    rw [hrest] at hsplit hnext
    obtain hspelling : n.spelling = ['1', '.', '5'] := List.append_cancel_right hsplit.symm
    rw [hspelling] at hnext
    exact ⟨n, hn, hspelling, hnext⟩
  · obtain ⟨n, hn, -, htext, -, hrefused⟩ := hfloats (.ofString "1e400") .start "1e400" rfl
    have hscan := Numeral.scan_spelling hn
    rw [← htext] at hscan
    obtain rfl : ⟨['1'], none, some ⟨'e', none, ['4', '0', '0']⟩⟩ = n := congrArg Prod.fst hscan
    have hlarge : (Numeral.value ⟨['1'], none, some ⟨'e', none, ['4', '0', '0']⟩⟩).Overflows := by
      show Decimal.limit * _ ≤ _
      decide +kernel
    exact ⟨⟨⟨.start, .float "1e400"⟩, none, .ofString "", 0, ()⟩, rfl, ((hrefused _ rfl).1 hlarge).1⟩

end GraphicScore
