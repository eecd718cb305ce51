import GraphicScore.Reading.Expression

/-!
# The grammar of expressions

Which words of tokens are expressions, and the tree that each derivation denotes. Inside parentheses
newlines may stand in front of an operator as well.
-/

namespace GraphicScore

/-- How tightly an expression binds, the loosest first. -/
inductive Level where
  | sum | product | unary | primary
deriving DecidableEq

namespace Level

def tighter : Level → Level
  | .sum => .product
  | .product => .unary
  | .unary => .primary
  | .primary => .primary

def rank : Level → Nat
  | .sum => 0
  | .product => 1
  | .unary => 2
  | .primary => 3

theorem rank_le_tighter (level : Level) : level.rank ≤ level.tighter.rank := by
  cases level <;> decide

end Level

namespace Operator

def level : Operator → Level
  | .plus => .sum
  | .minus => .sum
  | .times => .product
  | .divide => .product

def token : Operator → Token
  | .plus => .plus
  | .minus => .minus
  | .times => .star
  | .divide => .slash

theorem token_inj {a b : Operator} (h : a.token = b.token) : a = b := by
  cases a <;> cases b <;> first | rfl | cases h

theorem rank_level_lt (op : Operator) : op.level.rank < op.level.tighter.rank := by
  cases op <;> decide

theorem additive?_eq_some {t : Token} {op : Operator} :
    additive? t = some op ↔ t = op.token ∧ op.level = .sum := by
  cases t <;> cases op <;> simp [additive?, token, level]

theorem multiplicative?_eq_some {t : Token} {op : Operator} :
    multiplicative? t = some op ↔ t = op.token ∧ op.level = .product := by
  cases t <;> cases op <;> simp [multiplicative?, token, level]

end Operator

def Newlines (w : List Token) : Prop := ∀ t ∈ w, t = .newline

theorem Newlines.nil : Newlines [] := List.forall_mem_nil _

def Gap (inside : Bool) (w : List Token) : Prop := Newlines w ∧ (inside = false → w = [])

theorem Gap.nil {inside : Bool} : Gap inside [] := ⟨.nil, fun _ => rfl⟩

/-! ## names and converters -/

/-- The name of a p-field is its letter with digits behind it. -/
theorem pFieldDigits?_eq_some {name : String} {digits : List Char} :
    pFieldDigits? name = some digits ↔
      name.toList = 'p' :: digits ∧ digits ≠ [] ∧ ∀ c ∈ digits, c.isDigit = true := by
  unfold pFieldDigits?
  split
  · rename_i cs hname
    rw [hname]
    cases cs <;> simp <;> grind
  · rename_i hname
    simp only [reduceCtorEq, false_iff, not_and]
    exact fun h => absurd h (hname digits)

theorem Config.admits_iff {config : Config} {name : String} :
    config.admits name = true ↔ config.unknown = .record ∨ name ∈ config.vocabulary.names := by
  simp [admits, Vocabulary.contains]

/-- A p-field or an operation is converted, and the name of the call stands in front of those it has. -/
theorem Expr.convert?_eq_some {e e' : Expr} {c : Converter} :
    e.convert? c = some e' ↔
      (∃ number converters, e = .pField number converters ∧ e' = .pField number (c :: converters)) ∨
      ∃ operator left right converters, e = .binary operator left right converters ∧
        e' = .binary operator left right (c :: converters) := by
  cases e <;> grind [convert?]

section
variable (config : Config)

/-- The words of a level, inside parentheses or not, each with its tree. -/
inductive Derives : Level → Bool → List Token → Expr → Prop
  | integer {inside : Bool} {digits : String} {value : Int64} :
    value.toInt = Nat.ofDigitChars 10 digits.toList 0 →
    Derives .primary inside [.integer digits] (.constant (.int value))
  | float {inside : Bool} {text : String} {value : Binary64} :
    (Numeral.scan text.toList).1.value.toBinary64 false = value → value.isFinite = true →
    Derives .primary inside [.float text] (.constant (.float value))
  | negInteger {inside : Bool} {digits : String} {value : Int64} :
    value.toInt = -(Nat.ofDigitChars 10 digits.toList 0 : Int) →
    Derives .unary inside [.minus, .integer digits] (.constant (.int value))
  | negFloat {inside : Bool} {text : String} {value : Binary64} :
    (Numeral.scan text.toList).1.value.toBinary64 false = value → value.isFinite = true →
    Derives .unary inside [.minus, .float text] (.constant (.float (-value)))
  | pField {inside : Bool} {name : String} {digits : List Char} {number : UInt32} :
    pFieldDigits? name = some digits → number.toNat = Nat.ofDigitChars 10 digits 0 → number ≠ 0 →
    Derives .primary inside [.identifier name] (.pField number [])
  | group {inside : Bool} {n w n' : List Token} {e : Expr} :
    Newlines n → Derives .sum true w e → Newlines n' →
    Derives .primary inside (.openParen :: (n ++ w ++ n' ++ [.closeParen])) e
  | call {inside : Bool} {name : String} {n w n' : List Token} {e e' : Expr} :
    pFieldDigits? name = none → config.admits name = true → e.convert? ⟨name⟩ = some e' →
    Newlines n → Derives .sum true w e → Newlines n' →
    Derives .primary inside (.identifier name :: .openParen :: (n ++ w ++ n' ++ [.closeParen])) e'
  | tighter {level : Level} {inside : Bool} {w : List Token} {e : Expr} :
    Derives level.tighter inside w e → Derives level inside w e
  | chain {inside : Bool} {w g n v : List Token} {left right : Expr} (op : Operator) :
    Derives op.level inside w left → Gap inside g → Newlines n →
    Derives op.level.tighter inside v right →
    Derives op.level inside (w ++ g ++ op.token :: (n ++ v)) (.binary op left right [])

end

/-! ## tokens of expressions -/

def Token.inExpression : Token → Bool
  | .symbol _ => false
  | .comma => false
  | .openBrace => false
  | .closeBrace => false
  | .arrow => false
  | .semicolon => false
  | .endOfInput => false
  | _ => true

def Token.startsExpression : Token → Bool
  | .integer _ => true
  | .float _ => true
  | .identifier _ => true
  | .minus => true
  | .openParen => true
  | _ => false

section
variable {config : Config} {level : Level} {inside : Bool} {w : List Token} {e : Expr}

theorem Newlines.forall_inExpression (h : Newlines w) : ∀ t ∈ w, t.inExpression = true :=
  fun t ht => h t ht ▸ rfl

theorem Derives.forall_inExpression (h : Derives config level inside w e) :
    ∀ t ∈ w, t.inExpression = true := by
  induction h with
  | tighter _ ih => exact ih
  | chain op _ gap newlines _ ih ih' =>
    have hop : op.token.inExpression = true := by cases op <;> rfl
    simp only [List.forall_mem_append, List.forall_mem_cons]
    exact ⟨⟨ih, gap.1.forall_inExpression⟩, hop, newlines.forall_inExpression, ih'⟩
  | group newlines _ newlines' ih =>
    simp only [List.forall_mem_append, List.forall_mem_cons]
    exact ⟨rfl, ⟨⟨newlines.forall_inExpression, ih⟩, newlines'.forall_inExpression⟩, rfl, List.forall_mem_nil _⟩
  | call _ _ _ newlines _ newlines' ih =>
    simp only [List.forall_mem_append, List.forall_mem_cons]
    exact ⟨rfl, rfl, ⟨⟨newlines.forall_inExpression, ih⟩, newlines'.forall_inExpression⟩, rfl,
      List.forall_mem_nil _⟩
  | _ => simp [Token.inExpression]

theorem Derives.exists_cons (h : Derives config level inside w e) :
    ∃ t v, w = t :: v ∧ t.startsExpression = true := by
  induction h with
  | tighter _ ih => exact ih
  | chain op _ _ _ _ ih _ =>
    obtain ⟨t, v, rfl, ht⟩ := ih
    exact ⟨t, _, by simp only [List.cons_append]; rfl, ht⟩
  | _ => exact ⟨_, _, rfl, rfl⟩

theorem Derives.head_ne_minus (h : Derives config level inside w e) (hl : level = .primary) :
    w.head? ≠ some .minus := by
  induction h with
  | tighter _ ih => exact ih (by rw [hl]; rfl)
  | negInteger _ => cases hl
  | negFloat _ _ => cases hl
  | chain op => cases op <;> cases hl
  | _ => simp

end

end GraphicScore
