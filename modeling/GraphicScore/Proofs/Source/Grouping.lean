import Mathlib.Data.Bool.Basic
import GraphicScore.Proofs.Source.RoundTrip
import GraphicScore.Proofs.Source.Texts

/-!
# Parentheses of canonical expressions

A canonical text has the fewest parentheses that its expression can be written with. Those of a call belong to
the call, and an operand that binds too loosely for its side is read as one only where it stands in parentheses.
-/

namespace GraphicScore

namespace Expr

/-- Whether the expression is no operand of the level but in parentheses. -/
def isLoose (level : Level) : Expr → Bool
  | .binary operator _ _ [] => operator.level.rank < level.rank
  | _ => false

/-- The parentheses opened for calls, and around loose operands. -/
def openings : Expr → Nat
  | .constant _ => 0
  | .pField _ converters => converters.length
  | .binary operator left right converters =>
    converters.length + (left.openings + (left.isLoose operator.level).toNat) +
      (right.openings + (right.isLoose operator.level.tighter).toNat)

end Expr

section
variable {op : Operator} {level : Level} {e e' : Expr} {converters : List Converter}

theorem needsParens_eq (e : Expr) (isRight : Bool) :
    e.needsParens op.precedence isRight = e.isLoose (if isRight then op.level.tighter else op.level) := by
  cases e with
  | constant value => rfl
  | pField number converters => rfl
  | binary op' left right converters =>
    cases converters with
    | nil => cases op <;> cases op' <;> cases isRight <;> rfl
    | cons c converters => rfl

theorem isLoose_mono {level' : Level} (hl : level.rank ≤ level'.rank) (h : e.isLoose level = true) :
    e.isLoose level' = true := by
  cases e with
  | constant value => contradiction
  | pField number converters => contradiction
  | binary op left right converters =>
    cases converters with
    | nil => exact decide_eq_true (Nat.lt_of_lt_of_le (of_decide_eq_true h) hl)
    | cons c converters => contradiction

/-! ## readings of an expression -/

theorem openings_of_convert? {c : Converter} (h : e.convert? c = some e') :
    e'.openings = e.openings + 1 ∧ e'.isLoose level = false := by
  obtain ⟨_, _, rfl, rfl⟩ | ⟨_, _, _, _, rfl, rfl⟩ := Expr.convert?_eq_some.mp h
  · exact ⟨rfl, rfl⟩
  · refine ⟨?_, rfl⟩
    simp only [Expr.openings, List.length_cons]
    omega

/-- A word of an expression opens all the parentheses that the expression needs. -/
theorem Derives.openings_le {config : Config} {inside : Bool} {w : List Token}
    (h : Derives config level inside w e) : e.openings + (e.isLoose level).toNat ≤ w.count .openParen := by
  induction h with
  | @group inside n w n' e _ _ _ ih =>
    -- the parenthesis is the one that a loose operand is counted for
    have hloose : (e.isLoose .primary).toNat ≤ 1 := Bool.toNat_le _
    simp only [List.count_cons_self, List.count_append]
    omega
  | @call inside name n w n' e e' _ _ hconvert _ _ _ ih =>
    have hcall : e'.openings = e.openings + 1 ∧ e'.isLoose .primary = false := openings_of_convert? hconvert
    have hname : Token.identifier name ≠ .openParen := by simp
    rw [hcall.1, hcall.2, List.count_cons_of_ne hname, List.count_cons_self]
    simp only [List.count_append, Bool.toNat_false]
    omega
  | @tighter level inside w e _ ih =>
    have hloose : (e.isLoose level).toNat ≤ (e.isLoose level.tighter).toNat :=
      Bool.toNat_le_toNat (isLoose_mono level.rank_le_tighter)
    omega
  | @chain inside w g n v left right op _ _ _ _ ihl ihr =>
    -- both operands are read at the level of their side, so what they lack there is in their words
    have hloose : (Expr.binary op left right []).isLoose op.level = false := by
      simp [Expr.isLoose]
    simp only [hloose, Expr.openings, List.length_nil, List.count_append, List.count_cons, Bool.toNat_false]
    omega
  | _ => exact Nat.zero_le _

theorem isLoose_of_beq (h : (e == e') = true) : e.isLoose level = e'.isLoose level := by
  cases e with
  | constant value =>
    cases e' with
    | constant value' => rfl
    | _ => contradiction
  | pField number converters =>
    cases e' with
    | pField number' converters' => rfl
    | _ => contradiction
  | binary op left right converters =>
    cases e' with
    | binary op' left' right' converters' =>
      obtain ⟨rfl, -, -, rfl⟩ := beq_binary.mp h
      cases converters <;> rfl
    | _ => contradiction

theorem openings_of_beq (h : (e == e') = true) : e.openings = e'.openings := by
  induction e generalizing e' with
  | constant value =>
    cases e' with
    | constant value' => rfl
    | _ => contradiction
  | pField number converters =>
    cases e' with
    | pField number' converters' =>
      obtain ⟨-, rfl⟩ := beq_pField.mp h
      rfl
    | _ => contradiction
  | binary op left right converters ihl ihr =>
    cases e' with
    | binary op' left' right' converters' =>
      obtain ⟨rfl, hleft, hright, rfl⟩ := beq_binary.mp h
      rw [Expr.openings, Expr.openings, ihl hleft, ihr hright, isLoose_of_beq hleft, isLoose_of_beq hright]
    | _ => contradiction

/-! ## the canonical reading -/

theorem openings_binary (left right : Expr) :
    (Expr.binary op left right converters).openings =
      converters.length + (left.openings + (left.needsParens op.precedence false).toNat) +
        (right.openings + (right.needsParens op.precedence true).toNat) := by
  rw [needsParens_eq, needsParens_eq]
  rfl

theorem count_callTokens (ts : List Token) :
    (Expr.callTokens converters ts).count .openParen = converters.length + ts.count .openParen := by
  induction converters with
  | nil => simp [Expr.callTokens]
  | cons c converters ih =>
    have hcall : (Expr.callTokens (c :: converters) ts).count .openParen =
        (Expr.callTokens converters ts).count .openParen + 1 := by
      simp [Expr.callTokens]
    rw [hcall, ih, List.length_cons]
    omega

theorem count_operandTokens (parens : Bool) (ts : List Token) :
    (Expr.operandTokens parens ts).count .openParen = ts.count .openParen + parens.toNat := by
  cases parens <;> simp [Expr.operandTokens]

theorem count_constant (c : Constant) : c.tokens.count .openParen = 0 := by
  have hsigned {negative : Bool} {t : Token} (ht : t ≠ .openParen) : (signed negative t).count .openParen = 0 := by
    cases negative <;> simp [signed, ht]
  cases c with
  | int value => exact hsigned (by simp)
  | float value =>
    cases value with
    | finite negative rank => exact hsigned (by simp)
    | _ => rfl

theorem count_tokens (e : Expr) : e.tokens.count .openParen = e.openings := by
  induction e with
  | constant value => exact count_constant value
  | pField number converters =>
    rw [Expr.tokens, count_callTokens]
    rfl
  | binary op left right converters ihl ihr =>
    have hop : op.token ≠ .openParen := by cases op <;> decide
    rw [Expr.tokens, count_callTokens, List.count_append, List.count_cons_of_ne hop, count_operandTokens,
      count_operandTokens, ihl, ihr, openings_binary, ← Nat.add_assoc]

theorem notMem_openParen_word {name : String} (h : isWord name = true) : '(' ∉ name.toList := fun hmem =>
  absurd ((isWord_iff.mp h).2 _ hmem) (by decide)

theorem count_calls (text : String) (hc : ∀ c ∈ converters, c.isCallable = true) :
    (Expr.calls converters text).toList.count '(' = converters.length + text.toList.count '(' := by
  induction converters with
  | nil => simp [Expr.calls]
  | cons c converters ih =>
    rw [List.forall_mem_cons, Converter.isCallable_iff, isIdentifier, Bool.and_eq_true] at hc
    have hname : c.name.toList.count '(' = 0 := List.count_eq_zero.mpr (notMem_openParen_word hc.1.1.2)
    have hcall : (Expr.calls (c :: converters) text).toList.count '(' =
        c.name.toList.count '(' + (Expr.calls converters text).toList.count '(' + 1 := by
      simp [Expr.calls, Nat.add_assoc]
    rw [hcall, hname, ih hc.2, List.length_cons]
    omega

theorem count_operand (parens : Bool) (text : String) :
    (if parens then "(" ++ text ++ ")" else text).toList.count '(' = text.toList.count '(' + parens.toNat := by
  cases parens <;> simp

theorem count_text (hc : e.all Expr.isCallable = true) : e.text.toList.count '(' = e.openings := by
  induction e with
  | constant value =>
    exact List.count_eq_zero.mpr (notMem_constant (by decide) (by decide) (by decide) value)
  | pField number converters =>
    have hname : ("p" ++ toString number.toNat).toList.count '(' = 0 :=
      List.count_eq_zero.mpr (notMem_openParen_word (isWord_pField _))
    have hcalls : ∀ c ∈ converters, c.isCallable = true := List.all_eq_true.mp hc
    rw [Expr.text, count_calls _ hcalls, hname]
    rfl
  | binary op left right converters ihl ihr =>
    simp only [Expr.all, Bool.and_eq_true] at hc
    have hcalls : ∀ c ∈ converters, c.isCallable = true := List.all_eq_true.mp hc.1.1
    have hspace : " ".toList.count '(' = 0 := by decide
    have hsymbol : op.symbol.toString.toList.count '(' = 0 := by cases op <;> decide
    rw [Expr.text, count_calls _ hcalls, openings_binary]
    simp only [String.toList_append, List.count_append, count_operand, ihl hc.1.2, ihr hc.2, hspace, hsymbol]
    omega

end

/--
However an expression is written, its words open as many parentheses as its text does, or more. The words of
the text are among those that it can be written with.
-/
theorem openings_text_least {e : Expr} (he : e.all Expr.isRegular = true) :
    (∀ (config : Config) (r r' : Reader) (w : List Token) (e' : Expr), r.depth = 0 → r.Passes w r' →
      r'.current.value = .comma → Reading.expression config r = .ok e' r' → (e' == e) = true →
        e.text.toList.count '(' ≤ w.count .openParen) ∧
    ∃ ts w, tokenize e.text = .ok ts ∧ ts.map Located.value = w ++ [.endOfInput] ∧
      w.count .openParen = e.text.toList.count '(' ∧
      ∃ r r', Reading.advance (.ofFeed (.ofString (e.text ++ ","))) = .ok () r ∧ r.depth = 0 ∧
        r.Passes w r' ∧ r'.current.value = .comma ∧ Reading.expression {} r = .ok e r' := by
  have htext := count_text (Expr.all_isRegular.mp he).1
  constructor
  · intro config r r' w e' hd hw hend hok heq
    obtain ⟨w', hw', hderives⟩ := Reading.expression_sound hd hok
    have hword := hw.word_unique hw' (by rw [hend]; decide)
    rw [htext, ← openings_of_beq heq, hword]
    exact Nat.le_of_add_right_le hderives.openings_le
  · obtain ⟨ts, hts, hvalues⟩ := (words_eq_some .start).mp (words_of_expr he)
    exact ⟨ts, e.tokens, hts, hvalues, (count_tokens e).trans htext.symm, exists_reader_of_isRegular he⟩

theorem openings_text_least_product :
    ∃ (e : Expr) (r r' : Reader) (w : List Token), e.all Expr.isRegular = true ∧
      e.text = "cpspch(p4 + 1) * (p5 - 2)" ∧ r.depth = 0 ∧ r.Passes w r' ∧ r'.current.value = .comma ∧
      Reading.expression {} r = .ok e r' ∧ 2 ≤ w.count .openParen := by
  let left : Expr := .binary .plus (.pField 4 []) (.constant (.int 1)) [⟨"cpspch"⟩]
  let right : Expr := .binary .minus (.pField 5 []) (.constant (.int 2)) []
  let e : Expr := .binary .times left right []
  have he : e.all Expr.isRegular = true := by decide
  obtain ⟨hleast, ts, w, -, -, -, r, r', -, hd, hw, hend, hok⟩ := openings_text_least he
  have hself : (e == e) = true := by decide
  have hcount : e.text.toList.count '(' = 2 := by decide
  refine ⟨e, r, r', w, he, by decide, hd, hw, hend, hok, ?_⟩
  exact hcount ▸ hleast {} r r' w e hd hw hend hok hself

end GraphicScore
