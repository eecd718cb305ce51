import GraphicScore.Proofs.Grammar.Expression
import GraphicScore.Proofs.Number.Positional
import GraphicScore.Proofs.Source.Parts
import GraphicScore.Proofs.Token.Writing

/-!
# Tokens of canonical expressions

The tokens that the canonical text of an expression has. A constant that is not finite is no token: its
text has a point where none can start.
-/

namespace GraphicScore

/-! ## constants -/

def signed (negative : Bool) (t : Token) : List Token := if negative then [.minus, t] else [t]

def Constant.tokens : Constant → List Token
  | .int value => signed (value.toInt < 0) (.integer (toString value.toInt.natAbs))
  | .float (.finite negative rank) => signed negative (.float (String.ofList (Shortest.decimal rank).pointed))
  | .float _ => []

theorem writes_signed {negative : Bool} {text : String} {t : Token} (ht : t.isLexical = true)
    (htext : text.toList = t.spelling) :
    Writes t.isOpen true (if negative then "-" ++ text else text) (signed negative t) := by
  have hminus : Writes false true "-" [.minus] := writes_closed rfl rfl rfl
  have htoken := writes_token ht htext
  cases negative with
  | false => exact htoken
  | true => exact hminus.append_closed htoken

theorem isLexical_integer (n : Nat) : (Token.integer (toString n)).isLexical = true := by
  have hne : (Nat.toDigits 10 n).isEmpty = false := by simp [Nat.toDigits_ne_nil]
  have hall : (Nat.toDigits 10 n).all Char.isDigit = true :=
    List.all_eq_true.mpr fun c hc => Nat.isDigit_of_mem_toDigits (by decide) (by decide) hc
  simp only [Token.isLexical, Nat.toString_eq_repr, Nat.toList_repr, hne, hall]
  rfl

theorem isLexical_float (d : Decimal) : (Token.float (String.ofList d.pointed)).isLexical = true := by
  have hhead : d.pointed.head?.any Char.isDigit = true := by
    rw [d.pointed_eq]
    obtain ⟨c, cs, hparts⟩ := List.exists_cons_of_ne_nil d.parts_ne_nil.1
    have := d.allDigits_parts c (by simp [hparts])
    simp [hparts, this]
  simp only [Token.isLexical, String.toList_ofList, d.scan_pointed, hhead]
  rfl

theorem toString_int (n : Int) :
    toString n = if decide (n < 0) then "-" ++ toString n.natAbs else toString n.natAbs := by
  cases n with
  | ofNat n => rfl
  | negSucc n =>
    rw [if_pos (decide_eq_true (Int.negSucc_lt_zero n))]
    rfl

theorem contains_positional (d : Decimal) : d.positional.contains '.' = decide (d.exponent < 0) := by
  by_cases h : 0 ≤ d.exponent
  · have hall : Numeral.AllDigits d.positional := by
      simp only [Decimal.positional, if_pos h, Numeral.AllDigits, List.forall_mem_append]
      exact ⟨Decimal.allDigits_toDigits _, Decimal.allDigits_zeros _⟩
    have hpoint : '.' ∉ d.positional := fun hmem => absurd (hall '.' hmem) (by decide)
    simp [hpoint, h]
  · have hpoint : '.' ∈ d.positional := by
      have := d.pointed_eq
      rw [Decimal.pointed, if_neg h] at this
      simp [this]
    simp only [Int.not_le] at h
    simp [hpoint, h]

theorem text_finite (negative : Bool) (rank : Fin Binary64.magnitudes) :
    (Constant.float (.finite negative rank)).text =
      if negative then "-" ++ String.ofList (Shortest.decimal rank).pointed
      else String.ofList (Shortest.decimal rank).pointed := by
  generalize hd : Shortest.decimal rank = d
  have hpoint : (Binary64.text.signed negative d.positional).contains '.' = decide (d.exponent < 0) := by
    rw [← contains_positional]
    cases negative <;> simp [Binary64.text.signed]
  have htext : (Constant.float (.finite negative rank)).text =
      String.ofList (Binary64.text.signed negative d.pointed) := by
    rw [Constant.text, Binary64.text, hd]
    simp only [hpoint, Decimal.pointed]
    by_cases h : 0 ≤ d.exponent
    · cases negative <;> simp [Binary64.text.signed, h, Int.not_lt.mpr h]
    · cases negative <;> simp [Binary64.text.signed, h, Int.not_le.mp h]
  rw [htext]
  cases negative with
  | false => rfl
  | true => simp [Binary64.text.signed, String.ofList_cons]

/-- A name with a point behind it is no text. -/
theorem words_special {cs rest : List Char} (name : String)
    (h : Lexeme.read (trivia cs).2 = ⟨.ok (.identifier name), name.toList, '.' :: rest⟩) : words cs = none := by
  rw [words_of_token (congrArg Lexeme.outcome h) (by simp), h, words_of_error rfl]
  rfl

theorem writes_constant (c : Constant) : Writes true c.isFinite c.text c.tokens := by
  cases c with
  | int value =>
    rw [Constant.text, toString_int]
    refine writes_signed (isLexical_integer _) ?_
    rfl
  | float value =>
    cases value with
    | finite negative rank =>
      rw [text_finite]
      exact writes_signed (isLexical_float _) rfl
    | nan =>
      intro rest _
      exact words_special (String.ofList ['N', 'a', 'N']) rfl
    | infinite negative =>
      intro rest _
      cases negative with
      | false => exact words_special (String.ofList ['i', 'n', 'f']) rfl
      | true =>
        show words ('-' :: 'i' :: 'n' :: 'f' :: '.' :: '0' :: rest) = none
        rw [words_ofChar rfl, words_special (String.ofList ['i', 'n', 'f']) rfl]
        rfl

/-! ## expressions -/

namespace Expr

def callTokens (converters : List Converter) (body : List Token) : List Token :=
  converters.foldr (fun c ts => .identifier c.name :: .openParen :: (ts ++ [.closeParen])) body

def operandTokens (parens : Bool) (ts : List Token) : List Token :=
  if parens then .openParen :: (ts ++ [.closeParen]) else ts

def tokens : Expr → List Token
  | .constant value => value.tokens
  | .pField number converters => callTokens converters [.identifier ("p" ++ toString number.toNat)]
  | .binary operator left right converters =>
    let precedence := operator.precedence
    callTokens converters (operandTokens (left.needsParens precedence false) left.tokens ++ operator.token ::
      operandTokens (right.needsParens precedence true) right.tokens)

end Expr

section
variable {sound sound' : Bool} {text text' : String} {ts us : List Token} {converters : List Converter}

theorem writes_openParen : Writes false true "(" [.openParen] := writes_closed rfl rfl rfl

theorem writes_closeParen : Writes false true ")" [.closeParen] := writes_closed rfl rfl rfl

theorem breaks_openParen (rest : List Char) : Breaks ("(".toList ++ rest) :=
  breaks_cons (by decide) (by decide)

theorem breaks_closeParen (rest : List Char) : Breaks (")".toList ++ rest) :=
  breaks_cons (by decide) (by decide)

theorem breaks_space (rest : List Char) : Breaks (" ".toList ++ rest) :=
  breaks_cons (by decide) (by decide)

theorem writes_calls (hc : ∀ c ∈ converters, c.isCallable = true) (h : Writes true sound text ts) :
    Writes true sound (Expr.calls converters text) (Expr.callTokens converters ts) := by
  induction converters with
  | nil => exact h
  | cons c converters ih =>
    rw [List.forall_mem_cons, Converter.isCallable_iff] at hc
    have hopen := (writes_identifier hc.1.1).append writes_openParen fun _ => breaks_openParen
    have hbody := hopen.append_closed (ih hc.2)
    have hclose := hbody.append writes_closeParen fun _ => breaks_closeParen
    simpa [Expr.calls, Expr.callTokens] using hclose.opened

theorem writes_operand (parens : Bool) (h : Writes true sound text ts) :
    Writes true sound (if parens then "(" ++ text ++ ")" else text) (Expr.operandTokens parens ts) := by
  cases parens with
  | false => exact h
  | true =>
    have hbody := writes_openParen.append_closed h
    have hclose := hbody.append writes_closeParen fun _ => breaks_closeParen
    simpa [Expr.operandTokens] using hclose.opened

theorem writes_operator (op : Operator) : Writes false true op.symbol.toString [op.token] := by
  cases op <;> exact writes_closed rfl rfl rfl

theorem writes_binary (op : Operator) (h : Writes true sound text ts) (h' : Writes true sound' text' us) :
    Writes true (sound && sound') (text ++ " " ++ op.symbol.toString ++ " " ++ text')
      (ts ++ op.token :: us) := by
  have hspace := h.append writes_space fun _ => breaks_space
  have hop := hspace.append_closed (writes_operator op)
  have hspace' := hop.append_closed writes_space
  simpa using hspace'.append_closed h'

end

theorem isIdentifier_pField (number : Nat) : isIdentifier ("p" ++ toString number) = true := by
  have hdigits : ∀ c ∈ Nat.toDigits 10 number, Character.continuesName c = true := fun c hc =>
    Character.continuesName_of_isDigit (Nat.isDigit_of_mem_toDigits (by decide) (by decide) hc)
  have hname : ("p" ++ toString number).toList = 'p' :: Nat.toDigits 10 number := by
    simp [Nat.toString_eq_repr]
  rw [isIdentifier_iff, hname]
  exact ⟨'p', _, rfl, by decide, List.forall_mem_cons.mpr ⟨by decide, hdigits⟩⟩

/-- The text of an expression has its tokens, if its converters can be called and its constants are finite. -/
theorem writes_expr {e : Expr} (hc : e.all Expr.isCallable = true) :
    Writes true (e.all Expr.isFinite) e.text e.tokens := by
  induction e with
  | constant value => exact writes_constant value
  | pField number converters =>
    exact writes_calls (List.all_eq_true.mp hc) (writes_identifier (isIdentifier_pField _))
  | binary op left right converters ihl ihr =>
    simp only [Expr.all, Bool.and_eq_true] at hc
    obtain ⟨⟨hc, hleft⟩, hright⟩ := hc
    have hfirst := writes_operand (left.needsParens op.precedence false) (ihl hleft)
    have hsecond := writes_operand (right.needsParens op.precedence true) (ihr hright)
    have hfinite : (Expr.binary op left right converters).all Expr.isFinite =
        (left.all Expr.isFinite && right.all Expr.isFinite) := by
      simp [Expr.all, Expr.isFinite]
    rw [hfinite]
    exact writes_calls (List.all_eq_true.mp hc) (writes_binary op hfirst hsecond)

/-! ## the first token -/

section
variable {e : Expr} {converters : List Converter} {text : String} {ts : List Token}

theorem head?_constant (c : Constant) (name : String) : c.tokens.head? ≠ some (.identifier name) := by
  cases c with
  | int value =>
    rw [Constant.tokens, signed]
    split <;> simp
  | float value =>
    cases value with
    | finite negative rank => cases negative <;> simp [Constant.tokens, signed]
    | _ => simp [Constant.tokens]

theorem prefix_calls (hts : ts.head? = some (.identifier "end") → "end(".toList <+: text.toList)
    (h : (Expr.callTokens converters ts).head? = some (.identifier "end")) :
    "end(".toList <+: (Expr.calls converters text).toList := by
  cases converters with
  | nil => exact hts h
  | cons c converters =>
    have hname : c.name = "end" := by simpa [Expr.callTokens] using h
    rw [Expr.calls, List.foldr_cons, hname, String.append_assoc, String.append_assoc, ← String.append_assoc,
      String.toList_append]
    exact List.prefix_append _ _

theorem prefix_of_tokens (h : e.tokens.head? = some (.identifier "end")) : "end(".toList <+: e.text.toList := by
  induction e with
  | constant value => exact absurd h (head?_constant value "end")
  | pField number converters =>
    refine prefix_calls (fun hhead => ?_) h
    -- without calls the first token is the name of the field
    have hname : "p" ++ toString number.toNat = "end" := by simpa using hhead
    have := congrArg (·.toList.head?) hname
    simp at this
  | binary op left right converters ihl _ =>
    refine prefix_calls (fun hhead => ?_) h
    cases hparens : left.needsParens op.precedence false with
    | true =>
      rw [hparens] at hhead
      cases hhead
    | false =>
      have hop : op.token ≠ .identifier "end" := by cases op <;> decide
      simp only [hparens, Expr.operandTokens, Bool.false_eq_true, if_false, List.head?_append] at hhead ⊢
      cases htokens : left.tokens.head? with
      | none => simp [htokens, hop] at hhead
      | some t =>
        have hleft : "end(".toList <+: left.text.toList := ihl (by simpa [htokens] using hhead)
        simp only [String.toList_append]
        simpa using hleft.trans (List.prefix_append _ _)

/-- An expression whose text starts with a call of `end` starts with the name. -/
theorem head?_of_text (hc : e.all Expr.isCallable = true) (hf : e.all Expr.isFinite = true)
    (h : "end(".toList <+: e.text.toList) : e.tokens.head? = some (.identifier "end") := by
  obtain ⟨cs, hcs⟩ := h
  have hname : Writes true true "end" [.identifier "end"] := writes_identifier (by decide)
  have hcall := hname ('(' :: cs) fun _ => breaks_openParen cs
  have htokens := (writes_expr hc).words_eq
  rw [hf, ← hcs] at htokens
  obtain ⟨ts, -, hts⟩ := Option.map_eq_some_iff.mp (hcall.symm.trans htokens)
  rw [← hts]
  rfl

end

end GraphicScore
