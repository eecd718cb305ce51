import GraphicScore.Proofs.Grammar.Score
import GraphicScore.Proofs.Number.Shortest
import GraphicScore.Proofs.Source.Score

/-!
# Derivations of canonical scores

The tokens of a canonical text are in the grammar, and denote what the text was written for. Operands
stand in parentheses exactly where their level is too loose.
-/

namespace GraphicScore

/-! ## levels -/

/-- The tightest level that has the tokens of the expression. -/
def Expr.level : Expr → Level
  | .constant _ => .unary
  | .pField _ _ => .primary
  | .binary operator _ _ [] => operator.level
  | .binary _ _ _ (_ :: _) => .primary

section
variable {config : Config} {level : Level} {inside : Bool} {w : List Token} {e : Expr} {op : Operator}

theorem Derives.loosen {level' : Level} (h : Derives config level inside w e) (hl : level'.rank ≤ level.rank) :
    Derives config level' inside w e := by
  have hproduct (h : Derives config .product inside w e) : Derives config .sum inside w e := .tighter h
  have hunary (h : Derives config .unary inside w e) : Derives config .product inside w e := .tighter h
  have hprimary (h : Derives config .primary inside w e) : Derives config .unary inside w e := .tighter h
  cases level <;> cases level' <;> first
    | exact absurd hl (by decide)
    | exact h
    | exact hproduct h
    | exact hunary h
    | exact hprimary h
    | exact hproduct (hunary h)
    | exact hunary (hprimary h)
    | exact hproduct (hunary (hprimary h))

/-- An operand without parentheses is tight enough for its side. -/
theorem rank_le_of_needsParens {isRight : Bool} (h : e.needsParens op.precedence isRight = false) :
    (if isRight then op.level.tighter else op.level).rank ≤ e.level.rank := by
  have hbound : (if isRight then op.level.tighter else op.level).rank ≤ 2 := by
    cases op <;> cases isRight <;> decide
  cases e with
  | constant value => exact hbound
  | pField number converters => exact Nat.le_succ_of_le hbound
  | binary op' left right converters =>
    cases converters with
    | nil =>
      simp only [Expr.needsParens, Expr.level] at h ⊢
      revert h
      cases op <;> cases op' <;> cases isRight <;> decide
    | cons c converters => exact Nat.le_succ_of_le hbound

end

/-! ## constants -/

theorem toBinary64_parts (rank : Fin Binary64.magnitudes) :
    (Numeral.scan (String.ofList (Shortest.decimal rank).pointed).toList).1.value.toBinary64 false =
      .finite false rank := by
  have hrank : (Shortest.decimal rank).nearestRank = rank := Shortest.nearestRank_decimal rank
  have hlt : (Shortest.decimal rank).nearestRank < Binary64.magnitudes := by
    rw [hrank]
    exact rank.isLt
  rw [String.toList_ofList, Decimal.scan_pointed, Decimal.toBinary64, Decimal.nearestRank_parts hlt,
    Binary64.ofRank, dif_pos hlt]
  simp only [hrank]

theorem ofDigitChars_toString (n : Nat) : Nat.ofDigitChars 10 (toString n).toList 0 = n := by
  rw [Nat.toString_eq_repr, Nat.toList_repr, Nat.ofDigitChars_ten_toDigits]

section
variable {config : Config} {level : Level} {inside : Bool} {w : List Token} {e : Expr}

theorem derives_constant {c : Constant} (h : c.isFinite = true) :
    Derives config .unary inside c.tokens (.constant c) := by
  cases c with
  | int value =>
    rw [Constant.tokens]
    by_cases hneg : value.toInt < 0
    · rw [decide_eq_true hneg]
      exact .negInteger (by rw [ofDigitChars_toString]; omega)
    · rw [decide_eq_false hneg]
      exact .tighter (.integer (by rw [ofDigitChars_toString]; omega))
  | float value =>
    cases value with
    | finite negative rank =>
      cases negative with
      | false => exact .tighter (.float (toBinary64_parts rank) rfl)
      | true => exact .negFloat (toBinary64_parts rank) rfl
    | _ => contradiction

/-! ## calls and operands -/

theorem derives_calls (f : List Converter → Expr) {converters : List Converter}
    (hconvert : ∀ c cs, (f cs).convert? c = some (f (c :: cs)))
    (hc : ∀ c ∈ converters, c.isCallable = true) (h : ∀ inside, Derives {} level inside w (f [])) :
    Derives {} (if converters.isEmpty then level else .primary) inside (Expr.callTokens converters w)
      (f converters) := by
  induction converters generalizing inside with
  | nil => exact h inside
  | cons c converters ih =>
    rw [List.forall_mem_cons, Converter.isCallable_iff] at hc
    have hbody : Derives {} .sum true (Expr.callTokens converters w) (f converters) :=
      (ih hc.2).loosen (Nat.zero_le _)
    have hcall : Derives {} .primary inside (.identifier c.name :: .openParen ::
        ([] ++ Expr.callTokens converters w ++ [] ++ [.closeParen])) (f (c :: converters)) :=
      .call hc.1.2 rfl (hconvert c converters) .nil hbody .nil
    simpa [Expr.callTokens] using hcall

theorem derives_operand (parens : Bool) {level' : Level} (h : ∀ inside, Derives config level inside w e)
    (hl : parens = false → level'.rank ≤ level.rank) :
    Derives config level' inside (Expr.operandTokens parens w) e := by
  cases parens with
  | false => exact (h inside).loosen (hl rfl)
  | true =>
    have hinner : Derives config .sum true w e := (h true).loosen (Nat.zero_le _)
    have hgroup : Derives config .primary inside (.openParen :: ([] ++ w ++ [] ++ [.closeParen])) e :=
      .group .nil hinner .nil
    rw [List.nil_append, List.append_nil] at hgroup
    exact hgroup.loosen (by cases level' <;> decide)

end

/-! ## expressions -/

theorem pFieldDigits?_pField (number : Nat) :
    pFieldDigits? ("p" ++ toString number) = some (Nat.toDigits 10 number) := by
  have hname : ("p" ++ toString number).toList = 'p' :: Nat.toDigits 10 number := by simp [Nat.toString_eq_repr]
  refine pFieldDigits?_eq_some.mpr ⟨hname, Nat.toDigits_ne_nil, fun c hc => ?_⟩
  exact Nat.isDigit_of_mem_toDigits (by decide) (by decide) hc

theorem derives_tokens {e : Expr} (hc : e.all Expr.isCallable = true) (hn : e.all Expr.isNumbered = true)
    (hf : e.all Expr.isFinite = true) (inside : Bool) : Derives {} e.level inside e.tokens e := by
  induction e generalizing inside with
  | constant value => exact derives_constant hf
  | pField number converters =>
    have hnumber : number ≠ 0 := by simpa [Expr.all, Expr.isNumbered] using hn
    have hfield (inside : Bool) :
        Derives {} .primary inside [.identifier ("p" ++ toString number.toNat)] (.pField number []) :=
      .pField (pFieldDigits?_pField _) Nat.ofDigitChars_ten_toDigits.symm hnumber
    have hcalls : Derives {} (if converters.isEmpty then .primary else .primary) inside _ _ :=
      derives_calls (.pField number) (fun _ _ => rfl) (List.all_eq_true.mp hc) hfield
    rwa [ite_self] at hcalls
  | binary op left right converters ihl ihr =>
    simp only [Expr.all, Bool.and_eq_true] at hc hn hf
    obtain ⟨⟨hc, hcl⟩, hcr⟩ := hc
    have hleft (inside : Bool) : Derives {} left.level inside left.tokens left := ihl hcl hn.1.2 hf.1.2 inside
    have hright (inside : Bool) : Derives {} right.level inside right.tokens right := ihr hcr hn.2 hf.2 inside
    have hbinary (inside : Bool) : Derives {} op.level inside
        (Expr.operandTokens (left.needsParens op.precedence false) left.tokens ++ [] ++ op.token ::
          ([] ++ Expr.operandTokens (right.needsParens op.precedence true) right.tokens))
        (.binary op left right []) :=
      .chain op (derives_operand _ hleft rank_le_of_needsParens) .nil .nil
        (derives_operand _ hright rank_le_of_needsParens)
    rw [List.append_nil, List.nil_append] at hbinary
    have hcalls : Derives {} (if converters.isEmpty then op.level else .primary) inside _ _ :=
      derives_calls (.binary op left right) (fun _ _ => rfl) (List.all_eq_true.mp hc) hbinary
    cases converters <;> exact hcalls

/-! ## lists -/

section
variable {α : Type} {between : List Token → Prop} {Item : List Token → α → Prop} {f : α → List Token}
  {s : List Token} {t : Token} {as : List α}

theorem sepBy_intercalate (hne : as ≠ []) (hs : between s) (h : ∀ a ∈ as, Item (f a) a) :
    SepBy between Item (s.intercalate (as.map f)) as := by
  induction as with
  | nil => contradiction
  | cons a as ih =>
    rw [List.forall_mem_cons] at h
    cases as with
    | nil => simpa using SepBy.one h.1
    | cons b bs =>
      have := SepBy.more h.1 hs (ih (List.cons_ne_nil _ _) h.2)
      simpa [List.intercalate_cons_cons] using this

theorem flatMap_snoc (hne : as ≠ []) :
    as.flatMap (fun a => f a ++ [t]) = [t].intercalate (as.map f) ++ [t] := by
  induction as with
  | nil => contradiction
  | cons a as ih =>
    cases as with
    | nil => simp
    | cons b bs =>
      rw [List.flatMap_cons, ih (List.cons_ne_nil _ _)]
      simp [List.intercalate_cons_cons]

theorem intercalate_snoc (hne : as ≠ []) :
    s.intercalate (as.map fun a => f a ++ [t]) = (t :: s).intercalate (as.map f) ++ [t] := by
  induction as with
  | nil => contradiction
  | cons a as ih =>
    cases as with
    | nil => simp
    | cons b bs =>
      have := ih (List.cons_ne_nil _ _)
      rw [List.map_cons] at this
      rw [List.map_cons, List.map_cons, List.intercalate_cons_cons, this]
      simp [List.intercalate_cons_cons]

end

/-! ## scores -/

theorem derives_feature {f : Feature} (h : f.isRegular = true) (hend : f.beginsWithEnd = false) :
    FeatureWord {} f.tokens f := by
  obtain ⟨hc, hn, hf⟩ := Feature.isRegular_iff.mp h
  obtain ⟨l⟩ := f
  have hnames := Feature.isNamed_line.mp hc
  have hn := Feature.all_expressions.mp hn
  have hf := Feature.all_expressions.mp hf
  have hargs : SepBy Comma (ArgumentWord {}) ([.comma].intercalate (l.arguments.map argumentTokens))
      l.arguments := by
    refine sepBy_intercalate (by simp [Line.arguments]) ⟨[], .nil, rfl⟩ fun arg harg => ?_
    have he : Derives {} .sum false (argumentExpr arg).tokens (argumentExpr arg) :=
      (derives_tokens (hnames arg harg).1 (hn arg harg) (hf arg harg) false).loosen (Nat.zero_le _)
    cases arg with
    | inl e => exact .coordinate he
    | inr entry => exact .option (.inl rfl) .nil he
  -- a statement that starts with the token `end` has a text that starts with a call of it
  refine .line hargs fun hhead => ?_
  obtain ⟨v, hv⟩ := l.arguments_tokens
  have hfirst : l.xstart.all Expr.isCallable = true ∧ l.xstart.all Expr.isNumbered = true ∧
      l.xstart.all Expr.isFinite = true := by
    have hmem : .inl l.xstart ∈ l.arguments := List.mem_cons_self ..
    exact ⟨(hnames _ hmem).1, hn _ hmem, hf _ hmem⟩
  obtain ⟨t, w, hw, -⟩ := (derives_tokens hfirst.1 hfirst.2.1 hfirst.2.2 false).exists_cons
  rw [hv, List.append_assoc, hw] at hhead
  have hprefix := prefix_of_tokens (e := l.xstart) (by rw [hw]; exact hhead)
  rw [Feature.beginsWithEnd, List.isPrefixOf_iff_prefix.mpr hprefix] at hend
  contradiction

/-- The body of a block behind its opening, with each statement on a line of its own. -/
theorem derives_instrument {i : Instrument} (hne : i.features ≠ [])
    (h : ∀ f ∈ i.features, f.isRegular = true) (hend : ∀ f ∈ i.features, f.beginsWithEnd = false) :
    Spaced (FeatureWord {}) (.newline :: i.tokens) i.features := by
  have hnewline : Separators [.newline] := List.forall_mem_singleton.mpr rfl
  have hlines : SepBy Break (FeatureWord {}) ([.newline].intercalate (i.features.map Feature.tokens))
      i.features :=
    sepBy_intercalate hne ⟨hnewline, List.cons_ne_nil _ _⟩ fun f hf => derives_feature (h f hf) (hend f hf)
  have := Spaced.some hnewline hlines hnewline
  rwa [List.append_assoc, ← flatMap_snoc hne] at this

theorem derives_block {b : Block} (h : b.isRegular = true)
    (hend : ∀ f ∈ b.instrument.features, f.beginsWithEnd = false) : BlockWord {} b.word b := by
  obtain ⟨hnumbers, hfeatures, hall⟩ := Block.isRegular_iff.mp h
  have hn : SepBy Comma NumberWord ([.comma].intercalate (b.numbers.map numberTokens)) b.numbers :=
    sepBy_intercalate hnumbers ⟨[], .nil, rfl⟩ fun number _ => .integer (ofDigitChars_toString _).symm
  exact .block .keyword hn (derives_instrument hfeatures hall hend) hfeatures

theorem derives_score {d : Definitions} (h : ∀ b ∈ d.blocks, b.isRegular = true)
    (hend : ∀ b ∈ d.blocks, ∀ f ∈ b.instrument.features, f.beginsWithEnd = false) (hd : d.numbers.Nodup) :
    ScoreWord {} (d.tokens ++ [.endOfInput]) d := by
  refine .score ?_ hd
  by_cases hne : d.blocks = []
  · rw [Definitions.tokens, hne]
    exact .none (List.forall_mem_nil _)
  · have hnewline : Separators [.newline] := List.forall_mem_singleton.mpr rfl
    have hnewlines : Separators [.newline, .newline] := List.forall_mem_cons.mpr ⟨rfl, hnewline⟩
    have hblocks : SepBy Break (BlockWord {}) ([.newline, .newline].intercalate (d.blocks.map Block.word))
        d.blocks :=
      sepBy_intercalate hne ⟨hnewlines, List.cons_ne_nil _ _⟩ fun b hb => derives_block (h b hb) (hend b hb)
    have hempty : Separators [] := List.forall_mem_nil _
    have := Spaced.some hempty hblocks hnewline
    rw [List.nil_append, ← intercalate_snoc hne] at this
    exact this

end GraphicScore
