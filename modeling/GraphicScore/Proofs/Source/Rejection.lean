import GraphicScore.Proofs.Grammar.Adjacency
import GraphicScore.Proofs.Source.Derivation

/-!
# Canonical texts that are not read

A canonical text is no score where a statement goes on with the name that ends a block, where a p-field
is one that there is not, or where a block is empty.
-/

namespace GraphicScore

section
variable {p q : Token → Bool} {t t' x : Token} {s w : List Token} {ws : List (List Token)}

theorem Followed.eq_true_behind (h : Followed p q w) (hi : [t, t'] <:+: w) (ht : p t = true) : q t' = true := by
  obtain ⟨u, v, rfl⟩ := hi
  refine Bool.of_not_eq_false fun hq => ?_
  rw [List.append_assoc] at h
  exact not_followed ht hq h

/-- Behind a token in the list stands one of the list, or the one behind the list. -/
theorem exists_infix_snoc (ht : t ∈ w) : ∃ t', [t, t'] <:+: w ++ [x] ∧ (t' ∈ w ∨ t' = x) := by
  obtain ⟨u, v, rfl⟩ := List.append_of_mem ht
  cases v with
  | nil => exact ⟨x, ⟨u, [], by simp⟩, .inr rfl⟩
  | cons t' v => exact ⟨t', ⟨u, v ++ [x], by simp⟩, .inl (by simp)⟩

theorem infix_intercalate (hw : w ∈ ws) : w <:+: s.intercalate ws := by
  induction ws with
  | nil => contradiction
  | cons w' ws ih =>
    cases ws with
    | nil => simp [List.mem_singleton.mp hw]
    | cons w'' ws =>
      rw [List.intercalate_cons_cons, List.append_assoc]
      rcases List.mem_cons.mp hw with rfl | hw
      · exact (List.prefix_append _ _).isInfix
      · exact (ih hw).trans ((List.suffix_append _ _).trans (List.suffix_append _ _)).isInfix

/-- Behind an item of a list stands what separates them, or what is behind the list. -/
theorem infix_intercalate_snoc (t t' : Token) (hw : w ∈ ws) :
    w ++ [t] <:+: [t].intercalate ws ++ [t'] ∨ w ++ [t'] <:+: [t].intercalate ws ++ [t'] := by
  induction ws with
  | nil => contradiction
  | cons w' ws ih =>
    cases ws with
    | nil =>
      rw [List.mem_singleton.mp hw, List.intercalate_singleton]
      exact .inr (List.infix_refl _)
    | cons w'' ws =>
      rw [List.intercalate_cons_cons, List.append_assoc]
      rcases List.mem_cons.mp hw with rfl | hw
      · exact .inl (List.prefix_append _ _).isInfix
      · have hsuffix := (List.suffix_append w' ([t] ++ ([t].intercalate (w'' :: ws) ++ [t']))).isInfix
        have hlater := (List.suffix_append [t] ([t].intercalate (w'' :: ws) ++ [t'])).isInfix.trans hsuffix
        rw [List.append_assoc]
        exact (ih hw).imp (·.trans hlater) (·.trans hlater)

end

/-! ## tokens in their context -/

section
variable {d : Definitions} {b : Block} {f : Feature}

theorem infix_tokens (hb : b ∈ d.blocks) (hf : f ∈ b.instrument.features) :
    f.tokens ++ [.newline] <:+: d.tokens := by
  have hfeature : f.tokens ++ [.newline] <:+: b.instrument.tokens := by
    obtain ⟨fs, fs', hfs⟩ := List.append_of_mem hf
    refine ⟨fs.flatMap fun f => f.tokens ++ [.newline], fs'.flatMap fun f => f.tokens ++ [.newline], ?_⟩
    simp [Instrument.tokens, hfs]
  have hinstrument : b.instrument.tokens <:+: b.tokens := by
    let opening := [.comma].intercalate (b.numbers.map numberTokens) ++ [.identifier "do", .newline]
    refine ⟨.identifier "instr" :: opening, [.identifier "end", .newline], ?_⟩
    simp [opening, Block.tokens, Block.word]
  exact (hfeature.trans hinstrument).trans (infix_intercalate (List.mem_map_of_mem hb))

/-! ## statements that are misread -/

theorem infix_of_beginsWithEnd (hc : f.isNamed = true) (hf : f.isFinite = true)
    (hend : f.beginsWithEnd = true) : [.identifier "line", .identifier "end"] <:+: f.tokens := by
  obtain ⟨l⟩ := f
  have hfirst : l.xstart.all Expr.isCallable = true ∧ l.xstart.all Expr.isFinite = true := by
    have hmem : .inl l.xstart ∈ l.arguments := List.mem_cons_self ..
    exact ⟨(Feature.isNamed_line.mp hc _ hmem).1, Feature.all_expressions.mp hf _ hmem⟩
  have hhead := head?_of_text hfirst.1 hfirst.2 (List.isPrefixOf_iff_prefix.mp hend)
  obtain ⟨ts, hts⟩ := List.head?_eq_some_iff.mp hhead
  obtain ⟨v, hv⟩ := l.arguments_tokens
  refine List.IsPrefix.isInfix ⟨ts ++ [.comma] ++ v, ?_⟩
  rw [Feature.tokens, hv, hts]
  simp

end

/-! ## p-fields that there are not -/

section
variable {e : Expr} {converters : List Converter} {t : Token} {ts : List Token}

theorem mem_callTokens (ht : t ∈ ts) : t ∈ Expr.callTokens converters ts := by
  induction converters with
  | nil => exact ht
  | cons c converters ih =>
    have : t ∈ Expr.callTokens converters ts ++ [.closeParen] := List.mem_append_left _ ih
    exact List.mem_cons_of_mem _ (List.mem_cons_of_mem _ this)

theorem mem_operandTokens {parens : Bool} (ht : t ∈ ts) : t ∈ Expr.operandTokens parens ts := by
  cases parens with
  | false => exact ht
  | true => exact List.mem_cons_of_mem _ (List.mem_append_left _ ht)

theorem exists_zeroField (h : e.all Expr.isNumbered = false) : ∃ t ∈ e.tokens, t.isZeroField = true := by
  induction e with
  | constant value => contradiction
  | pField number converters =>
    have hnumber : number = 0 := by simpa [Expr.all, Expr.isNumbered] using h
    refine ⟨_, mem_callTokens (List.mem_singleton.mpr rfl), ?_⟩
    rw [Token.isZeroField, pFieldDigits?_pField, hnumber]
    decide
  | binary op left right converters ihl ihr =>
    simp only [Expr.all, Expr.isNumbered, Bool.true_and, Bool.and_eq_false_iff] at h
    rcases h with h | h
    · obtain ⟨t, ht, hzero⟩ := ihl h
      exact ⟨t, mem_callTokens (List.mem_append_left _ (mem_operandTokens ht)), hzero⟩
    · obtain ⟨t, ht, hzero⟩ := ihr h
      exact ⟨t, mem_callTokens (List.mem_append_right _ (List.mem_cons_of_mem _ (mem_operandTokens ht))), hzero⟩

theorem inExpression_callTokens (h : ∀ t ∈ ts, t.inExpression = true) :
    ∀ t ∈ Expr.callTokens converters ts, t.inExpression = true := by
  induction converters with
  | nil => exact h
  | cons c converters ih =>
    rw [Expr.callTokens, List.foldr_cons]
    simp only [List.forall_mem_cons, List.forall_mem_append]
    exact ⟨rfl, rfl, ih, rfl, List.forall_mem_nil _⟩

theorem inExpression_operandTokens {parens : Bool} (h : ∀ t ∈ ts, t.inExpression = true) :
    ∀ t ∈ Expr.operandTokens parens ts, t.inExpression = true := by
  cases parens with
  | false => exact h
  | true =>
    simp only [Expr.operandTokens, if_true, List.forall_mem_cons, List.forall_mem_append]
    exact ⟨rfl, h, rfl, List.forall_mem_nil _⟩

theorem inExpression_constant (c : Constant) : ∀ t ∈ c.tokens, t.inExpression = true := by
  have hsigned {negative : Bool} {t : Token} (h : t.inExpression = true) :
      ∀ t' ∈ signed negative t, t'.inExpression = true := by
    cases negative with
    | false => exact List.forall_mem_singleton.mpr h
    | true => exact List.forall_mem_cons.mpr ⟨rfl, List.forall_mem_singleton.mpr h⟩
  cases c with
  | int value => exact hsigned rfl
  | float value =>
    cases value with
    | finite negative rank => exact hsigned rfl
    | _ => exact List.forall_mem_nil _

theorem inExpression_tokens (e : Expr) : ∀ t ∈ e.tokens, t.inExpression = true := by
  induction e with
  | constant value => exact inExpression_constant value
  | pField number converters =>
    exact inExpression_callTokens (List.forall_mem_singleton.mpr rfl)
  | binary op left right converters ihl ihr =>
    refine inExpression_callTokens ?_
    simp only [List.forall_mem_cons, List.forall_mem_append]
    exact ⟨inExpression_operandTokens ihl, by cases op <;> rfl, inExpression_operandTokens ihr⟩

end

theorem infix_argument {l : Line} {arg : Expr ⊕ String × Expr} (harg : arg ∈ l.arguments) :
    ∃ x, x ≠ .arrow ∧ (argumentExpr arg).tokens ++ [x] <:+: (Feature.line l).tokens ++ [.newline] := by
  have hline : [.comma].intercalate (l.arguments.map argumentTokens) ++ [.newline] <:+:
      (Feature.line l).tokens ++ [.newline] := (List.suffix_cons _ _).isInfix
  have hexpr (x : Token) : (argumentExpr arg).tokens ++ [x] <:+: argumentTokens arg ++ [x] := by
    cases arg with
    | inl e => exact List.infix_refl _
    | inr entry => exact ⟨[.symbol entry.1, .arrow], [], by simp [argumentTokens, argumentExpr]⟩
  rcases infix_intercalate_snoc .comma .newline (List.mem_map_of_mem harg) with hi | hi
  · exact ⟨.comma, by decide, (hexpr .comma).trans (hi.trans hline)⟩
  · exact ⟨.newline, by decide, (hexpr .newline).trans (hi.trans hline)⟩

theorem infix_of_not_numbered {f : Feature} (h : f.isNumbered = false) :
    ∃ t t', [t, t'] <:+: f.tokens ++ [.newline] ∧ t.isZeroField = true ∧ t' ≠ .arrow := by
  obtain ⟨l⟩ := f
  simp only [Feature.isNumbered, Feature.expressions, Line.expressions_eq, List.all_map, List.all_eq_false,
    Function.comp_apply, Bool.not_eq_true] at h
  obtain ⟨arg, harg, h⟩ := h
  obtain ⟨x, hx, hi⟩ := infix_argument harg
  obtain ⟨t, ht, hzero⟩ := exists_zeroField h
  obtain ⟨t', ht', hmem⟩ := exists_infix_snoc (x := x) ht
  -- no token of an expression is an arrow, nor is the one behind it
  refine ⟨t, t', ht'.trans hi, hzero, fun harrow => ?_⟩
  rcases hmem with hmem | hmem
  · have := inExpression_tokens _ _ hmem
    rw [harrow] at this
    contradiction
  · exact hx (hmem ▸ harrow)

/-! ## scores -/

section
variable {config : Config} {d d' : Definitions} {b : Block} {f : Feature} {w : List Token}

theorem not_scoreWord_of_beginsWithEnd (hb : b ∈ d.blocks) (hf : f ∈ b.instrument.features)
    (hc : f.isNamed = true) (hfinite : f.isFinite = true) (hend : f.beginsWithEnd = true) :
    ¬ ScoreWord config (d.tokens ++ w) d' := by
  intro h
  have hfeature : f.tokens <:+: d.tokens := (List.prefix_append _ _).isInfix.trans (infix_tokens hb hf)
  have hi := (infix_of_beginsWithEnd hc hfinite hend).trans (hfeature.trans (List.prefix_append _ w).isInfix)
  have := (h.followed linked_line).eq_true_behind hi (by decide)
  contradiction

theorem not_scoreWord_of_zeroField (hb : b ∈ d.blocks) (hf : f ∈ b.instrument.features)
    (hn : f.isNumbered = false) : ¬ ScoreWord config (d.tokens ++ w) d' := by
  intro h
  obtain ⟨t, t', hi, hzero, harrow⟩ := infix_of_not_numbered hn
  have hi := hi.trans ((infix_tokens hb hf).trans (List.prefix_append _ w).isInfix)
  have := (h.followed linked_zeroField).eq_true_behind hi hzero
  exact harrow (beq_iff_eq.mp this)

/-- Every block of a score has a comma, which an empty one with one number has not. -/
theorem not_scoreWord_of_empty {number : UInt32} :
    ¬ ScoreWord config (Definitions.tokens ⟨[⟨[number], ⟨[]⟩⟩]⟩ ++ [.endOfInput]) d := by
  intro h
  have hcomma : .comma ∉ Definitions.tokens ⟨[⟨[number], ⟨[]⟩⟩]⟩ := by
    simp [Definitions.tokens, Block.tokens, Block.word, Instrument.tokens, numberTokens]
  have hinstr : .identifier "instr" ∈ Definitions.tokens ⟨[⟨[number], ⟨[]⟩⟩]⟩ := List.mem_cons_self ..
  have := h.separators_of_no_comma hcomma _ hinstr
  contradiction

end

end GraphicScore
