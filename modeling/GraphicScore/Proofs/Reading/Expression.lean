import GraphicScore.Proofs.Number.Literal
import GraphicScore.Proofs.Reading.Chain

/-!
# Reading expressions by the grammar

Every level is read as its grammar says, and so are whole expressions: in front of a comma the reading
accepts exactly the words of the grammar, and gives the tree of their derivation.
-/

namespace GraphicScore

namespace Reading

/-! ## operands -/

theorem literal_eq_ok {r r' : Reader} {value? : Option Constant} {text : String} {e : Expr} :
    literal value? text r = .ok e r' ↔
      ∃ value, value? = some value ∧ e = .constant value ∧ advance r = .ok () r' := by
  cases value? with
  | none => simp [literal]
  | some value =>
    simp only [literal, bind_eq_ok, pure_eq_ok, Option.some.injEq, exists_eq_left']
    constructor
    · intro h
      obtain ⟨_, _, hm, rfl, rfl⟩ := h
      exact ⟨rfl, hm⟩
    · intro h
      obtain ⟨rfl, hm⟩ := h
      exact ⟨(), r', hm, rfl, rfl⟩

section
variable {config : Config} {n : Nat} {inner : Reading Expr} (hi : Reads config .sum n inner)
include hi

theorem parenthesized_sound {r r' : Reader} {e : Expr} (hr : r.size < n)
    (h : parenthesized inner r = .ok e r') :
    ∃ m w m', r.Passes (m ++ w ++ m' ++ [.closeParen]) r' ∧ Newlines m ∧
      Derives config .sum true w e ∧ Newlines m' := by
  simp only [parenthesized, enter_bind, bind_eq_ok, skipNewlines_eq_ok, leaving_eq_ok, expect_eq_ok,
    pure_eq_ok] at h
  obtain ⟨_, r₁, ⟨m, hm, newlines, -⟩, _, _, ⟨r₂, he, rfl⟩, _, r₃, ⟨m', hm', newlines', -⟩, _, r₄, ⟨hc, hr'⟩,
    rfl, rfl⟩ := h
  have hsize : r₁.size < n := Nat.lt_of_le_of_lt hm.size_le hr
  have hin : r₁.inside = true := by
    simp [Reader.inside, hm.depth_eq, Reader.atDepth]
  obtain ⟨w, g, hw, he, gap⟩ := hi.sound hsize he
  have hd : r₂.depth - 1 = r.depth := by
    rw [hw.depth_eq, hm.depth_eq]
    rfl
  rw [hd] at hm'
  refine ⟨m, w, g ++ m', ?_, newlines, hin ▸ he, fun t ht => (List.mem_append.mp ht).elim (gap.1 t) (newlines' t)⟩
  have h₁ : r.Passes m (r₁.atDepth r.depth) := hm.atDepth r.depth
  have h₂ : (r₁.atDepth r.depth).Passes (w ++ g) (r₂.atDepth r.depth) := hw.atDepth r.depth
  have h₃ : r₃.Passes [.closeParen] r₄ := Reader.passes_singleton.mpr ⟨hc, hr'⟩
  simp only [List.append_assoc, Reader.passes_append] at h₂ ⊢
  grind

theorem parenthesized_complete {r r' : Reader} {m w m' : List Token} {e : Expr} (hr : r.size < n)
    (h : r.Passes (m ++ w ++ m' ++ [.closeParen]) r') (newlines : Newlines m)
    (he : Derives config .sum true w e) (newlines' : Newlines m') :
    parenthesized inner r = .ok e r' := by
  simp only [List.append_assoc, Reader.passes_append, Reader.passes_singleton] at h
  obtain ⟨r₁, hm, r₂, hw, r₃, hm', hc, hr'⟩ := h
  have hd : ∀ {r' : Reader} {w : List Token}, r.Passes w r' → r'.atDepth r.depth = r' := by
    intro r' w hw
    rw [← hw.depth_eq]
    rfl
  have hr₃ : r.Passes (m ++ w ++ m') r₃ := by
    simp only [List.append_assoc, Reader.passes_append]
    exact ⟨r₁, hm, r₂, hw, hm'⟩
  -- the same way one parenthesis further in
  have hin : ((r₁.atDepth (r.depth + 1)).inside) = true := by simp [Reader.inside, Reader.atDepth]
  have hw' : (r₁.atDepth (r.depth + 1)).Passes (w ++ m') (r₃.atDepth (r.depth + 1)) :=
    (Reader.passes_append.mpr ⟨r₂, hw, hm'⟩).atDepth _
  have hs : (r₁.atDepth (r.depth + 1)).size < n := Nat.lt_of_le_of_lt hm.size_le hr
  have stop : EndsBefore .sum (r₁.atDepth (r.depth + 1)).inside r₃.current.value := by
    rw [hc]
    exact endsBefore_of_no_operator (by decide) (fun _ => by decide) rfl rfl
  obtain ⟨r₄, g, hok, hg, gap⟩ :=
    hi.complete hs (hin ▸ he) hw' ⟨newlines', fun out => absurd out (by simp [hin])⟩ stop
  obtain ⟨_, _, hw₄, -, -⟩ := hi.sound hs hok
  have hd₄ : r₄.depth - 1 = r.depth := by
    rw [hw₄.depth_eq]
    rfl
  have hstart : r₁.current.value ≠ .newline := by
    obtain ⟨t, v, rfl, hstart⟩ := he.exists_cons
    rw [(Reader.passes_cons.mp hw).1]
    rintro rfl
    cases hstart
  simp only [parenthesized, enter_bind, bind_eq_ok, skipNewlines_eq_ok, leaving_eq_ok, expect_eq_ok, pure_eq_ok]
  refine ⟨(), _, ⟨m, hm.atDepth _, newlines, hstart⟩, e, _, ⟨r₄, hok, rfl⟩, (), r₃, ⟨g, ?_, gap.1, ?_⟩,
    (), r', ⟨hc, hr'⟩, rfl, rfl⟩
  · rw [hd₄]
    exact hd hr₃ ▸ hg.atDepth r.depth
  · rw [hc]
    decide

end

section
variable {config : Config} {inner : Reading Expr} {name : String} {r r' : Reader} {e : Expr}

theorem pField_eq_ok {digits : List Char} :
    pField name digits r = .ok e r' ↔
      ∃ number, Literal.uint32? digits = some number ∧ number ≠ 0 ∧ e = .pField number [] ∧
        advance r = .ok () r' := by
  cases hd : Literal.uint32? digits with
  | none => simp [pField, hd]
  | some number =>
    simp only [pField, hd, bind_eq_ok, require_eq_ok, bne_iff_ne, pure_eq_ok, Option.some.injEq, exists_eq_left']
    constructor
    · intro h
      obtain ⟨_, _, ⟨hz, rfl⟩, _, _, hm, rfl, rfl⟩ := h
      exact ⟨hz, rfl, hm⟩
    · intro h
      obtain ⟨hz, rfl, hm⟩ := h
      exact ⟨(), r, ⟨hz, rfl⟩, (), r', hm, rfl, rfl⟩

theorem call_eq_ok :
    call config inner name r = .ok e r' ↔
      config.admits name = true ∧ ∃ r₁ r₂ e₀, advance r = .ok () r₁ ∧ r₁.current.value = .openParen ∧
        advance r₁ = .ok () r₂ ∧ parenthesized inner r₂ = .ok e₀ r' ∧ e₀.convert? ⟨name⟩ = some e := by
  simp only [call, current_bind, bind_eq_ok, require_eq_ok, expect_eq_ok]
  constructor
  · intro h
    obtain ⟨_, _, ⟨ha, rfl⟩, _, r₁, hm, _, r₂, ⟨ho, hm'⟩, e₀, r₃, hp, h⟩ := h
    cases hc : e₀.convert? ⟨name⟩ with
    | none => simp [hc] at h
    | some e' =>
      rw [hc] at h
      obtain ⟨rfl, rfl⟩ := pure_eq_ok.mp h
      exact ⟨ha, r₁, r₂, e₀, hm, ho, hm', hp, hc⟩
  · intro h
    obtain ⟨ha, r₁, r₂, e₀, hm, ho, hm', hp, hc⟩ := h
    exact ⟨(), r, ⟨ha, rfl⟩, (), r₁, hm, (), r₂, ⟨ho, hm'⟩, e₀, r', hp, by rw [hc]; rfl⟩

/-- A name that is followed by a parenthesis is called, and no other name but a p-field's stands alone. -/
theorem named_eq_ok :
    named config inner name r = .ok e r' ↔ ∃ r₁, advance r = .ok () r₁ ∧
      ((∃ digits number, pFieldDigits? name = some digits ∧ r₁.current.value ≠ .openParen ∧
          Literal.uint32? digits = some number ∧ number ≠ 0 ∧ e = .pField number [] ∧ r₁ = r') ∨
        (pFieldDigits? name = none ∧ r₁.current.value = .openParen ∧ config.admits name = true ∧
          ∃ r₂ e₀, advance r₁ = .ok () r₂ ∧ parenthesized inner r₂ = .ok e₀ r' ∧
            e₀.convert? ⟨name⟩ = some e)) := by
  rw [named, bind_eq_ok]
  constructor
  · intro h
    obtain ⟨t, r₀, hpeek, h⟩ := h
    obtain ⟨r₁, hm, hm₀, rfl, -, -⟩ := advance_of_peek hpeek
    refine ⟨r₁, hm, ?_⟩
    cases hd : pFieldDigits? name with
    | some digits =>
      by_cases ho : r₁.current.value = .openParen
      · simp [hd, ho] at h
      · simp only [hd, beq_eq_false_iff_ne.mpr ho, Bool.false_eq_true, if_false, pField_eq_ok] at h
        obtain ⟨number, hv, hz, he, hm'⟩ := h
        cases hm₀.symm.trans hm'
        exact .inl ⟨digits, number, rfl, ho, hv, hz, he, rfl⟩
    | none =>
      by_cases ho : r₁.current.value = .openParen
      · simp only [hd, ho, beq_self_eq_true, if_true, call_eq_ok] at h
        obtain ⟨ha, _, r₂, e₀, hm', -, hm₂, hp, hc⟩ := h
        cases hm₀.symm.trans hm'
        exact .inr ⟨rfl, ho, ha, r₂, e₀, hm₂, hp, hc⟩
      · simp [hd, ho] at h
  · intro h
    obtain ⟨r₁, hm, h⟩ := h
    obtain ⟨r₀, hpeek, hm₀, -, -⟩ := peek_of_advance hm
    refine ⟨_, r₀, hpeek, ?_⟩
    rcases h with ⟨digits, number, hd, ho, hv, hz, rfl, rfl⟩ | ⟨hd, ho, ha, r₂, e₀, hm₂, hp, hc⟩
    · simp only [hd, beq_eq_false_iff_ne.mpr ho, Bool.false_eq_true, if_false, pField_eq_ok]
      exact ⟨number, hv, hz, rfl, hm₀⟩
    · simp only [hd, ho, beq_self_eq_true, if_true, call_eq_ok]
      exact ⟨ha, r₁, r₂, e₀, hm₀, ho, hm₂, hp, hc⟩

end

/-! ## the levels -/

section
variable {config : Config} {n : Nat} {inner : Reading Expr} (hi : Reads config .sum n inner)
include hi

theorem primary_sound {r r' : Reader} {e : Expr} (hr : r.size < n + 1) (h : primary config inner r = .ok e r') :
    ∃ w, r.Passes w r' ∧ Derives config .primary r.inside w e := by
  rw [primary, token_bind] at h
  cases ht : r.current.value with
  | integer digits =>
    simp only [ht, literal_eq_ok, Option.map_eq_some_iff] at h
    obtain ⟨_, ⟨value, hv, rfl⟩, rfl, hm⟩ := h
    exact ⟨_, Reader.passes_singleton.mpr ⟨ht, hm⟩, .integer (Literal.int64?_eq_some.mp hv)⟩
  | float text =>
    simp only [ht, literal_eq_ok, Option.map_eq_some_iff] at h
    obtain ⟨_, ⟨value, hv, rfl⟩, rfl, hm⟩ := h
    obtain ⟨hv, hf⟩ := Literal.binary64?_eq_some.mp hv
    exact ⟨_, Reader.passes_singleton.mpr ⟨ht, hm⟩, .float hv hf⟩
  | openParen =>
    simp only [ht, bind_eq_ok] at h
    obtain ⟨_, r₁, hm, hp⟩ := h
    have hs := Reader.size_lt_of_advance hm (by rw [ht]; decide)
    obtain ⟨m, w, m', hw, newlines, he, newlines'⟩ := parenthesized_sound hi (by omega) hp
    exact ⟨_, ht ▸ .cons hm hw, .group newlines he newlines'⟩
  | identifier name =>
    simp only [ht, named_eq_ok] at h
    obtain ⟨r₁, hm, ⟨digits, number, hd, -, hv, hz, rfl, rfl⟩ | ⟨hd, ho, ha, r₂, e₀, hm₂, hp, hc⟩⟩ := h
    · exact ⟨_, Reader.passes_singleton.mpr ⟨ht, hm⟩, .pField hd (Literal.uint32?_eq_some.mp hv) hz⟩
    · have hs := Reader.size_le_of_advance hm
      have hs₂ := Reader.size_lt_of_advance hm₂ (by rw [ho]; decide)
      obtain ⟨m, w, m', hw, newlines, he, newlines'⟩ := parenthesized_sound hi (by omega) hp
      exact ⟨_, ht ▸ .cons hm (ho ▸ .cons hm₂ hw), .call hd ha hc newlines he newlines'⟩
  | _ => simp [ht] at h

theorem primary_complete {r r₁ : Reader} {level : Level} {w : List Token} {e : Expr} (hr : r.size < n + 1)
    (h : Derives config level r.inside w e) (hl : level = .primary) (hw : r.Passes w r₁)
    (stop : r₁.current.value ≠ .openParen) : primary config inner r = .ok e r₁ := by
  generalize hin : r.inside = inside at h
  induction h with
  | @integer _ digits value hv =>
    obtain ⟨ht, hm⟩ := Reader.passes_singleton.mp hw
    rw [primary, token_bind, ht]
    exact literal_eq_ok.mpr ⟨_, by rw [Literal.int64?_eq_some.mpr hv]; rfl, rfl, hm⟩
  | @float _ text value hv hf =>
    obtain ⟨ht, hm⟩ := Reader.passes_singleton.mp hw
    rw [primary, token_bind, ht]
    exact literal_eq_ok.mpr ⟨_, by rw [Literal.binary64?_eq_some.mpr ⟨hv, hf⟩]; rfl, rfl, hm⟩
  | pField hd hv hz =>
    obtain ⟨ht, hm⟩ := Reader.passes_singleton.mp hw
    rw [primary, token_bind, ht]
    exact named_eq_ok.mpr ⟨r₁, hm, .inl ⟨_, _, hd, stop, Literal.uint32?_eq_some.mpr hv, hz, rfl, rfl⟩⟩
  | group newlines he newlines' _ =>
    obtain ⟨ht, r₂, hm, hw⟩ := Reader.passes_cons.mp hw
    have hs := Reader.size_lt_of_advance hm (by rw [ht]; decide)
    rw [primary, token_bind, ht]
    exact (bind_of_ok hm).trans (parenthesized_complete hi (by omega) hw newlines he newlines')
  | call hd ha hc newlines he newlines' _ =>
    obtain ⟨ht, r₂, hm, hw⟩ := Reader.passes_cons.mp hw
    obtain ⟨ho, r₃, hm₂, hw⟩ := Reader.passes_cons.mp hw
    have hs := Reader.size_le_of_advance hm
    have hs₂ := Reader.size_lt_of_advance hm₂ (by rw [ho]; decide)
    rw [primary, token_bind, ht]
    exact named_eq_ok.mpr ⟨r₂, hm, .inr ⟨hd, ho, ha, r₃, _, hm₂,
      parenthesized_complete hi (by omega) hw newlines he newlines', hc⟩⟩
  | negInteger _ => cases hl
  | negFloat _ _ => cases hl
  | tighter _ ih =>
    subst hl
    exact ih rfl hw hin
  | chain op => cases op <;> cases hl

theorem primary_reads : Reads config .primary (n + 1) (primary config inner) where
  sound {r r' e} hr h := by
    obtain ⟨w, hw, he⟩ := primary_sound hi hr h
    exact ⟨w, [], by rwa [List.append_nil], he, .nil⟩
  complete {r r' w g e} hr he hw gap stop := by
    obtain ⟨r₁, hw, hg⟩ := Reader.passes_append.mp hw
    have hnot : r₁.current.value ≠ .openParen := by
      cases g with
      | nil => exact Reader.passes_nil.mp hg ▸ stop.1
      | cons t g =>
        rw [(Reader.passes_cons.mp hg).1, gap.1 t (List.mem_cons_self ..)]
        decide
    exact ⟨r₁, g, primary_complete hi hr he rfl hw hnot, hg, gap⟩

theorem unary_sound {r r' : Reader} {e : Expr} (hr : r.size < n + 1) (h : unary config inner r = .ok e r') :
    ∃ w, r.Passes w r' ∧ Derives config .unary r.inside w e := by
  rw [unary, token_bind] at h
  by_cases hminus : r.current.value = .minus
  · rw [if_pos hminus, bind_eq_ok] at h
    obtain ⟨_, r₁, hm, h⟩ := h
    rw [negated, token_bind] at h
    cases ht : r₁.current.value with
    | integer digits =>
      simp only [ht, literal_eq_ok, Option.map_eq_some_iff] at h
      obtain ⟨_, ⟨value, hv, rfl⟩, rfl, hm₁⟩ := h
      exact ⟨_, hminus ▸ .cons hm (Reader.passes_singleton.mpr ⟨ht, hm₁⟩),
        .negInteger (Literal.negInt64?_eq_some.mp hv)⟩
    | float text =>
      simp only [ht, literal_eq_ok, Option.map_eq_some_iff] at h
      obtain ⟨_, ⟨value, hv, rfl⟩, rfl, hm₁⟩ := h
      obtain ⟨hv, hf⟩ := Literal.binary64?_eq_some.mp hv
      exact ⟨_, hminus ▸ .cons hm (Reader.passes_singleton.mpr ⟨ht, hm₁⟩), .negFloat hv hf⟩
    | _ => simp [ht] at h
  · rw [if_neg hminus] at h
    obtain ⟨w, hw, he⟩ := primary_sound hi hr h
    exact ⟨w, hw, .tighter he⟩

theorem unary_complete {r r' : Reader} {w g : List Token} {e : Expr} (hr : r.size < n + 1)
    (h : Derives config .unary r.inside w e) (hw : r.Passes (w ++ g) r') (gap : Gap r.inside g)
    (stop : EndsBefore .unary r.inside r'.current.value) :
    ∃ r₁ g₁, unary config inner r = .ok e r₁ ∧ r₁.Passes g₁ r' ∧ Gap r.inside g₁ := by
  rw [unary, token_bind]
  generalize hl : Level.unary = level at h
  cases h with
  | @negInteger _ digits value hv =>
    obtain ⟨hminus, r₁, hm, hw⟩ := Reader.passes_cons.mp hw
    obtain ⟨ht, r₂, hm₁, hg⟩ := Reader.passes_cons.mp hw
    refine ⟨r₂, g, ?_, hg, gap⟩
    rw [if_pos hminus, bind_of_ok hm, negated, token_bind, ht]
    exact literal_eq_ok.mpr ⟨_, by rw [Literal.negInt64?_eq_some.mpr hv]; rfl, rfl, hm₁⟩
  | @negFloat _ text value hv hf =>
    obtain ⟨hminus, r₁, hm, hw⟩ := Reader.passes_cons.mp hw
    obtain ⟨ht, r₂, hm₁, hg⟩ := Reader.passes_cons.mp hw
    refine ⟨r₂, g, ?_, hg, gap⟩
    rw [if_pos hminus, bind_of_ok hm, negated, token_bind, ht]
    exact literal_eq_ok.mpr ⟨_, by rw [Literal.binary64?_eq_some.mpr ⟨hv, hf⟩]; rfl, rfl, hm₁⟩
  | tighter he =>
    subst hl
    have hminus : r.current.value ≠ .minus := by
      obtain ⟨t, v, rfl, -⟩ := he.exists_cons
      rw [(Reader.passes_cons.mp hw).1]
      rintro rfl
      exact he.head_ne_minus rfl rfl
    rw [if_neg hminus]
    exact (primary_reads hi).complete hr he hw gap stop.tighter
  | chain op => cases op <;> cases hl
  | _ => cases hl

theorem unary_reads : Reads config .unary (n + 1) (unary config inner) where
  sound {r r' e} hr h := by
    obtain ⟨w, hw, he⟩ := unary_sound hi hr h
    exact ⟨w, [], by rwa [List.append_nil], he, .nil⟩
  complete := unary_complete hi

theorem sum_reads : Reads config .sum (n + 1) (sum config inner) :=
  chain_reads (o := .plus) Operator.additive?_eq_some
    (chain_reads (o := .times) Operator.multiplicative?_eq_some (unary_reads hi))

end

section
variable (config : Config)

theorem expressionWithin_reads (fuel : List Answer) :
    Reads config .sum (fuel.length + 1) (expressionWithin config fuel) := by
  induction fuel with
  | nil => exact sum_reads ⟨fun hr => absurd hr (Nat.not_lt_zero _), fun hr => absurd hr (Nat.not_lt_zero _)⟩
  | cons answer fuel ih => exact sum_reads ih

theorem expression_reads (n : Nat) : Reads config .sum n (expression config) where
  sound {r _ _} _ h :=
    (expressionWithin_reads config r.remaining).sound (Nat.lt_succ_of_le r.size_le_length) h
  complete {r _ _ _ _} _ he hw gap stop :=
    (expressionWithin_reads config r.remaining).complete (Nat.lt_succ_of_le r.size_le_length) he hw gap stop

end

/-! ## expressions -/

section
variable {config : Config} {r r' : Reader} {w : List Token} {e : Expr}

theorem expression_sound (hd : r.depth = 0) (h : expression config r = .ok e r') :
    ∃ w, r.Passes w r' ∧ Derives config .sum false w e := by
  have hin : r.inside = false := by simp [Reader.inside, hd]
  obtain ⟨w, g, hw, he, gap⟩ := (expression_reads config (r.size + 1)).sound (Nat.lt_succ_self _) h
  rw [gap.2 hin, List.append_nil] at hw
  exact ⟨w, hw, hin ▸ he⟩

theorem expression_complete (hd : r.depth = 0) (he : Derives config .sum false w e) (hw : r.Passes w r')
    (stop : EndsBefore .sum false r'.current.value) : expression config r = .ok e r' := by
  have hin : r.inside = false := by simp [Reader.inside, hd]
  obtain ⟨r₁, g, hok, hg, gap⟩ := (expression_reads config (r.size + 1)).complete (g := []) (Nat.lt_succ_self _)
    (hin ▸ he) (by rwa [List.append_nil]) .nil (hin ▸ stop)
  rw [gap.2 hin, Reader.passes_nil] at hg
  rwa [hg] at hok

/-- At depth zero, what is read in front of a comma is exactly the words of the grammar. -/
theorem expression_eq_ok_iff (hd : r.depth = 0) (hw : r.Passes w r') (hc : r'.current.value = .comma) :
    expression config r = .ok e r' ↔ Derives config .sum false w e := by
  constructor
  · intro h
    obtain ⟨w', hw', he⟩ := expression_sound hd h
    rwa [hw.word_unique hw' (by rw [hc]; decide)]
  · intro he
    refine expression_complete hd he hw ?_
    rw [hc]
    exact endsBefore_of_no_operator (by decide) (fun _ => by decide) rfl rfl

end

theorem expression_eq_ok_product :
    ∃ r r' : Reader, r.depth = 0 ∧ r.Passes [.identifier "p4", .star, .minus, .integer "1"] r' ∧
      r'.current.value = .comma ∧
      expression {} r = .ok (.binary .times (.pField 4 []) (.constant (.int (-1))) []) r' := by
  let located (t : Token) : Located Token := ⟨.start, t⟩
  let feed : Feed := ⟨[.ok (located .star), .ok (located .minus), .ok (located (.integer "1")),
    .ok (located .comma)], .ok (located .endOfInput), by decide, rfl⟩
  have hw : Reader.Passes ⟨located (.identifier "p4"), none, feed, 0, ()⟩
      [.identifier "p4", .star, .minus, .integer "1"]
      ⟨located .comma, none, ⟨[], .ok (located .endOfInput), by decide, rfl⟩, 0, ()⟩ :=
    .cons rfl (.cons rfl (.cons rfl (.cons rfl (.nil _))))
  refine ⟨_, _, rfl, hw, rfl, (expression_eq_ok_iff rfl hw rfl).mpr ?_⟩
  refine .tighter (.chain (w := [_]) (g := []) (n := []) .times (.tighter (.tighter ?_)) .nil .nil ?_)
  · have hd : pFieldDigits? "p4" = some ['4'] := by decide
    exact .pField hd (by decide) (by decide)
  · exact .negInteger (by decide)

end Reading

end GraphicScore
