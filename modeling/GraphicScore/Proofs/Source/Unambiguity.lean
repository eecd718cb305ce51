import GraphicScore.Proofs.Source.Normal
import GraphicScore.Proofs.Source.Paragraphs
import GraphicScore.Proofs.Source.WellFormed

/-!
# Unambiguous texts

No two regular expressions, statements or instruments have the same text. Instruments that are equal are therefore
those whose normal forms have the same text.
-/

namespace GraphicScore

/-! ## expressions -/

section
variable {e e' : Expr} {arg arg' : Expr ⊕ String × Expr} {f g : Feature} {i j : Instrument}

/-- A reader that goes over the tokens of two expressions reads them both. -/
theorem tokens_inj (he : e.all Expr.isRegular = true) (he' : e'.all Expr.isRegular = true)
    (h : e.tokens = e'.tokens) : e = e' := by
  obtain ⟨r, r', -, hd, hw, hend, hok⟩ := exists_reader_of_isRegular he
  have hok' := expression_of_derives hd hw hend (h ▸ derives_of_isRegular he')
  rw [hok, EStateM.Result.ok.injEq] at hok'
  exact hok'.1

theorem text_inj (he : e.all Expr.isRegular = true) (he' : e'.all Expr.isRegular = true)
    (h : e.text = e'.text) : e = e' := by
  have hwords := words_of_expr he
  rw [h, words_of_expr he', Option.some.injEq] at hwords
  exact tokens_inj he he' hwords.symm

theorem int_text_ne_float_text (value : Int64) (x : Binary64) :
    (Constant.int value).text ≠ (Constant.float x).text := by
  intro h
  have hint : '.' ∉ (Constant.int value).text.toList := notMem_int value (by decide) (by decide)
  rw [h, Constant.text, String.toList_ofList] at hint
  by_cases hpoint : x.text.contains '.' = true
  · rw [if_pos hpoint] at hint
    exact hint (List.contains_iff_mem.mp hpoint)
  · rw [if_neg hpoint] at hint
    exact hint (by simp)

/-! ## statements -/

theorem argumentTokens_inj (he : (argumentExpr arg).all Expr.isRegular = true)
    (he' : (argumentExpr arg').all Expr.isRegular = true) (h : argumentTokens arg = argumentTokens arg') :
    arg = arg' := by
  have hsymbol (e : Expr) (name : String) (w : List Token) : e.tokens ≠ .symbol name :: w := by
    intro h
    have := inExpression_tokens e (.symbol name) (by simp [h])
    contradiction
  cases arg with
  | inl e =>
    cases arg' with
    | inl e' => exact congrArg Sum.inl (tokens_inj he he' h)
    | inr entry' => exact absurd h (hsymbol e _ _)
  | inr entry =>
    cases arg' with
    | inl e' => exact absurd h.symm (hsymbol e' _ _)
    | inr entry' =>
      obtain ⟨name, e⟩ := entry
      obtain ⟨name', e'⟩ := entry'
      simp only [argumentTokens, List.cons.injEq, Token.symbol.injEq, true_and] at h
      have he : e = e' := tokens_inj he he' h.2
      rw [h.1, he]

theorem notMem_comma_argument (arg : Expr ⊕ String × Expr) : .comma ∉ argumentTokens arg := by
  have hexpr (e : Expr) : .comma ∉ e.tokens := by
    intro hmem
    have := inExpression_tokens e _ hmem
    contradiction
  cases arg with
  | inl e => exact hexpr e
  | inr entry =>
    obtain ⟨name, e⟩ := entry
    simp [argumentTokens, hexpr]

/-- A list whose items have other images is the only one with its images. -/
theorem eq_of_map_eq {α β : Type} {f : α → β} {as bs : List α} (h : as.map f = bs.map f)
    (hinj : ∀ a ∈ as, ∀ b ∈ bs, f a = f b → a = b) : as = bs := by
  induction as generalizing bs with
  | nil => exact (List.map_eq_nil_iff.mp h.symm).symm
  | cons a as ih =>
    cases bs with
    | nil => contradiction
    | cons b bs =>
      rw [List.map_cons, List.map_cons, List.cons.injEq] at h
      have hrest := ih h.2 fun a ha b hb => hinj a (List.mem_cons_of_mem _ ha) b (List.mem_cons_of_mem _ hb)
      rw [hinj a (List.mem_cons_self ..) b (List.mem_cons_self ..) h.1, hrest]

theorem Line.arguments_inj {l m : Line} (h : l.arguments = m.arguments) : l = m := by
  obtain ⟨xstart, xend, ystart, yend, options⟩ := l
  obtain ⟨xstart', xend', ystart', yend', options'⟩ := m
  simp only [arguments, List.map_cons, List.map_nil, List.cons_append, List.nil_append, List.cons.injEq,
    Sum.inl.injEq] at h
  obtain ⟨rfl, rfl, rfl, rfl, hentries⟩ := h
  rw [Options.ext ((List.map_inj_right fun _ _ => Sum.inr.inj).mp hentries)]

theorem Feature.tokens_inj (hf : f.isRegular = true) (hg : g.isRegular = true) (h : f.tokens = g.tokens) :
    f = g := by
  obtain ⟨l⟩ := f
  obtain ⟨m⟩ := g
  have harguments (l : Line) : List.splitOn .comma ([.comma].intercalate (l.arguments.map argumentTokens)) =
      l.arguments.map argumentTokens := by
    refine List.splitOn_intercalate _ ?_ (by simp [Line.arguments])
    exact List.forall_mem_map.mpr fun arg _ => notMem_comma_argument arg
  have hmap : l.arguments.map argumentTokens = m.arguments.map argumentTokens := by
    rw [← harguments l, ← harguments m, (List.cons.inj h).2]
  have hl := Feature.isRegular_line.mp hf
  have hm := Feature.isRegular_line.mp hg
  rw [Line.arguments_inj (eq_of_map_eq hmap fun arg harg arg' harg' =>
    argumentTokens_inj (hl arg harg).1 (hm arg' harg').1)]

theorem words_of_feature (hf : f.isRegular = true) : words f.text.toList = some f.tokens := by
  obtain ⟨hc, -, hfinite⟩ := Feature.isRegular_iff.mp hf
  rw [(writes_feature hc).words_eq, hfinite, if_pos rfl]

theorem Feature.text_inj (hf : f.isRegular = true) (hg : g.isRegular = true) (h : f.text = g.text) : f = g := by
  have hwords := words_of_feature hf
  rw [h, words_of_feature hg, Option.some.injEq] at hwords
  exact tokens_inj hf hg hwords.symm

/-! ## instruments -/

theorem lines_inj {us vs : List (List Char)} (hu : ∀ u ∈ us, '\n' ∉ u) (hv : ∀ v ∈ vs, '\n' ∉ v)
    (h : us.flatMap (· ++ ['\n']) = vs.flatMap (· ++ ['\n'])) : us = vs := by
  induction us generalizing vs with
  | nil =>
    cases vs with
    | nil => rfl
    | cons v vs => simp at h
  | cons u us ih =>
    cases vs with
    | nil => simp at h
    | cons v vs =>
      rw [List.forall_mem_cons] at hu hv
      simp only [List.flatMap_cons, List.append_assoc, List.singleton_append] at h
      obtain ⟨hline, hrest⟩ := append_mark_inj hu.1 hv.1 h
      rw [hline, ih hu.2 hv.2 hrest]

theorem Instrument.text_inj (hi : ∀ f ∈ i.features, f.isRegular = true) (hj : ∀ f ∈ j.features, f.isRegular = true)
    (h : i.text = j.text) : i = j := by
  let line (f : Feature) : List Char := ("  " ++ f.text).toList
  have htext (i : Instrument) : i.text.toList = (i.features.map line).flatMap (· ++ ['\n']) := by
    rw [toList_instrument, List.flatMap_map]
  have hline {f : Feature} (hf : f.isRegular = true) : '\n' ∉ line f := by
    have := compositional_line.feature (Feature.isRegular_iff.mp hf).1
    simp [line, this]
  have hlines : i.features.map line = j.features.map line := by
    refine lines_inj (List.forall_mem_map.mpr fun f hf => hline (hi f hf))
      (List.forall_mem_map.mpr fun f hf => hline (hj f hf)) ?_
    rw [← htext, ← htext, h]
  have hfeatures : i.features = j.features := eq_of_map_eq hlines fun f hf g hg hfg => by
    have htail : ("  " ++ f.text).toList = ("  " ++ g.text).toList := hfg
    rw [String.toList_append, String.toList_append, List.append_cancel_left_eq, String.toList_inj] at htail
    exact Feature.text_inj (hi f hf) (hj g hg) htail
  obtain ⟨features⟩ := i
  obtain ⟨features'⟩ := j
  exact congrArg Instrument.mk hfeatures

theorem isRegular_of_get? {source key : String} {config : Config} {d : Definitions} (hd : parse source config = .ok d)
    (hi : d.get? key = some i) : ∀ f ∈ i.features, f.isRegular = true := by
  obtain ⟨front, back, hentries, -⟩ := List.lookup_eq_some_iff.mp hi
  have hentry : (key, i) ∈ d.toList := by simp [hentries]
  obtain ⟨b, hb, rfl⟩ := exists_block_of_mem_toList hentry
  exact (Block.isRegular_iff.mp (isRegular_of_parse hd b hb)).2.2

theorem beq_instrument_iff_text (hi : ∀ f ∈ i.features, f.isRegular = true)
    (hj : ∀ f ∈ j.features, f.isRegular = true) : (i == j) = true ↔ i.normal.text = j.normal.text := by
  rw [beq_instrument_iff (fun f hf => (Feature.isRegular_iff.mp (hi f hf)).2.2)
    fun f hf => (Feature.isRegular_iff.mp (hj f hf)).2.2]
  refine ⟨fun h => by rw [h], ?_⟩
  exact Instrument.text_inj (isRegular_normal_instrument hi) (isRegular_normal_instrument hj)

end

/--
Instruments that were read are equal exactly if their normal forms have the same text. No integer has the text of
a float, and no two expressions that can be read have the same text.
-/
theorem beq_iff_text_normal {source source' key key' : String} {config config' : Config} {d d' : Definitions}
    {a b : Instrument} (hd : parse source config = .ok d) (hd' : parse source' config' = .ok d')
    (ha : d.get? key = some a) (hb : d'.get? key' = some b) :
    ((a == b) = true ↔ a.normal.text = b.normal.text) ∧
    (∀ (value : Int64) (x : Binary64), (Constant.int value).text ≠ (Constant.float x).text) ∧
    ∀ e e' : Expr, e.all Expr.isRegular = true → e'.all Expr.isRegular = true → e.text = e'.text → e = e' := by
  refine ⟨?_, int_text_ne_float_text, fun e e' => text_inj⟩
  exact beq_instrument_iff_text (isRegular_of_get? hd ha) (isRegular_of_get? hd' hb)

theorem beq_iff_text_normal_zero :
    ∃ (d d' : Definitions) (a b : Instrument),
      parse "instr 1 do\n  line p4, 0.0, 1, 2, :from => p5, :to => p6\nend\n" = .ok d ∧
      parse "instr 7 do\n  line p4, -0.0, 1, 2, :to => p6, :from => p5\nend\n" = .ok d' ∧
      d.get? "1" = some a ∧ d'.get? "7" = some b ∧ (a == b) = true ∧ a.normal.text = b.normal.text := by
  let zero (negative : Bool) : Expr := .constant (.float (.zero negative))
  let options : Options := ⟨[("from", .pField 5 []), ("to", .pField 6 [])], by decide⟩
  let options' : Options := ⟨[("to", .pField 6 []), ("from", .pField 5 [])], by decide⟩
  let a : Instrument := ⟨[.line ⟨.pField 4 [], zero false, .constant (.int 1), .constant (.int 2), options⟩]⟩
  let b : Instrument := ⟨[.line ⟨.pField 4 [], zero true, .constant (.int 1), .constant (.int 2), options'⟩]⟩
  have hd : parse (Definitions.toSource ⟨[⟨[1], a⟩]⟩) = .ok ⟨[⟨[1], a⟩]⟩ :=
    parse_toSource (by decide) (by decide) (by decide)
  have hd' : parse (Definitions.toSource ⟨[⟨[7], b⟩]⟩) = .ok ⟨[⟨[7], b⟩]⟩ :=
    parse_toSource (by decide) (by decide) (by decide)
  have hsource : Definitions.toSource ⟨[⟨[1], a⟩]⟩ =
      "instr 1 do\n  line p4, 0.0, 1, 2, :from => p5, :to => p6\nend\n" := by decide +kernel
  have hsource' : Definitions.toSource ⟨[⟨[7], b⟩]⟩ =
      "instr 7 do\n  line p4, -0.0, 1, 2, :to => p6, :from => p5\nend\n" := by decide +kernel
  rw [hsource] at hd
  rw [hsource'] at hd'
  have ha : Definitions.get? ⟨[⟨[1], a⟩]⟩ "1" = some a := rfl
  have hb : Definitions.get? ⟨[⟨[7], b⟩]⟩ "7" = some b := rfl
  have heq : (a == b) = true := by decide
  exact ⟨_, _, a, b, hd, hd', ha, hb, heq, (beq_iff_text_normal hd hd' ha hb).1.mp heq⟩

end GraphicScore
