import GraphicScore.Proofs.Reading.Language
import GraphicScore.Proofs.Source.Equality
import GraphicScore.Proofs.Source.Regular
import GraphicScore.Proofs.Source.Rejection

/-!
# Round trips

Which canonical texts are read back as what they were written for. A statement goes wrong where its
first coordinate begins with a call of `end`, since the name is taken for the end of the block.
-/

namespace GraphicScore

section
variable {source : String} {config : Config} {d : Definitions}

theorem parse_iff_words :
    parse source config = .ok d ↔
      ∃ w, words source.toList = some w ∧ ScoreWord config (w ++ [.endOfInput]) d := by
  rw [parse_iff_scoreWord]
  constructor
  · intro h
    obtain ⟨ts, hts, hword⟩ := h
    generalize hw : ts.map Located.value = w at hword
    obtain ⟨hblocks, hnumbers⟩ := hword
    exact ⟨_, (words_eq_some .start).mpr ⟨ts, hts, hw⟩, .score hblocks hnumbers⟩
  · intro h
    obtain ⟨w, hw, hword⟩ := h
    obtain ⟨ts, hts, hvalues⟩ := (words_eq_some .start).mp hw
    exact ⟨ts, hts, hvalues ▸ hword⟩

theorem isRegular_of_parse (h : parse source config = .ok d) : ∀ b ∈ d.blocks, b.isRegular = true := by
  obtain ⟨w, hw, hword⟩ := parse_iff_words.mp h
  exact hword.isRegular (List.forall_mem_append.mpr ⟨forall_isNamed hw, List.forall_mem_singleton.mpr rfl⟩)

theorem beq_self_of_parse (h : parse source config = .ok d) : (d == d) = true :=
  beq_self_definitions fun b hb _ hf => (Block.isRegular_feature (isRegular_of_parse h b hb) hf).2.2

theorem words_of_isRegular (h : ∀ b ∈ d.blocks, b.isRegular = true) :
    words d.toSource.toList = some d.tokens := by
  rw [words_toSource fun b hb f hf => (Block.isRegular_feature (h b hb) hf).1, if_pos]
  simp only [List.all_eq_true]
  exact fun b hb f hf => (Block.isRegular_feature (h b hb) hf).2.2

/-- A regular score is read back from its text as it is, unless a statement is misread. -/
theorem parse_toSource (h : ∀ b ∈ d.blocks, b.isRegular = true)
    (hend : ∀ b ∈ d.blocks, ∀ f ∈ b.instrument.features, f.beginsWithEnd = false) (hd : d.numbers.Nodup) :
    parse d.toSource = .ok d :=
  parse_iff_words.mpr ⟨_, words_of_isRegular h, derives_score h hend hd⟩

theorem beginsWithEnd_of_parse {d' : Definitions} (h : ∀ b ∈ d.blocks, b.isRegular = true)
    (hd' : parse d.toSource config = .ok d') :
    ∀ b ∈ d.blocks, ∀ f ∈ b.instrument.features, f.beginsWithEnd = false := by
  intro b hb f hf
  obtain ⟨w, hw, hword⟩ := parse_iff_words.mp hd'
  rw [words_of_isRegular h, Option.some.injEq] at hw
  obtain ⟨hc, -, hfinite⟩ := Block.isRegular_feature (h b hb) hf
  refine Bool.of_not_eq_true fun hend => ?_
  rw [← hw] at hword
  exact not_scoreWord_of_beginsWithEnd hb hf hc hfinite hend hword

end

/-- The text of a score that was read is read back, exactly if no statement is misread. -/
theorem parse_toSource_iff {source : String} {config : Config} {d : Definitions}
    (h : parse source config = .ok d) :
    (∃ d', parse d.toSource = .ok d' ∧ (d' == d) = true ∧ d'.toSource = d.toSource) ↔
      ∀ b ∈ d.blocks, ∀ f ∈ b.instrument.features, f.beginsWithEnd = false := by
  have hregular := isRegular_of_parse h
  constructor
  · intro h'
    obtain ⟨d', hd', -⟩ := h'
    exact beginsWithEnd_of_parse hregular hd'
  · intro hend
    refine ⟨d, parse_toSource hregular hend (nodup_numbers_of_parse h), ?_, rfl⟩
    exact beq_self_definitions fun b hb f hf => (Block.isRegular_feature (hregular b hb) hf).2.2

theorem parse_toSource_iff_line :
    ∃ d, parse "instr 1 do\n  line p4, p5, p6, p7\nend\n" = .ok d ∧
      ∃ d', parse d.toSource = .ok d' ∧ (d' == d) = true ∧ d'.toSource = d.toSource := by
  let l : Line := ⟨.pField 4 [], .pField 5 [], .pField 6 [], .pField 7 [], .empty⟩
  let d : Definitions := ⟨[⟨[1], ⟨[.line l]⟩⟩]⟩
  have hend : ∀ b ∈ d.blocks, ∀ f ∈ b.instrument.features, f.beginsWithEnd = false := by decide
  have hsource : d.toSource = "instr 1 do\n  line p4, p5, p6, p7\nend\n" := by decide
  have hd : parse "instr 1 do\n  line p4, p5, p6, p7\nend\n" = .ok d :=
    hsource ▸ parse_toSource (by decide) hend (by decide)
  exact ⟨d, hd, (parse_toSource_iff hd).mpr hend⟩

/-- A call of `end` in parentheses is read, and its text without them is not. -/
theorem parse_toSource_call_end :
    ∃ d, parse "instr 1 do\n  line (end(p2)), p3, p4, p5\nend\n" = .ok d ∧
      ¬ ∃ d', parse d.toSource = .ok d' ∧ (d' == d) = true ∧ d'.toSource = d.toSource := by
  let l : Line := ⟨.pField 2 [⟨"end"⟩], .pField 3 [], .pField 4 [], .pField 5 [], .empty⟩
  let d : Definitions := ⟨[⟨[1], ⟨[.line l]⟩⟩]⟩
  have hcomma : Comma [.comma] := ⟨[], .nil, rfl⟩
  have hnewline : Separators [.newline] := List.forall_mem_singleton.mpr rfl
  have hfirst : ArgumentWord {} (Expr.operandTokens true l.xstart.tokens) (.inl l.xstart) :=
    .coordinate (derives_operand true (derives_tokens (by decide) (by decide) (by decide)) (by decide))
  have hfield (number : UInt32) (h : number ≠ 0) :
      ArgumentWord {} (Expr.pField number []).tokens (.inl (.pField number [])) := by
    have hn : (Expr.pField number []).all Expr.isNumbered = true := bne_iff_ne.mpr h
    exact .coordinate ((derives_tokens rfl hn rfl false).loosen (Nat.zero_le _))
  have hargs : SepBy Comma (ArgumentWord {}) _ l.arguments :=
    .more hfirst hcomma (.more (hfield 3 (by decide)) hcomma
      (.more (hfield 4 (by decide)) hcomma (.one (hfield 5 (by decide)))))
  have hfeatures : Spaced (FeatureWord {}) _ [.line l] :=
    .some hnewline (.one (.line hargs (by decide))) hnewline
  have hnumber : NumberWord [.integer "1"] 1 := .integer rfl
  have hblock : BlockWord {} _ ⟨[1], ⟨[.line l]⟩⟩ :=
    .block .keyword (.one hnumber) hfeatures (List.cons_ne_nil _ _)
  have hd : parse "instr 1 do\n  line (end(p2)), p3, p4, p5\nend\n" = .ok d := by
    have hblocks : Spaced (BlockWord {}) _ d.blocks := .some (List.forall_mem_nil _) (.one hblock) hnewline
    refine parse_iff_words.mpr ⟨_, ?_, .score hblocks (by decide)⟩
    decide +kernel
  -- the canonical text has no parentheses, so `end` stands right behind `line`
  refine ⟨d, hd, fun h => ?_⟩
  obtain ⟨d', hd', -⟩ := h
  have := beginsWithEnd_of_parse (isRegular_of_parse hd) hd' _ (List.mem_singleton.mpr rfl) _
    (List.mem_singleton.mpr rfl)
  rw [show (Feature.line l).beginsWithEnd = true by decide] at this
  contradiction

/-! ## expressions -/

theorem exists_reader_of_words {text : String} {w : List Token} (hw : words text.toList = some (w ++ [.comma]))
    (hne : ∀ t ∈ w, t ≠ .endOfInput) :
    ∃ r r', Reading.advance (.ofFeed (.ofString text)) = .ok () r ∧ r.depth = 0 ∧ r.Passes w r' ∧
      r'.current.value = .comma := by
  have hcomma : ∀ t ∈ w ++ [.comma], t ≠ .endOfInput :=
    List.forall_mem_append.mpr ⟨hne, List.forall_mem_singleton.mpr (by decide)⟩
  obtain ⟨r'', hpasses, -⟩ := (passes_feed hcomma).mpr ((words_eq_some .start).mp hw)
  obtain ⟨-, r, hr, hpasses⟩ := Reader.passes_cons.mp hpasses
  obtain ⟨r', hpasses, hend⟩ := Reader.passes_append.mp hpasses
  exact ⟨r, r', hr, Reading.depth_of_advance hr, hpasses, (Reader.passes_cons.mp hend).1⟩

theorem expression_of_derives {config : Config} {r r' : Reader} {w : List Token} {e : Expr} (hd : r.depth = 0)
    (hw : r.Passes w r') (hc : r'.current.value = .comma) (he : Derives config .sum false w e) :
    Reading.expression config r = .ok e r' :=
  Reading.expression_complete hd he hw (hc ▸ Reading.endsArgument_comma.1)

theorem derives_of_isRegular {e : Expr} (he : e.all Expr.isRegular = true) :
    Derives {} .sum false e.tokens e := by
  obtain ⟨hc, hn, hf⟩ := Expr.all_isRegular.mp he
  exact (derives_tokens hc hn hf false).loosen (Nat.zero_le _)

theorem words_of_expr {e : Expr} (he : e.all Expr.isRegular = true) : words e.text.toList = some e.tokens := by
  obtain ⟨hc, -, hf⟩ := Expr.all_isRegular.mp he
  rw [(writes_expr hc).words_eq, hf, if_pos rfl]

theorem exists_reader_of_isRegular {e : Expr} (he : e.all Expr.isRegular = true) :
    ∃ r r', Reading.advance (.ofFeed (.ofString (e.text ++ ","))) = .ok () r ∧ r.depth = 0 ∧
      r.Passes e.tokens r' ∧ r'.current.value = .comma ∧ Reading.expression {} r = .ok e r' := by
  obtain ⟨hc, -, hf⟩ := Expr.all_isRegular.mp he
  have hderives := derives_of_isRegular he
  have hcomma : Writes false true "," [.comma] := writes_closed rfl rfl rfl
  have hwords := ((writes_expr hc).append hcomma fun _ _ => breaks_cons (by decide) (by decide)).words_eq
  rw [hf] at hwords
  obtain ⟨r, r', hr, hd, hw, hend⟩ := exists_reader_of_words hwords hderives.ne_endOfInput
  exact ⟨r, r', hr, hd, hw, hend, expression_of_derives hd hw hend hderives⟩

/-! ## instruments -/

section
variable {i : Instrument} {number : UInt32} {d : Definitions}

theorem parse_of_isReadable (hi : ∀ f ∈ i.features, f.isNamed = true) (h : i.isReadable = true) :
    parse (Definitions.toSource ⟨[⟨[number], i⟩]⟩) = .ok ⟨[⟨[number], i⟩]⟩ := by
  obtain ⟨hne, hall⟩ := Instrument.isReadable_iff.mp h
  have hregular : (Block.mk [number] i).isRegular = true := by
    refine Block.isRegular_iff.mpr ⟨List.cons_ne_nil _ _, hne, fun f hf => ?_⟩
    exact Feature.isRegular_iff.mpr ⟨hi f hf, (hall f hf).1, (hall f hf).2.1⟩
  refine parse_toSource (List.forall_mem_singleton.mpr hregular) (List.forall_mem_singleton.mpr ?_) ?_
  · exact fun f hf => (hall f hf).2.2
  · simp [Definitions.numbers]

theorem isReadable_of_parse (hi : ∀ f ∈ i.features, f.isNamed = true)
    (h : parse (Definitions.toSource ⟨[⟨[number], i⟩]⟩) = .ok d) : i.isReadable = true := by
  obtain ⟨w, hw, hword⟩ := parse_iff_words.mp h
  -- the text has tokens at all only if its floats are finite
  rw [words_toSource (List.forall_mem_singleton.mpr hi), Option.ite_none_right_eq_some, Option.some.injEq] at hw
  obtain ⟨hfinite, rfl⟩ := hw
  simp only [List.all_cons, List.all_nil, Bool.and_true, List.all_eq_true] at hfinite
  have hb : ⟨[number], i⟩ ∈ (Definitions.mk [⟨[number], i⟩]).blocks := List.mem_singleton.mpr rfl
  refine Instrument.isReadable_iff.mpr ⟨fun hempty => ?_, fun f hf => ⟨?_, hfinite f hf, ?_⟩⟩
  · obtain ⟨features⟩ := i
    cases hempty
    exact not_scoreWord_of_empty hword
  · exact Bool.of_not_eq_false fun hn => not_scoreWord_of_zeroField hb hf hn hword
  · refine Bool.of_not_eq_true fun hend => ?_
    exact not_scoreWord_of_beginsWithEnd hb hf (hi f hf) (hfinite f hf) hend hword

theorem toSource_instrument :
    Definitions.toSource ⟨[⟨[1], i⟩]⟩ = "instr 1 do\n" ++ i.text ++ "end\n" := by
  have hkey : instrumentKey 1 = "1" := by decide
  simp [Definitions.toSource, Block.text, hkey]

end

/-- The text of an instrument in a block is read back as the instrument, or not at all. -/
theorem parse_instrument_iff {i : Instrument} (hi : ∀ f ∈ i.features, f.isNamed = true) :
    ((∃ d j, parse ("instr 1 do\n" ++ i.text ++ "end\n") = .ok d ∧ d.get? "1" = some j ∧ (j == i) = true) ↔
      i.isReadable = true) ∧
    (i.isReadable = false → ∃ fault, parse ("instr 1 do\n" ++ i.text ++ "end\n") = .error fault) := by
  rw [← toSource_instrument]
  refine ⟨⟨fun h => ?_, fun h => ?_⟩, fun h => ?_⟩
  · obtain ⟨d, j, hd, -⟩ := h
    exact isReadable_of_parse hi hd
  · have hfinite := (Instrument.isReadable_iff.mp h).2
    refine ⟨_, i, parse_of_isReadable hi h, ?_, beq_self_instrument fun f hf => (hfinite f hf).2.1⟩
    have hkey : instrumentKey 1 = "1" := by decide
    rw [← hkey]
    exact Definitions.get?_instrumentKey _ (by simp [Definitions.numbers]) (List.mem_singleton.mpr rfl)
      (List.mem_singleton.mpr rfl)
  · cases hp : parse (Definitions.toSource ⟨[⟨[1], i⟩]⟩) with
    | error fault => exact ⟨fault, rfl⟩
    | ok d =>
      rw [isReadable_of_parse hi hp] at h
      contradiction

theorem parse_instrument_iff_line :
    ∃ i : Instrument, (∀ f ∈ i.features, f.isNamed = true) ∧
      i.text = "  line cpspch(p4 + 1), p5, p6, p7, :width => -2\n" ∧
      ∃ d j, parse ("instr 1 do\n" ++ i.text ++ "end\n") = .ok d ∧ d.get? "1" = some j ∧ (j == i) = true := by
  let xstart : Expr := .binary .plus (.pField 4 []) (.constant (.int 1)) [⟨"cpspch"⟩]
  let options : Options := ⟨[("width", .constant (.int (-2)))], by simp⟩
  let i : Instrument := ⟨[.line ⟨xstart, .pField 5 [], .pField 6 [], .pField 7 [], options⟩]⟩
  have hi : ∀ f ∈ i.features, f.isNamed = true := by decide
  exact ⟨i, hi, by decide, (parse_instrument_iff hi).1.mpr (by decide)⟩

end GraphicScore
