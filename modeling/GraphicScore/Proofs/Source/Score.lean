import GraphicScore.Proofs.Source.Expression

/-!
# Tokens of canonical scores

The tokens that the canonical text of a score has, statement by statement and block by block.
-/

namespace GraphicScore

/-! ## statements -/

def argumentText : Expr ⊕ String × Expr → String
  | .inl e => e.text
  | .inr (name, e) => ":" ++ name ++ " => " ++ e.text

def argumentTokens : Expr ⊕ String × Expr → List Token
  | .inl e => e.tokens
  | .inr (name, e) => .symbol name :: .arrow :: e.tokens

def Feature.tokens : Feature → List Token
  | .line l => .identifier "line" :: [.comma].intercalate (l.arguments.map argumentTokens)

/-! ## blocks and scores -/

def Instrument.tokens (i : Instrument) : List Token := i.features.flatMap fun f => f.tokens ++ [.newline]

def numberTokens (number : UInt32) : List Token := [.integer (instrumentKey number)]

def Block.word (b : Block) : List Token :=
  .identifier "instr" :: ([.comma].intercalate (b.numbers.map numberTokens) ++
    .identifier "do" :: (.newline :: b.instrument.tokens ++ [.identifier "end"]))

def Block.tokens (b : Block) : List Token := b.word ++ [.newline]

def Definitions.tokens (d : Definitions) : List Token := [.newline].intercalate (d.blocks.map Block.tokens)

/-! ## texts -/

theorem intercalate_cons (s t : String) (l : List String) :
    s.intercalate (t :: l) = t ++ String.join (l.map (s ++ ·)) := by
  induction l generalizing t with
  | nil => simp
  | cons u l ih => simp [String.intercalate_cons_cons, ih, String.append_assoc]

theorem Line.text_eq (l : Line) : l.text = "line " ++ ", ".intercalate (l.arguments.map argumentText) := by
  have hoptions : l.options.text =
      String.join ((l.options.entries.map .inr).map fun arg => ", " ++ argumentText arg) := by
    rw [Options.text, List.map_map]
    congr 1
  rw [Line.text, hoptions, Line.arguments]
  simp [intercalate_cons, String.append_assoc, Function.comp_def, argumentText]

theorem Line.arguments_tokens (l : Line) :
    ∃ v, [.comma].intercalate (l.arguments.map argumentTokens) = l.xstart.tokens ++ [.comma] ++ v := by
  refine ⟨[.comma].intercalate (l.arguments.tail.map argumentTokens), ?_⟩
  rw [Line.arguments, List.map_cons, List.map_cons, List.map_cons, List.cons_append, List.cons_append,
    List.map_cons, List.map_cons, List.intercalate_cons_cons]
  rfl

theorem breaks_comma (rest : List Char) : Breaks (", ".toList ++ rest) :=
  breaks_cons (by decide) (by decide)

theorem breaks_newline (rest : List Char) : Breaks ("\n".toList ++ rest) :=
  breaks_cons (by decide) (by decide)

theorem writes_newline : Writes false true "\n" [.newline] := writes_closed rfl rfl rfl

theorem writes_comma : Writes false true ", " [.comma] := by
  have hcomma : Writes false true "," [.comma] := writes_closed rfl rfl rfl
  have := hcomma.append_closed writes_space
  exact this

theorem writes_arrow : Writes false true " => " [.arrow] := by
  have harrow : Writes false true "=>" [.arrow] := writes_closed rfl rfl rfl
  have := (writes_space.append_closed harrow).append_closed writes_space
  exact this

theorem writes_keyword {keyword text a : String} {ts : List Token} (ha : a = keyword ++ text)
    (hk : isIdentifier keyword = true) (h : Writes false true text ts)
    (hbreak : ∀ rest, Breaks (text.toList ++ rest)) : Writes false true a (.identifier keyword :: ts) := by
  rw [ha]
  exact (writes_identifier hk).append h fun _ => hbreak

theorem writes_argument {arg : Expr ⊕ String × Expr} (he : (argumentExpr arg).all Expr.isCallable = true)
    (hname : ∀ name e, arg = .inr (name, e) → isWord name = true) :
    Writes true ((argumentExpr arg).all Expr.isFinite) (argumentText arg) (argumentTokens arg) := by
  cases arg with
  | inl e => exact writes_expr he
  | inr entry =>
    obtain ⟨name, e⟩ := entry
    have hsymbol : Writes (Token.symbol name).isOpen true (":" ++ name) [.symbol name] :=
      writes_token (show (Token.symbol name).isLexical = true from hname name e rfl) (by simp [Token.spelling])
    have harrow := hsymbol.append writes_arrow fun _ _ => breaks_cons (by decide) (by decide)
    exact harrow.append_closed (writes_expr he)

theorem writes_feature {f : Feature} (h : f.isNamed = true) : Writes true f.isFinite f.text f.tokens := by
  obtain ⟨l⟩ := f
  have hargs : Writes true (l.arguments.all fun arg => (argumentExpr arg).all Expr.isFinite)
      (", ".intercalate (l.arguments.map argumentText))
      ([.comma].intercalate (l.arguments.map argumentTokens)) := by
    refine writes_intercalate ?_ writes_comma fun _ => breaks_comma
    intro arg harg
    obtain ⟨he, hname⟩ := Feature.isNamed_line.mp h arg harg
    exact writes_argument he hname
  have hline : Writes false true "line " [.identifier "line"] :=
    writes_keyword rfl (by decide) writes_space breaks_space
  have := hline.append_closed hargs
  rw [Feature.text, Line.text_eq, Feature.isFinite, Feature.expressions, Line.expressions_eq, List.all_map]
  exact this

theorem writes_instrument {i : Instrument} (h : ∀ f ∈ i.features, f.isNamed = true) :
    Writes false (i.features.all Feature.isFinite) i.text i.tokens := by
  refine writes_join fun f hf => ?_
  have hindent := writes_space.append_closed writes_space
  have hfeature := hindent.append_closed (writes_feature (h f hf))
  have := hfeature.append writes_newline fun _ => breaks_newline
  simpa using this

theorem writes_block {b : Block} (h : ∀ f ∈ b.instrument.features, f.isNamed = true) :
    Writes false (b.instrument.features.all Feature.isFinite) b.text b.tokens := by
  have hinstr : Writes false true "instr " [.identifier "instr"] :=
    writes_keyword rfl (by decide) writes_space breaks_space
  have hnumbers : Writes true (b.numbers.all fun _ => true)
      (", ".intercalate (b.numbers.map instrumentKey))
      ([.comma].intercalate (b.numbers.map numberTokens)) := by
    refine writes_intercalate ?_ writes_comma fun _ => breaks_comma
    intro number _
    exact writes_token (isLexical_integer _) rfl
  rw [show (b.numbers.all fun _ => true) = true from List.all_eq_true.mpr fun _ _ => rfl] at hnumbers
  have hkeyword : Writes false true "do\n" [.identifier "do", .newline] :=
    writes_keyword rfl (by decide) writes_newline breaks_newline
  have hdo := writes_space.append_closed hkeyword
  have hend : Writes false true "end\n" [.identifier "end", .newline] :=
    writes_keyword rfl (by decide) writes_newline breaks_newline
  have hhead := hinstr.append_closed hnumbers
  have hopening := hhead.append hdo fun _ _ => breaks_cons (by decide) (by decide)
  have hbody := hopening.append_closed (writes_instrument h)
  have := hbody.append_closed hend
  simpa [Block.text, Block.tokens, Block.word] using this

/-- A score whose names a text can have has its tokens in its text, unless a constant is not finite. -/
theorem words_toSource {d : Definitions}
    (h : ∀ b ∈ d.blocks, ∀ f ∈ b.instrument.features, f.isNamed = true) :
    words d.toSource.toList =
      if d.blocks.all (fun b => b.instrument.features.all Feature.isFinite) then some d.tokens else none := by
  have hblocks : Writes false _ d.toSource d.tokens :=
    writes_intercalate (fun b hb => writes_block (h b hb)) writes_newline fun h => absurd h (by decide)
  exact hblocks.words_eq

end GraphicScore
