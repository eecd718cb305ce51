import GraphicScore.Proofs.Grammar.Newline
import GraphicScore.Proofs.Source.RoundTrip
import GraphicScore.Proofs.Token.Concatenation

/-!
# Sources with newlines in parentheses

A newline put in between two tokens in parentheses is read over, except behind a minus that is no operator
and behind the name of a converter: there the reader looks at the next token as it is.
-/

namespace GraphicScore

section
variable {config : Config} {a b : String} {x y : List Token} {d : Definitions}

theorem words_insert_newline (ha : words a.toList = some x) (hb : words b.toList = some y) :
    words (a ++ "\n" ++ b).toList = some (x ++ .newline :: y) := by
  have htext : (a ++ "\n" ++ b).toList = a.toList ++ '\n' :: b.toList := by simp
  rw [htext, words_append_newline ha, hb]
  rfl

theorem scoreWord_of_parse {source : String} {w : List Token} (h : parse source config = .ok d)
    (hw : words source.toList = some w) : ScoreWord config (w ++ [.endOfInput]) d := by
  obtain ⟨w', hw', hword⟩ := parse_iff_words.mp h
  rw [hw, Option.some.injEq] at hw'
  exact hw' ▸ hword

theorem Tied.of_append {v : List Token} (h : Tied x (y ++ v)) (hy : y ≠ []) : Tied x y := by
  obtain ⟨t, y, rfl⟩ := List.exists_cons_of_ne_nil hy
  generalize hw : t :: y ++ v = w at h
  cases h with
  | call hname =>
    obtain ⟨rfl, -⟩ := List.cons.inj hw
    exact .call hname
  | minus hend => exact .minus hend

theorem parse_of_not_tied (h : ScoreWord config (x ++ y ++ [.endOfInput]) d) (hx : 0 < nesting x) (hy : y ≠ [])
    (ht : ¬ Tied x y) (ha : words a.toList = some x) (hb : words b.toList = some y) :
    parse (a ++ "\n" ++ b) config = .ok d := by
  rw [List.append_assoc] at h
  have hword := h.insert_newline hx fun ht' => ht (ht'.of_append hy)
  rw [← List.cons_append, ← List.append_assoc] at hword
  exact parse_iff_words.mpr ⟨_, words_insert_newline ha hb, hword⟩

theorem not_parse_of_tied (ht : Tied x y) (hx : 0 < nesting x) (ha : words a.toList = some x)
    (hb : words b.toList = some y) : parse (a ++ "\n" ++ b) config ≠ .ok d := by
  intro h
  have hword := scoreWord_of_parse h (words_insert_newline ha hb)
  rw [List.append_assoc, List.cons_append] at hword
  exact not_scoreWord_of_tied ht hx hword

end

/--
A newline between two tokens in parentheses leaves a source that is read as before, exactly if it is not
put behind the name of a converter or behind a minus that is no operator.
-/
theorem parse_insert_newline_iff {source : String} {config : Config} {d : Definitions} {x y : List Token}
    (h : parse source config = .ok d) (hw : words source.toList = some (x ++ y)) (hin : Parenthesized x y) :
    (∃ a b, source = a ++ b ∧ words a.toList = some x ∧ words b.toList = some y) ∧
    ∀ a b, source = a ++ b → words a.toList = some x → words b.toList = some y →
      ((∃ d', parse (a ++ "\n" ++ b) config = .ok d' ∧ (d' == d) = true) ↔ ¬ Tied x y) := by
  have hword := scoreWord_of_parse h hw
  have hx : 0 < nesting x := hin.nesting_pos (List.append_assoc .. ▸ hword.balanced)
  have hy : y ≠ [] := by
    obtain ⟨u, v, v', z, -, rfl, -⟩ := hin
    simp
  refine ⟨?_, fun a b _ ha hb => ⟨?_, fun ht => ⟨d, parse_of_not_tied hword hx hy ht ha hb, ?_⟩⟩⟩
  · obtain ⟨a, b, hab, ha, hb⟩ := exists_cut hw
    refine ⟨String.ofList a, String.ofList b, ?_, ?_, ?_⟩
    · rw [← String.ofList_append, ← hab, String.ofList_toList]
    · rwa [String.toList_ofList]
    · rwa [String.toList_ofList]
  · intro ⟨d', hd', _⟩ ht
    exact not_parse_of_tied ht hx ha hb hd'
  · exact beq_self_of_parse h

theorem parse_insert_newline_iff_operator :
    ∃ d, parse "instr 1 do\n  line (p4 + 1) * 2, p5, p6, p7\nend\n" = .ok d ∧
      ∃ d', parse "instr 1 do\n  line (p4\n + 1) * 2, p5, p6, p7\nend\n" = .ok d' ∧ (d' == d) = true := by
  let sum : Expr := .binary .plus (.pField 4 []) (.constant (.int 1)) []
  let l : Line := ⟨.binary .times sum (.constant (.int 2)) [], .pField 5 [], .pField 6 [], .pField 7 [], .empty⟩
  let d : Definitions := ⟨[⟨[1], ⟨[.line l]⟩⟩]⟩
  let x := (words "instr 1 do\n  line (p4".toList).getD []
  let y := (words " + 1) * 2, p5, p6, p7\nend\n".toList).getD []
  have hend : ∀ b ∈ d.blocks, ∀ f ∈ b.instrument.features, f.beginsWithEnd = false := by decide
  have hsource : d.toSource = "instr 1 do\n  line (p4 + 1) * 2, p5, p6, p7\nend\n" := by decide
  have hd : parse "instr 1 do\n  line (p4 + 1) * 2, p5, p6, p7\nend\n" = .ok d :=
    hsource ▸ parse_toSource (by decide) hend (by decide)
  have hx : x = x.take 5 ++ [.openParen, .identifier "p4"] := by decide +kernel
  have hy : y = [.plus, .integer "1"] ++ .closeParen :: y.drop 3 := by decide +kernel
  have hin : Parenthesized x y := ⟨_, _, _, _, hx, hy, Flat.balanced (by simp [Flat, Token.nesting])⟩
  have ht : ¬ Tied x y := by
    intro h
    rw [hx] at h
    rcases h.awaited (show _ = some .operator by decide) (by simp) with h | h <;> cases h
  refine ⟨d, hd, ?_⟩
  exact ((parse_insert_newline_iff hd (by decide +kernel) hin).2 "instr 1 do\n  line (p4"
    " + 1) * 2, p5, p6, p7\nend\n" (by decide) (by decide +kernel) (by decide +kernel)).mpr ht

/-- A minus that is no operator has to have its number on its line, even in parentheses. -/
theorem parse_insert_newline_minus :
    ∃ d, parse "instr 1 do\n  line (-5 + p4) * 2, p5, p6, p7\nend\n" = .ok d ∧
      ∃ x y, words "instr 1 do\n  line (-".toList = some x ∧
        words "5 + p4) * 2, p5, p6, p7\nend\n".toList = some y ∧
        words "instr 1 do\n  line (-5 + p4) * 2, p5, p6, p7\nend\n".toList = some (x ++ y) ∧
        Parenthesized x y ∧
        ¬ ∃ d', parse "instr 1 do\n  line (-\n5 + p4) * 2, p5, p6, p7\nend\n" = .ok d' ∧ (d' == d) = true := by
  let sum : Expr := .binary .plus (.constant (.int (-5))) (.pField 4 []) []
  let l : Line := ⟨.binary .times sum (.constant (.int 2)) [], .pField 5 [], .pField 6 [], .pField 7 [], .empty⟩
  let d : Definitions := ⟨[⟨[1], ⟨[.line l]⟩⟩]⟩
  let x := (words "instr 1 do\n  line (-".toList).getD []
  let y := (words "5 + p4) * 2, p5, p6, p7\nend\n".toList).getD []
  have hend : ∀ b ∈ d.blocks, ∀ f ∈ b.instrument.features, f.beginsWithEnd = false := by decide
  have hsource : d.toSource = "instr 1 do\n  line (-5 + p4) * 2, p5, p6, p7\nend\n" := by decide
  have hd : parse "instr 1 do\n  line (-5 + p4) * 2, p5, p6, p7\nend\n" = .ok d :=
    hsource ▸ parse_toSource (by decide) hend (by decide)
  have hx : x = x.take 5 ++ [.openParen, .minus] := by decide +kernel
  have hy : y = [.integer "5", .plus, .identifier "p4"] ++ .closeParen :: y.drop 4 := by decide +kernel
  have hin : Parenthesized x y := ⟨_, _, _, _, hx, hy, Flat.balanced (by simp [Flat, Token.nesting])⟩
  have ha : words "instr 1 do\n  line (-".toList = some x := by decide +kernel
  have hb : words "5 + p4) * 2, p5, p6, p7\nend\n".toList = some y := by decide +kernel
  have ht : Tied x y := by
    have : Tied ((x.take 5 ++ [.openParen]) ++ [.minus]) y := .minus (endsWithOperand_concat (by simp))
    rwa [List.append_assoc, List.singleton_append, ← hx] at this
  refine ⟨d, hd, x, y, ha, hb, by decide +kernel, hin, ?_⟩
  rintro ⟨d', hd', -⟩
  exact not_parse_of_tied ht (by decide +kernel) ha hb hd'

end GraphicScore
