import GraphicScore.Proofs.Reading.Alike
import GraphicScore.Proofs.Source.RoundTrip

/-!
# Layout

Where the tokens of a source stand does not change what they mean. It changes nothing but the places that
faults name.
-/

namespace GraphicScore

open Reading

/-- The token of a kind with a text, which counts for the kinds that leave it open. -/
def Token.ofKind : Kind → String → Token
  | .identifier, text => .identifier text
  | .integer, text => .integer text
  | .float, text => .float text
  | .symbol, text => .symbol text
  | .comma, _ => .comma
  | .plus, _ => .plus
  | .minus, _ => .minus
  | .star, _ => .star
  | .slash, _ => .slash
  | .openParen, _ => .openParen
  | .closeParen, _ => .closeParen
  | .openBrace, _ => .openBrace
  | .closeBrace, _ => .closeBrace
  | .arrow, _ => .arrow
  | .semicolon, _ => .semicolon
  | .newline, _ => .newline
  | .endOfInput, _ => .endOfInput

@[simp] theorem Token.ofKind_kind_text (t : Token) : ofKind t.kind t.text = t := by
  cases t <;> rfl

theorem Token.ext_of_text {t t' : Token} (hkind : t.kind = t'.kind) (htext : t.text = t'.text) : t = t' := by
  rw [← t.ofKind_kind_text, hkind, htext, t'.ofKind_kind_text]

section
variable {config : Config} {ts ts' : List (Located Token)} {f f' : Feed}

theorem forall_corresponds (hlength : ts.length = ts'.length)
    (hagree : ∀ (i : Nat) (t t' : Located Token), ts[i]? = some t → ts'[i]? = some t' →
      t.value.kind = t'.value.kind ∧ t.value.text = t'.value.text) :
    List.Forall₂ (Corresponds ts ts') ts ts' := by
  refine List.forall₂_iff_get.mpr ⟨hlength, fun i h h' => ?_⟩
  have ht := List.getElem?_eq_getElem h
  have ht' := List.getElem?_eq_getElem h'
  obtain ⟨hkind, htext⟩ := hagree i _ _ ht ht'
  exact ⟨Token.ext_of_text hkind htext, i, ht, ht'⟩

theorem message_unterminatedBlock (line : Nat) :
    (Cause.unterminatedBlock line).message =
      "unterminated instrument block opened at line " ++ toString line := rfl

theorem message_of_alike {cause cause' : Cause} (h : CausesAlike ts ts' cause cause') :
    (∀ line, cause ≠ .unterminatedBlock line) ∧ cause.message = cause'.message ∨
      ∃ (i : Nat) (o o' : Located Token), ts[i]? = some o ∧ ts'[i]? = some o' ∧
        o.value = .identifier "instr" ∧ o'.value = .identifier "instr" ∧
        cause.message = "unterminated instrument block opened at line " ++ toString o.position.line ∧
        cause'.message = "unterminated instrument block opened at line " ++ toString o'.position.line := by
  cases h with
  | same hplaceless =>
    refine .inl ⟨fun line h => ?_, rfl⟩
    rw [h] at hplaceless
    contradiction
  | unterminated ho hinstr =>
    obtain ⟨hvalue, i, ho, ho'⟩ := ho
    exact .inr ⟨i, _, _, ho, ho', hinstr, hvalue ▸ hinstr, message_unterminatedBlock _, message_unterminatedBlock _⟩

end

/-- Sources with the same kinds and texts of tokens are both read, to the same, or both blamed at the same token. -/
theorem parse_alike_of_tokenize (config : Config) {source source' : String} {ts ts' : List (Located Token)}
    (hts : tokenize source = .ok ts) (hts' : tokenize source' = .ok ts') (hlength : ts.length = ts'.length)
    (hagree : ∀ (i : Nat) (t t' : Located Token), ts[i]? = some t → ts'[i]? = some t' →
      t.value.kind = t'.value.kind ∧ t.value.text = t'.value.text) :
    (∃ d d', parse source config = .ok d ∧ parse source' config = .ok d' ∧ (d == d') = true ∧
      d.toSource = d'.toSource) ∨
    ∃ fault fault', parse source config = .error fault ∧ parse source' config = .error fault' ∧
      (∃ (i : Nat) (t t' : Located Token), ts[i]? = some t ∧ ts'[i]? = some t' ∧
        fault.position = t.position ∧ fault'.position = t'.position) ∧
      ((∀ line, fault.value ≠ .unterminatedBlock line) ∧ fault.value.message = fault'.value.message ∨
        ∃ (i : Nat) (o o' : Located Token), ts[i]? = some o ∧ ts'[i]? = some o' ∧
          o.value = .identifier "instr" ∧ o'.value = .identifier "instr" ∧
          fault.value.message = "unterminated instrument block opened at line " ++ toString o.position.line ∧
          fault'.value.message =
            "unterminated instrument block opened at line " ++ toString o'.position.line) := by
  have hfeeds := FeedsAlike.of_tokens hts hts' (forall_corresponds hlength hagree)
  have houtcome := score_of_feeds (S := Simulation.layout config ts ts') hfeeds
  generalize hx : score config (.ofFeed (.ofString source)) = x at houtcome
  generalize hy : score config (.ofFeed (.ofString source')) = y at houtcome
  cases houtcome with
  | @ok d r r' hr =>
    have hd := parse_eq_ok.mpr ⟨r, hx⟩
    exact .inl ⟨d, d, hd, parse_eq_ok.mpr ⟨r', hy⟩, beq_self_of_parse hd, rfl⟩
  | @error fault fault' r r' hfault =>
    refine .inr ⟨fault, fault', parse_of_error hx, parse_of_error hy, ?_⟩
    obtain ⟨⟨-, i, ht, ht'⟩, hcause⟩ := hfault
    exact ⟨⟨i, _, _, ht, ht', rfl, rfl⟩, message_of_alike hcause⟩
  | refused hrefused => exact hrefused.elim

theorem parse_alike_of_tokenize_continued :
    ∃ d d', parse "instr 1 do\n  line p4, p5, p6, p7\nend\n" = .ok d ∧
      parse "instr 1 do # a bar\n\tline p4,p5, \\\n    p6, p7\nend\n" = .ok d' ∧ (d == d') = true ∧
      d.toSource = d'.toSource := by
  let l : Line := ⟨.pField 4 [], .pField 5 [], .pField 6 [], .pField 7 [], .empty⟩
  let d : Definitions := ⟨[⟨[1], ⟨[.line l]⟩⟩]⟩
  let w := (words "instr 1 do\n  line p4, p5, p6, p7\nend\n".toList).getD []
  have hend : ∀ b ∈ d.blocks, ∀ f ∈ b.instrument.features, f.beginsWithEnd = false := by decide
  have hsource : d.toSource = "instr 1 do\n  line p4, p5, p6, p7\nend\n" := by decide
  have hd : parse "instr 1 do\n  line p4, p5, p6, p7\nend\n" = .ok d :=
    hsource ▸ parse_toSource (by decide) hend (by decide)
  have hw : words "instr 1 do\n  line p4, p5, p6, p7\nend\n".toList = some w := by decide +kernel
  have hw' : words "instr 1 do # a bar\n\tline p4,p5, \\\n    p6, p7\nend\n".toList = some w := by
    decide +kernel
  obtain ⟨ts, hts, hmap⟩ := (words_eq_some .start).mp hw
  obtain ⟨ts', hts', hmap'⟩ := (words_eq_some .start).mp hw'
  have hvalues : ts.map Located.value = ts'.map Located.value := hmap.trans hmap'.symm
  have hlength : ts.length = ts'.length := by simpa using congrArg List.length hvalues
  have hagree (i : Nat) (t t' : Located Token) (ht : ts[i]? = some t) (ht' : ts'[i]? = some t') :
      t.value.kind = t'.value.kind ∧ t.value.text = t'.value.text := by
    have hi := congrArg (·[i]?) hvalues
    simp only [List.getElem?_map, ht, ht', Option.map_some, Option.some.injEq] at hi
    simp [hi]
  rcases parse_alike_of_tokenize {} hts hts' hlength hagree with h | ⟨fault, fault', hfault, -⟩
  · exact h
  · rw [hd] at hfault
    contradiction

end GraphicScore
