import GraphicScore.Proofs.Reading.Location
import GraphicScore.Proofs.Source.RoundTrip
import GraphicScore.Proofs.Token.Decomposition

/-!
# Places of faults

A source with a fault in its tokens is not read, and what is reported is that fault or one in front of it. If
there is none in the tokens, then one of these is blamed.
-/

namespace GraphicScore

section
variable {source : String} {config : Config} {d : Definitions} {ts : List (Located Token)} {fault : Fault}

theorem exists_tokens_of_parse (h : parse source config = .ok d) : ∃ ts, tokenize source = .ok ts := by
  obtain ⟨ts, hts, -⟩ := parse_iff_scoreWord.mp h
  exact ⟨ts, hts⟩

theorem exists_score_error (h : parse source config = .error fault) :
    ∃ r, Reading.score config (.ofFeed (.ofString source)) = .error fault r := by
  unfold parse Reader.parse at h
  split at h
  · contradiction
  · rename_i r hscore
    cases h
    exact ⟨r, hscore⟩

end

/--
If a source has a fault in its tokens, reading fails with it or blames a token in front of it. Otherwise it
succeeds, or it blames a token.
-/
theorem parse_error_located (source : String) (config : Config) :
    (∀ e, tokenize source = .error e → ∃ ts : List (Located Token),
      ((Feed.ofString source).take (ts.length + 1)).1 = ts.map .ok ++ [.error e] ∧
      (∀ t ∈ ts, t.position.Precedes e.position) ∧
      ∃ fault, parse source config = .error fault ∧
        (fault = e ∨ fault.value.isLexical = false ∧ ∃ t ∈ ts, fault.position = t.position)) ∧
    ∀ ts fault, tokenize source = .ok ts → parse source config = .error fault →
      fault.value.isLexical = false ∧ ∃ t ∈ ts, fault.position = t.position := by
  refine ⟨fun e he => ?_, fun ts fault hts hfault => ?_⟩
  · obtain ⟨ts, last, hruns, hnext⟩ := exists_runs_of_error he
    have hlast : e.position = last.position.past (trivia last.rest).1 := (Cursor.next_eq_error.mp hnext).2
    refine ⟨ts, by rw [← hnext]; exact hruns.take, fun t ht => hlast ▸ (hruns.precedes t ht).past, ?_⟩
    have hleads : (Feed.ofString source).Leads ts (· = e) := by
      refine ⟨ts, _, hruns.answers_eq, fun t ht => ht, ?_⟩
      rw [Feed.head?_answers, Feed.fst_next_ofCursor, hnext]
      simp
    cases hparse : parse source config with
    | ok d =>
      obtain ⟨ts, hts⟩ := exists_tokens_of_parse hparse
      rw [he] at hts
      contradiction
    | error fault =>
      obtain ⟨r, hscore⟩ := exists_score_error hparse
      exact ⟨fault, rfl, isLocated_of_score hleads hscore⟩
  · have hleads : (Feed.ofString source).Leads ts fun _ => False :=
      ⟨ts, [], by rw [Feed.tokens_eq_ok.mp hts, List.append_nil], fun t ht => ht, by simp⟩
    obtain ⟨r, hscore⟩ := exists_score_error hfault
    exact (isLocated_of_score hleads hscore).resolve_left id

theorem parse_error_located_equals :
    ∃ fault, parse "instr 1 do\n  line p4 =" = .error fault ∧
      (fault = ⟨⟨2, 11⟩, .loneEquals⟩ ∨ fault.value.isLexical = false) := by
  have htokens : tokenize "instr 1 do\n  line p4 =" = .error ⟨⟨2, 11⟩, .loneEquals⟩ := by decide +kernel
  obtain ⟨_, -, -, fault, hfault, hlocated⟩ := (parse_error_located _ {}).1 _ htokens
  exact ⟨fault, hfault, hlocated.imp id And.left⟩

end GraphicScore
