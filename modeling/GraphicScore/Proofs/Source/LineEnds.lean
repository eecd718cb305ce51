import GraphicScore.Proofs.Source.Location
import GraphicScore.Proofs.Token.LineEnds
import GraphicScore.Proofs.Token.Order

/-!
# Sources with other line ends

Whether lines end with a newline or with a carriage return and a newline makes no difference to what a source
means. A fault that blames the end of a line is found one column further on, and any other where it was.
-/

namespace GraphicScore

def withReturns (source : String) : String := String.ofList (crlf source.toList)

/-- The second fault is the first one, if the token that it blames stands behind the carriage returns. -/
structure Fault.IsReturned (answers : List Answer) (fault fault' : Fault) : Prop where
  value_eq : fault'.value = fault.value
  position : fault'.position = fault.position ∧ .error fault ∈ answers ∨
    ∃ t, .ok t ∈ answers ∧ fault.position = t.position ∧ fault'.position = t.crlf.position

section
variable (config : Config) (answers : List Answer)

def Simulation.returned : Simulation config config where
  toStricter := .same config
  tokens t t' := t' = t.crlf ∧ .ok t ∈ answers
  feeds f f' := f' = f.crlf ∧ ∀ answer ∈ f.upcoming ++ [f.ending], answer ∈ answers
  faults := Fault.IsReturned answers
  value_eq := by
    rintro t _ ⟨rfl, -⟩
    exact t.value_crlf.symm
  length_eq := by
    rintro f _ ⟨rfl, -⟩
    simp
  next := by
    rintro f _ ⟨rfl, h⟩
    rw [f.next_crlf]
    have hnext := h _ f.next_mem_answers
    have hlater : ∀ answer ∈ f.next.2.upcoming ++ [f.next.2.ending], answer ∈ answers :=
      fun answer hanswer => h answer (f.answers_next hanswer)
    generalize f.next = step at hnext hlater
    obtain ⟨answer, later⟩ := step
    cases answer with
    | ok t => exact .ok ⟨rfl, hnext⟩ ⟨rfl, hlater⟩
    | error fault => exact .error ⟨rfl, .inl ⟨rfl, hnext⟩⟩
  found := by
    rintro t _ cause ⟨rfl, ht⟩ - -
    exact ⟨rfl, .inr ⟨t, ht, rfl, rfl⟩⟩
  unterminated := by
    rintro t _ o _ ⟨rfl, ht⟩ ⟨rfl, -⟩ -
    exact ⟨by rw [o.line_crlf], .inr ⟨t, ht, rfl, rfl⟩⟩

end

section
variable {source : String} {config : Config} {fault fault' : Fault}

theorem ofString_withReturns (h : '\r' ∉ source.toList) :
    Feed.ofString (withReturns source) = (Feed.ofString source).crlf := by
  unfold Feed.ofString Cursor.ofString withReturns
  rw [String.toList_ofList]
  exact Feed.ofCursor_crlf ⟨.start, source.toList⟩ h

theorem Fault.IsReturned.column
    (h : fault.IsReturned ((Feed.ofString source).upcoming ++ [(Feed.ofString source).ending]) fault') :
    fault'.position.line = fault.position.line ∧
      (.ok ⟨fault.position, .newline⟩ ∈ (Feed.ofString source).upcoming →
        fault'.position.column = fault.position.column + 1) ∧
      (.ok ⟨fault.position, .newline⟩ ∉ (Feed.ofString source).upcoming →
        fault'.position.column = fault.position.column) := by
  have hanswers {answer : Answer} (hmem : .ok ⟨fault.position, .newline⟩ ∈ (Feed.ofString source).upcoming)
      (hanswer : answer ∈ (Feed.ofString source).upcoming ++ [(Feed.ofString source).ending])
      (hposition : answer.position = fault.position) : answer = .ok ⟨fault.position, .newline⟩ :=
    Feed.eq_of_position _ hanswer (List.mem_append_left _ hmem) hposition
  obtain ⟨-, ⟨hposition, herror⟩ | ⟨t, ht, hposition, hposition'⟩⟩ := h
  · rw [hposition]
    refine ⟨rfl, fun hmem => ?_, fun _ => rfl⟩
    exact absurd (hanswers hmem herror rfl) (by simp)
  · rw [hposition']
    refine ⟨by rw [t.line_crlf, hposition], fun hmem => ?_, fun hmem => ?_⟩
    · obtain rfl := Except.ok.inj (hanswers hmem ht hposition.symm)
      rfl
    · by_cases hn : t.value = .newline
      · have hunsettled : Answer.settled (.ok t) = false := Answer.not_settled (by simp [hn])
        have hupcoming := Feed.mem_upcoming ht hunsettled
        rw [hposition, ← hn] at hmem
        contradiction
      · rw [Located.crlf, if_neg hn, hposition]

end

/--
With carriage returns in front of its newlines a source is read to the same, or the same is wrong with it: on
the same line, and in the same column unless that is where a newline is.
-/
theorem parse_withReturns {source : String} (config : Config) (h : '\r' ∉ source.toList) :
    (∃ d d', parse source config = .ok d ∧ parse (withReturns source) config = .ok d' ∧ (d == d') = true ∧
      d.toSource = d'.toSource) ∨
    ∃ fault fault', parse source config = .error fault ∧ parse (withReturns source) config = .error fault' ∧
      fault.value.message = fault'.value.message ∧ fault'.position.line = fault.position.line ∧
      (.ok ⟨fault.position, .newline⟩ ∈ (Feed.ofString source).upcoming →
        fault'.position.column = fault.position.column + 1) ∧
      (.ok ⟨fault.position, .newline⟩ ∉ (Feed.ofString source).upcoming →
        fault'.position.column = fault.position.column) := by
  have hfeeds : (Simulation.returned config ((Feed.ofString source).upcoming ++ [(Feed.ofString source).ending])).feeds
      (Feed.ofString source) (Feed.ofString (withReturns source)) := ⟨ofString_withReturns h, fun _ => id⟩
  have houtcome := Reading.score_of_feeds hfeeds
  generalize hx : Reading.score config (.ofFeed (.ofString source)) = x at houtcome
  generalize hy : Reading.score config (.ofFeed (.ofString (withReturns source))) = y at houtcome
  cases houtcome with
  | @ok d r r' hr =>
    have hd := parse_eq_ok.mpr ⟨r, hx⟩
    exact .inl ⟨d, d, hd, parse_eq_ok.mpr ⟨r', hy⟩, beq_self_of_parse hd, rfl⟩
  | @error fault fault' r r' hfault =>
    refine .inr ⟨fault, fault', parse_of_error hx, parse_of_error hy, ?_⟩
    exact ⟨by rw [hfault.value_eq], hfault.column⟩
  | refused hrefused => exact hrefused.elim

theorem parse_withReturns_continued :
    ∃ fault, parse (withReturns "instr 1, \\\n 2 # \\\n") = .error fault ∧ fault.position = ⟨2, 8⟩ ∧
      fault.value.message = "expected 'do' or '\x7b', found end of line" := by
  have hparse : (parse "instr 1, \\\n 2 # \\\n").map (fun _ => ()) = .error ⟨⟨2, 7⟩, .expected .body .newline⟩ := by
    decide +kernel
  have hnewline : .ok ⟨⟨2, 7⟩, .newline⟩ ∈ (Feed.ofString "instr 1, \\\n 2 # \\\n").upcoming := by decide +kernel
  have hreturn : '\r' ∉ "instr 1, \\\n 2 # \\\n".toList := by decide
  rcases parse_withReturns {} hreturn with
    ⟨d, -, hd, -⟩ | ⟨fault, fault', hfault, hfault', hmessage, hline, hcolumn, -⟩
  · rw [hd] at hparse
    contradiction
  · rw [hfault] at hparse
    cases hparse
    have hposition : fault'.position = ⟨fault'.position.line, fault'.position.column⟩ := rfl
    exact ⟨fault', hfault', by rw [hposition, hline, hcolumn hnewline], by rw [← hmessage]; decide⟩

end GraphicScore
