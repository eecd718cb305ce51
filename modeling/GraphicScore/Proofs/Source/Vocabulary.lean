import GraphicScore.Proofs.Reading.Checking
import GraphicScore.Proofs.Reading.Refusal
import GraphicScore.Proofs.Source.Location

/-!
# Scores under a vocabulary

To check converters against a vocabulary is to read the score without a check and to look at its calls
afterwards, one after the other. Faults of the score itself may be found behind a call, and then either is
reported.
-/

namespace GraphicScore

section
variable {source : String} {config : Config} {d : Definitions} {ts : List (Located Token)} {position : Position}
  {name : String} {f : Feed}

theorem refuses_of_parse (hts : tokenize source = .ok ts)
    (h : parse source config = .error ⟨position, .unknownConverter name⟩) :
    (Feed.ofString source).Refuses config position name := by
  obtain ⟨r, hscore⟩ := exists_score_error h
  unfold tokenize at hts
  generalize Feed.ofString source = f at hts hscore ⊢
  cases hnext : f.next with
  | mk answer f' =>
    cases answer with
    | error fault =>
      rw [Feed.tokens_of_error (congrArg Prod.fst hnext)] at hts
      contradiction
    | ok t =>
      have hadvance : Reading.advance (.ofFeed f) = .ok () ⟨t, none, f', 0, ()⟩ :=
        Reading.advance_eq_ok.mpr (.inr ⟨rfl, t, by rw [Reader.ofFeed, hnext], by rw [Reader.ofFeed, hnext]⟩)
      have hstart : Reader.At config f .idle ⟨t, none, f', 0, ()⟩ := ⟨[], .nil, .cons hnext (.nil f')⟩
      rw [Reading.score_ofFeed hadvance] at hscore
      cases explains_of_score hstart hscore with
      | answered hanswers hfault =>
        obtain ⟨us, hus⟩ := hanswers.exists_tokens hts
        rw [Feed.tokens_of_error hfault] at hus
        contradiction
      | other hcause => contradiction
      | refused hrefuses => exact hrefuses

/-- The call that is refused is the first of the source that is not admitted. -/
theorem Feed.Refuses.find?_calls (h : f.Refuses config position name) (hts : f.tokens = .ok ts) :
    (calls ts).find? (fun t => !config.admits t.value.text) = some ⟨position, .identifier name⟩ := by
  obtain ⟨w, opening, f', hanswers, hopening, hw⟩ := h.answers
  obtain ⟨us, rfl⟩ := (List.append_cons w _ [opening] ▸ hanswers).exists_eq_append (by simp [hopening]) hts
  have hafter : Place.due.after Located.value ⟨position, .identifier name⟩ =
      .named ⟨position, .identifier name⟩ := by
    simp [Place.after, h.callee]
  have hcalls : calls (w ++ [⟨position, .identifier name⟩] ++ opening :: us) =
      calls w ++ ⟨position, .identifier name⟩ :: Place.callsFrom Located.value .due us := by
    have hcalled : (Place.named ⟨position, .identifier name⟩).called Located.value opening =
        [⟨position, .identifier name⟩] := by
      simp [Place.called, hopening]
    have hdue : (Place.named ⟨position, .identifier name⟩).after Located.value opening = .due := by
      rw [Place.after_named, hopening]
      rfl
    rw [List.append_assoc, List.singleton_append, calls, Place.callsFrom_append, hw.along, Place.callsFrom_cons,
      hafter, Place.callsFrom_cons, hcalled, hdue]
    rfl
  rw [hcalls, List.find?_eq_some_iff_append]
  refine ⟨by simp [Token.text, h.refused], calls w, _, rfl, fun t ht => ?_⟩
  simp [hw.admitted t ht]

theorem calls_of_parse (h : parse source config = .ok d) :
    (∃ ts, tokenize source = .ok ts ∧ (calls ts).map Located.value = d.converterNames.map .identifier) ∧
      ∀ name ∈ d.converterNames, config.admits name = true := by
  obtain ⟨ts, hts, hword⟩ := parse_iff_scoreWord.mp h
  obtain ⟨-, hcalls, hadmitted⟩ := hword.calls
  exact ⟨⟨ts, hts, Place.callsFrom_map.symm.trans hcalls⟩, hadmitted⟩

variable {v : Vocabulary}

theorem admits_record : Config.admits ⟨v, .record⟩ name = true := Config.admits_iff.mpr (.inl rfl)

theorem admits_reject : Config.admits ⟨v, .reject⟩ name = v.contains name := rfl

theorem parse_record_eq (source : String) (v v' : Vocabulary) :
    parse source ⟨v, .record⟩ = parse source ⟨v', .record⟩ := by
  rcases parse_stricter (fun _ _ => admits_record) source with h | ⟨_, _, -, hrefused, -⟩
  · exact h
  · rw [admits_record] at hrefused
    contradiction

theorem parse_reject_eq_or (source : String) (v : Vocabulary) :
    parse source ⟨v, .reject⟩ = parse source ⟨v, .record⟩ ∨
      ∃ position name, v.contains name = false ∧
        parse source ⟨v, .reject⟩ = .error ⟨position, .unknownConverter name⟩ := by
  rcases parse_stricter (fun _ _ => admits_record) source with h | ⟨position, name, -, hrefused, h⟩
  · exact .inl h
  · exact .inr ⟨position, name, hrefused, h⟩

end

/--
Without a check the vocabulary is no matter. With it, a score is read as without if all its converters are in
the vocabulary, and otherwise the first call of one that is not is refused. What could not be read before
cannot be read.
-/
theorem parse_reject (source : String) (v v' : Vocabulary) :
    parse source ⟨v, .record⟩ = parse source ⟨v', .record⟩ ∧
    (∀ d, parse source ⟨v, .record⟩ = .ok d →
      ((∀ name ∈ d.converterNames, v.contains name = true) → parse source ⟨v, .reject⟩ = .ok d) ∧
      ((∃ name ∈ d.converterNames, v.contains name = false) →
        ∃ ts t name, tokenize source = .ok ts ∧
          (calls ts).map Located.value = d.converterNames.map .identifier ∧
          (calls ts).find? (fun t => !v.contains t.value.text) = some t ∧ t.value = .identifier name ∧
          parse source ⟨v, .reject⟩ = .error ⟨t.position, .unknownConverter name⟩ ∧
          (Cause.unknownConverter name).message = s!"unknown converter '{name}'")) ∧
    ∀ e, parse source ⟨v, .record⟩ = .error e →
      parse source ⟨v, .reject⟩ = .error e ∨
        ∃ position name, v.contains name = false ∧
          parse source ⟨v, .reject⟩ = .error ⟨position, .unknownConverter name⟩ := by
  refine ⟨parse_record_eq source v v', fun d hd => ?_, fun e he => ?_⟩
  · obtain ⟨⟨ts, hts, hcalls⟩, -⟩ := calls_of_parse hd
    rcases parse_reject_eq_or source v with h | ⟨position, name, hname, h⟩
    · rw [hd] at h
      refine ⟨fun _ => h, fun ⟨name, hmem, hname⟩ => ?_⟩
      have hadmits := (calls_of_parse h).2 name hmem
      rw [admits_reject, hname] at hadmits
      contradiction
    · have hfind := (refuses_of_parse hts h).find?_calls hts
      refine ⟨fun hnames => ?_, fun _ => ⟨ts, _, name, hts, hcalls, hfind, rfl, h, rfl⟩⟩
      have hmem : Token.identifier name ∈ (calls ts).map Located.value :=
        List.mem_map_of_mem (List.mem_of_find?_eq_some hfind)
      rw [hcalls, List.mem_map] at hmem
      obtain ⟨_, hmem, ⟨⟩⟩ := hmem
      rw [hnames name hmem] at hname
      contradiction
  · rcases parse_reject_eq_or source v with h | h
    · exact .inl (h.trans he)
    · exact .inr h

theorem parse_reject_nested :
    parse "instr 1 do\n  line ampdb(foo(bar(p4))), p5, p6, p7\nend\n" ⟨.csound, .reject⟩ =
      .error ⟨⟨2, 14⟩, .unknownConverter "foo"⟩ := by
  let e : Expr := .pField 4 [⟨"ampdb"⟩, ⟨"foo"⟩, ⟨"bar"⟩]
  let d : Definitions := ⟨[⟨[1], ⟨[.line ⟨e, .pField 5 [], .pField 6 [], .pField 7 [], .empty⟩]⟩⟩]⟩
  have hend : ∀ b ∈ d.blocks, ∀ f ∈ b.instrument.features, f.beginsWithEnd = false := by decide
  have hsource : d.toSource = "instr 1 do\n  line ampdb(foo(bar(p4))), p5, p6, p7\nend\n" := by decide
  have hd : parse "instr 1 do\n  line ampdb(foo(bar(p4))), p5, p6, p7\nend\n" ⟨.csound, .record⟩ = .ok d :=
    hsource ▸ parse_toSource (by decide) hend (by decide)
  have hcalls : (tokenize "instr 1 do\n  line ampdb(foo(bar(p4))), p5, p6, p7\nend\n").toOption.map calls =
      some [⟨⟨2, 8⟩, .identifier "ampdb"⟩, ⟨⟨2, 14⟩, .identifier "foo"⟩, ⟨⟨2, 18⟩, .identifier "bar"⟩] := by
    decide +kernel
  obtain ⟨ts, t, name, hts, -, hfind, ht, herror, -⟩ :=
    ((parse_reject _ .csound .csound).2.1 d hd).2 ⟨"foo", by decide, by decide⟩
  have hfoo : ([⟨⟨2, 8⟩, .identifier "ampdb"⟩, ⟨⟨2, 14⟩, .identifier "foo"⟩, ⟨⟨2, 18⟩, .identifier "bar"⟩] :
      List (Located Token)).find? (fun t => !Vocabulary.csound.contains t.value.text) =
        some ⟨⟨2, 14⟩, .identifier "foo"⟩ := by
    decide
  rw [hts] at hcalls
  rw [Option.some.inj hcalls] at hfind
  cases Option.some.inj (hfind.symm.trans hfoo)
  cases ht
  exact herror

end GraphicScore
