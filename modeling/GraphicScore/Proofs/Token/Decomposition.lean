import GraphicScore.Proofs.Token.Concatenation

/-!
# Texts taken apart

A text is the spelling of its tokens with trivia in front of each and behind the last, and every token is
where it has been found. If a fault comes first, the same is true of everything in front of it.
-/

namespace GraphicScore

/-! ## trivia -/

def blanks : List (List Char) := [[' '], ['\t'], ['\r'], ['\\', '\n'], ['\\', '\r', '\n']]

/-- The characters are trivia if the others stand behind them: a comment goes up to the end of its line. -/
inductive Trivia : List Char → List Char → Prop
  | nil {rest : List Char} : Trivia [] rest
  | blank {piece cs rest : List Char} : piece ∈ blanks → Trivia cs rest → Trivia (piece ++ cs) rest
  | comment {cs rest : List Char} : '\n' ∉ cs → (∀ c ∈ rest.head?, c = '\n') → Trivia ('#' :: cs) rest

theorem trivia_spec (cs : List Char) : Trivia (trivia cs).1 (trivia cs).2 := by
  fun_induction trivia cs with
  | case6 cs =>
    refine .comment (fun h => ?_) fun c hc => ?_
    · simpa using List.mem_takeWhile_imp h
    · simpa [Option.mem_def.mp hc] using List.head?_dropWhile_not (· != '\n') cs
  | case7 => exact .nil
  | _ cs ih => exact .blank (by simp [blanks]) ih

/-! ## lexemes -/

section
variable {cs : List Char} {t : Token} {c : Char}

theorem spelling_of_ofChar? (h : Token.ofChar? c = some t) : t.spelling = [c] := by
  revert h
  fun_cases Token.ofChar? c <;> intro h <;> cases h <;> rfl

theorem taken_eq_spelling (h : (Lexeme.read cs).outcome = .ok t) : (Lexeme.read cs).taken = t.spelling := by
  revert h
  fun_cases Lexeme.read cs with
  | case1 =>
    intro h
    cases h
    rfl
  | case2 c cs t' ht' =>
    intro h
    cases h
    exact (spelling_of_ofChar? ht').symm
  | case3 cs =>
    fun_cases Lexeme.arrow cs with
    | case1 =>
      intro h
      cases h
      rfl
    | case2 =>
      intro h
      cases h
  | case4 cs =>
    simp only [Lexeme.symbol]
    intro h
    by_cases hname : (cs.takeWhile Character.continuesName).isEmpty = true
    · simp [hname] at h
    · simp only [if_neg hname, Except.ok.injEq] at h
      simp [← h, Token.spelling]
  | case5 =>
    simp only [Lexeme.number, Except.ok.injEq]
    intro h
    rw [← h]
    split <;> exact String.toList_ofList.symm
  | case6 =>
    simp only [Lexeme.identifier, Except.ok.injEq]
    intro h
    rw [← h]
    exact String.toList_ofList.symm
  | case7 =>
    intro h
    cases h

theorem isLexical_of_number (digit : c.isDigit = true) (h : (Lexeme.number (c :: cs)).outcome = .ok t) :
    t.isLexical = true := by
  have hagain : Numeral.scan ((Numeral.scan (c :: cs)).1.spelling ++ []) = ((Numeral.scan (c :: cs)).1, []) :=
    Numeral.scan_of_cutOff cutOff_nil
  rw [List.append_nil] at hagain
  obtain ⟨w, hw⟩ := Numeral.exists_spelling_eq_cons digit cs
  unfold Lexeme.number at h
  simp only [Except.ok.injEq] at h
  rw [← h]
  split
  · rename_i hfloat
    simp only [Token.isLexical, String.toList_ofList, hagain, hfloat]
    simp [hw, digit]
  · rename_i hfloat
    -- neither a fraction nor an exponent: the digits are all there is
    have hwhole : (Numeral.scan (c :: cs)).1.spelling = (c :: cs).takeWhile Char.isDigit := by
      simp only [Numeral.isFloat, Bool.or_eq_true, not_or, Option.not_isSome_iff_eq_none] at hfloat
      simp only [Numeral.spelling, hfloat.1, hfloat.2, Option.elim_none, List.append_nil]
      rfl
    rw [Token.isLexical, String.toList_ofList, Bool.and_eq_true, List.all_eq_true]
    exact ⟨by simp [hw], fun d hd => List.mem_takeWhile_imp (hwhole ▸ hd)⟩

theorem isLexical_of_read (h : (Lexeme.read cs).outcome = .ok t) (ht : t ≠ .endOfInput) :
    t.isLexical = true := by
  cases t with
  | identifier name => exact isNamed_of_read h
  | symbol name => exact isNamed_of_read h
  | endOfInput => contradiction
  | integer | float =>
    revert h
    fun_cases Lexeme.read cs with
    | case5 c cs _ _ _ digit => exact isLexical_of_number digit
    | case2 c cs t' ht' =>
      intro h
      cases h
      revert ht'
      fun_cases Token.ofChar? c <;> intro h <;> cases h
    | case3 cs => fun_cases Lexeme.arrow cs <;> intro h <;> cases h
    | case4 cs =>
      simp only [Lexeme.symbol]
      split <;> simp
    | _ => simp [Lexeme.identifier]
  | _ => rfl

end

/-! ## faults -/

/-- What is wrong with a character and those behind it, if no lexeme begins there. -/
inductive Offends : Char → List Char → Cause → Prop
  | loneEquals {rest : List Char} : rest.head? ≠ some '>' → Offends '=' rest .loneEquals
  | namelessSymbol {rest : List Char} :
    (∀ c ∈ rest.head?, Character.continuesName c = false) → Offends ':' rest .namelessSymbol
  | unexpectedCharacter {c : Char} {rest : List Char} :
    (∀ t : Token, t.isLexical = true → t.spelling.head? ≠ some c) →
    (∀ gap rest', Trivia gap rest' → gap ++ rest' = c :: rest → gap = []) →
    Offends c rest (.unexpectedCharacter c)

section
variable {cs gap rest : List Char} {t : Token} {c : Char} {cause : Cause}

theorem trivia_trivia (cs : List Char) : (trivia (trivia cs).2).1 = [] := by
  fun_induction trivia cs with
  | case6 cs =>
    show (trivia (cs.dropWhile (· != '\n'))).1 = []
    have hstop := List.head?_dropWhile_not (· != '\n') cs
    cases hdrop : cs.dropWhile (· != '\n') with
    | nil => rfl
    | cons c rest =>
      obtain rfl : c = '\n' := by simpa [hdrop] using hstop
      rfl
  | case7 cs =>
    rw [trivia] <;> assumption
  | _ cs ih => exact ih

theorem Trivia.eq_nil (h : Trivia gap rest) (ht : (trivia (gap ++ rest)).1 = []) : gap = [] := by
  cases h with
  | nil => rfl
  | @blank piece cs rest hp _ =>
    simp only [blanks, List.mem_cons, List.not_mem_nil, or_false] at hp
    rcases hp with rfl | rfl | rfl | rfl | rfl <;> simp [trivia, trivia.skip] at ht
  | comment => simp [trivia] at ht

theorem starts_of_isLexical (h : t.isLexical = true) (hc : t.spelling.head? = some c) :
    (Token.ofChar? c).isSome = true ∨ c = '=' ∨ c = ':' ∨ c.isDigit = true ∨ Character.startsName c = true := by
  cases t with
  | identifier name =>
    obtain ⟨c', cs, hname, hstart, -⟩ := isIdentifier_iff.mp h
    simp_all [Token.spelling, Token.text]
  | integer digits =>
    simp only [Token.isLexical, Bool.and_eq_true, List.all_eq_true] at h
    exact .inr (.inr (.inr (.inl (h.2 c (List.mem_of_head? hc)))))
  | float text =>
    simp only [Token.isLexical, Bool.and_eq_true, Option.any_eq_true] at h
    obtain ⟨⟨⟨c', hc', digit⟩, -⟩, -⟩ := h
    simp_all [Token.spelling, Token.text]
  | symbol name =>
    cases hc
    exact .inr (.inr (.inl rfl))
  | endOfInput => contradiction
  | _ =>
    cases hc
    decide

theorem offends_of_read (ht : (trivia cs).1 = []) (h : (Lexeme.read cs).outcome = .error cause) :
    ∃ c rest, cs = c :: rest ∧ Offends c rest cause := by
  revert h ht
  fun_cases Lexeme.read cs with
  | case3 cs =>
    fun_cases Lexeme.arrow cs with
    | case1 => simp
    | case2 cs hne =>
      intro _ h
      cases h
      refine ⟨_, _, rfl, .loneEquals fun hhead => ?_⟩
      obtain ⟨cs', rfl⟩ := List.head?_eq_some_iff.mp hhead
      exact hne _ rfl
  | case4 cs =>
    simp only [Lexeme.symbol]
    intro _ h
    split at h
    · rename_i hname
      cases h
      refine ⟨_, _, rfl, .namelessSymbol fun c hc => ?_⟩
      obtain ⟨cs', rfl⟩ := List.head?_eq_some_iff.mp hc
      cases hcont : Character.continuesName c with
      | false => rfl
      | true => simp [hcont] at hname
    · cases h
  | case7 c cs hchar heq hcolon digit hstart =>
    intro ht h
    cases h
    refine ⟨_, _, rfl, .unexpectedCharacter (fun t hlex hhead => ?_) fun gap rest hgap hsplit => ?_⟩
    · have := starts_of_isLexical hlex hhead
      simp_all
    · rw [← hsplit] at ht
      exact hgap.eq_nil ht
  | _ => simp [Lexeme.number, Lexeme.identifier]

end

/-! ## texts -/

/--
`Spelt front cs ts rest`: the text `cs` consists of the spellings of the tokens, each with trivia in front,
and every token is where its spelling begins if the text stands between the two others.
-/
inductive Spelt : List Char → List Char → List (Located Token) → List Char → Prop
  | nil {front rest : List Char} : Spelt front [] [] rest
  | cons {front gap cs rest : List Char} {t : Token} {ts : List (Located Token)} :
    Trivia gap (t.spelling ++ (cs ++ rest)) → t.isLexical = true →
    Spelt (front ++ (gap ++ t.spelling)) cs ts rest →
    Spelt front (gap ++ t.spelling ++ cs) (⟨.behind (front ++ gap), t⟩ :: ts) rest

namespace Cursor

section
variable {c c' : Cursor} {ts : List (Located Token)} {front : List Char}

theorem Runs.spelt (h : c.Runs ts c') (hp : c.position = .behind front) :
    ∃ cs, c.rest = cs ++ c'.rest ∧ c'.position = .behind (front ++ cs) ∧ Spelt front cs ts c'.rest := by
  induction h generalizing front with
  | nil c => exact ⟨[], rfl, by rw [hp, List.append_nil], .nil⟩
  | @cons c c₁ c' found ts hnext ht _ ih =>
    obtain ⟨position, t⟩ := found
    obtain ⟨ho, rfl, hlater, hrest⟩ := next_eq_ok.mp hnext
    have hread := Lexeme.taken_append_rest (trivia c.rest).2
    have hgap := trivia_spec c.rest
    have hsplit := trivia_append c.rest
    rw [taken_eq_spelling ho] at hread hlater
    generalize (trivia c.rest).1 = gap at *
    rw [hp, Position.past_behind, Position.past_behind] at hlater
    obtain ⟨cs, hcs, hlast, hspelt⟩ := ih hlater
    rw [← hrest, hcs] at hread
    rw [← hread] at hgap hsplit
    refine ⟨gap ++ t.spelling ++ cs, by simp [← hsplit], by simp [hlast], ?_⟩
    rw [hp, Position.past_behind]
    rw [List.append_assoc] at hspelt
    exact .cons hgap (isLexical_of_read ho ht) hspelt

theorem Runs.precedes (h : c.Runs ts c') : ∀ t ∈ ts, t.position.Precedes c'.position := by
  induction h with
  | nil c => exact List.forall_mem_nil _
  | @cons c c₁ c' found ts hnext ht hruns ih =>
    obtain ⟨ho, -, hlater, -⟩ := next_eq_ok.mp hnext
    obtain ⟨s, -, hlast⟩ := hruns.exists_rest
    have htaken : (Lexeme.read (trivia c.rest).2).taken ≠ [] := by
      refine Lexeme.taken_ne_nil _ ?_
      rw [ho]
      exact Answer.not_settled ht
    have hfound : found.position.Precedes c₁.position := hlater ▸ Position.precedes_past htaken
    exact List.forall_mem_cons.mpr ⟨hlast ▸ hfound.past, ih⟩

theorem exists_runs_last (c : Cursor) :
    ∃ ts c', c.Runs ts c' ∧ ∀ found, c'.next.1 = .ok found → found.value = .endOfInput := by
  induction hk : c.rest.length using Nat.strongRecOn generalizing c with
  | ind k ih =>
    by_cases hlast : ∀ found, c.next.1 = .ok found → found.value = .endOfInput
    · exact ⟨[], c, .nil c, hlast⟩
    · simp only [not_forall] at hlast
      obtain ⟨found, hfound, ht⟩ := hlast
      have hn : c.next.1.settled = false := by
        rw [hfound]
        exact Answer.not_settled ht
      obtain ⟨ts, c', hruns, hlast⟩ := ih _ (hk ▸ c.length_next_lt hn) c.next.2 rfl
      exact ⟨found :: ts, c', .cons (Prod.ext hfound rfl) ht hruns, hlast⟩

theorem of_next_end {found : Located Token} (h : c.next.1 = .ok found) (hend : found.value = .endOfInput)
    (hp : c.position = .behind front) :
    Trivia c.rest [] ∧ found = ⟨.behind (front ++ c.rest), .endOfInput⟩ := by
  obtain ⟨ho, hfound, -, -⟩ := next_eq_ok.mp (Prod.ext h rfl)
  have hgap := trivia_spec c.rest
  have hsplit := trivia_append c.rest
  rw [hend] at ho
  rw [eq_nil_of_read_end ho] at hgap hsplit
  rw [List.append_nil] at hsplit
  rw [hsplit] at hgap hfound
  rw [hp, Position.past_behind] at hfound
  exact ⟨hgap, by rw [← hfound, ← hend]⟩

theorem of_next_error {fault : Fault} (h : c.next.1 = .error fault) (hp : c.position = .behind front) :
    ∃ gap a rest, c.rest = gap ++ a :: rest ∧ Trivia gap (a :: rest) ∧ Offends a rest fault.value ∧
      fault.position = .behind (front ++ gap) := by
  obtain ⟨ho, hposition⟩ := next_eq_error.mp h
  obtain ⟨a, rest, hrest, hoffends⟩ := offends_of_read (trivia_trivia c.rest) ho
  have hgap := trivia_spec c.rest
  have hsplit := trivia_append c.rest
  rw [hrest] at hgap hsplit
  rw [hp, Position.past_behind] at hposition
  exact ⟨_, a, rest, hsplit.symm, hgap, hoffends, hposition⟩

end

end Cursor

section
variable {source : String} {ts : List (Located Token)} {fault : Fault}

theorem exists_runs_tokenize (source : String) :
    ∃ ks last, (Cursor.ofString source).Runs ks last ∧
      ((∃ found, last.next.1 = .ok found ∧ found.value = .endOfInput ∧ tokenize source = .ok (ks ++ [found])) ∨
        ∃ fault, last.next.1 = .error fault ∧ tokenize source = .error fault) := by
  obtain ⟨ks, last, hruns, hlast⟩ := Cursor.exists_runs_last (.ofString source)
  have htokens : tokenize source = (Feed.ofCursor last).tokens.map (ks ++ ·) := hruns.tokens_eq
  have hhead := Feed.fst_next_ofCursor last
  refine ⟨ks, last, hruns, ?_⟩
  cases hnext : last.next.1 with
  | ok found =>
    rw [Feed.tokens_of_end (hhead.trans hnext) (hlast found hnext)] at htokens
    exact .inl ⟨found, rfl, hlast found hnext, htokens⟩
  | error fault =>
    rw [Feed.tokens_of_error (hhead.trans hnext)] at htokens
    exact .inr ⟨fault, rfl, htokens⟩

theorem exists_runs_of_tokens (h : tokenize source = .ok ts) :
    ∃ ks last found, (Cursor.ofString source).Runs ks last ∧ last.next.1 = .ok found ∧
      found.value = .endOfInput ∧ ts = ks ++ [found] := by
  obtain ⟨ks, last, hruns, ⟨found, hnext, hend, htokens⟩ | ⟨fault, -, htokens⟩⟩ := exists_runs_tokenize source
  · cases h.symm.trans htokens
    exact ⟨ks, last, found, hruns, hnext, hend, rfl⟩
  · cases h.symm.trans htokens

theorem exists_runs_of_error (h : tokenize source = .error fault) :
    ∃ ks last, (Cursor.ofString source).Runs ks last ∧ last.next.1 = .error fault := by
  obtain ⟨ks, last, hruns, ⟨found, -, -, htokens⟩ | ⟨fault, hnext, htokens⟩⟩ := exists_runs_tokenize source
  · cases h.symm.trans htokens
  · cases h.symm.trans htokens
    exact ⟨ks, last, hruns, hnext⟩

end

/--
The tokens of a text are spelt in it one after the other, with nothing but trivia between them, and so are
those in front of the character that a fault blames.
-/
theorem tokenize_spelt (source : String) :
    (∀ ts, tokenize source = .ok ts → ∃ ks cs gap,
      ts = ks ++ [⟨.behind source.toList, .endOfInput⟩] ∧ source.toList = cs ++ gap ∧
        Spelt [] cs ks gap ∧ Trivia gap []) ∧
    ∀ fault, tokenize source = .error fault → ∃ ks cs gap c rest,
      ((Feed.ofString source).take (ks.length + 1)).1 = ks.map .ok ++ [.error fault] ∧
        source.toList = cs ++ (gap ++ c :: rest) ∧ Spelt [] cs ks (gap ++ c :: rest) ∧ Trivia gap (c :: rest) ∧
        Offends c rest fault.value ∧ fault.position = .behind (cs ++ gap) := by
  refine ⟨fun ts h => ?_, fun fault h => ?_⟩
  · obtain ⟨ks, last, found, hruns, hnext, hend, rfl⟩ := exists_runs_of_tokens h
    obtain ⟨cs, hsource, hp, hspelt⟩ := hruns.spelt Position.behind_nil.symm
    have hsource : source.toList = cs ++ last.rest := hsource
    obtain ⟨hgap, rfl⟩ := Cursor.of_next_end hnext hend hp
    exact ⟨ks, cs, last.rest, by rw [hsource]; rfl, hsource, hspelt, hgap⟩
  · obtain ⟨ks, last, hruns, hnext⟩ := exists_runs_of_error h
    obtain ⟨cs, hsource, hp, hspelt⟩ := hruns.spelt Position.behind_nil.symm
    obtain ⟨gap, c, rest, hrest, hgap, hoffends, hposition⟩ := Cursor.of_next_error hnext hp
    rw [hrest] at hsource hspelt
    exact ⟨ks, cs, gap, c, rest, by rw [← hnext]; exact hruns.take, hsource, hspelt, hgap, hoffends, hposition⟩

end GraphicScore
