import GraphicScore.Proofs.Token.Decomposition

/-!
# Line ends

With a carriage return in front of every newline a text has the same answers, and only its newlines are
found one column further on.
-/

namespace GraphicScore

/-- The text with a carriage return in front of every newline. -/
def crlf (cs : List Char) : List Char := cs.flatMap fun c => if c = '\n' then ['\r', '\n'] else [c]

section
variable {c : Char} {cs : List Char} {p : Char → Bool} {q : Position}

theorem crlf_newline : crlf ('\n' :: cs) = '\r' :: '\n' :: crlf cs := rfl

theorem crlf_cons (h : c ≠ '\n') : crlf (c :: cs) = c :: crlf cs := by
  simp [crlf, h]

/-- In front a newline has become a carriage return. -/
theorem mem_head?_crlf (h : c ∈ (crlf cs).head?) : c = '\r' ∨ c ∈ cs.head? := by
  cases cs with
  | nil => contradiction
  | cons d cs =>
    by_cases hd : d = '\n'
    · subst hd
      cases h
      exact .inl rfl
    · rw [crlf_cons hd] at h
      exact .inr h

/-- Places behind the text are the same. -/
theorem past_crlf : q.past (crlf cs) = q.past cs := by
  induction cs generalizing q with
  | nil => rfl
  | cons c cs ih =>
    by_cases hc : c = '\n'
    · subst hc
      exact ih
    · rw [crlf_cons hc]
      exact ih

section
variable (hreturn : p '\r' = false) (hnewline : p '\n' = false)
include hreturn hnewline

theorem takeWhile_crlf (cs : List Char) : (crlf cs).takeWhile p = cs.takeWhile p := by
  induction cs with
  | nil => rfl
  | cons c cs ih =>
    by_cases hc : c = '\n'
    · simp [hc, crlf_newline, hreturn, hnewline]
    · rw [crlf_cons hc, List.takeWhile_cons, List.takeWhile_cons, ih]

theorem dropWhile_crlf (cs : List Char) : (crlf cs).dropWhile p = crlf (cs.dropWhile p) := by
  induction cs with
  | nil => rfl
  | cons c cs ih =>
    by_cases hc : c = '\n'
    · simp [hc, crlf_newline, hreturn, hnewline]
    · rw [crlf_cons hc, List.dropWhile_cons, List.dropWhile_cons, ih]
      split
      · rfl
      · rw [crlf_cons hc]

theorem head?_any_crlf (cs : List Char) : (crlf cs).head?.any p = cs.head?.any p := by
  cases cs with
  | nil => rfl
  | cons c cs =>
    by_cases hc : c = '\n'
    · simp [hc, crlf_newline, hreturn, hnewline]
    · rw [crlf_cons hc]
      rfl

end

end

/-! ## numerals -/

namespace Numeral

theorem scanFraction_crlf (cs : List Char) :
    scanFraction (crlf cs) = ((scanFraction cs).1, crlf (scanFraction cs).2) := by
  by_cases hpoint : cs.head? = some '.'
  · obtain ⟨cs, rfl⟩ := List.head?_eq_some_iff.mp hpoint
    have hcrlf : crlf ('.' :: cs) = '.' :: crlf cs := crlf_cons (by decide)
    have hhead : (crlf cs).head?.any Char.isDigit = cs.head?.any Char.isDigit := head?_any_crlf rfl rfl cs
    by_cases digit : cs.head?.any Char.isDigit = true
    · rw [hcrlf, scanFraction_point (hhead.trans digit), scanFraction_point digit, takeWhile_crlf rfl rfl,
        dropWhile_crlf rfl rfl]
    · rw [hcrlf, scanFraction_point_of_no_digit (hhead ▸ digit), scanFraction_point_of_no_digit digit, hcrlf]
  · rw [scanFraction_of_ne_point fun c hc e => hpoint (e ▸ hc), scanFraction_of_ne_point]
    intro c hc
    rcases mem_head?_crlf hc with rfl | hc
    · decide
    · exact fun e => hpoint (e ▸ hc)

theorem scanExponent_crlf (cs : List Char) :
    scanExponent (crlf cs) = ((scanExponent cs).1, crlf (scanExponent cs).2) := by
  have hhead (cs : List Char) : (crlf cs).head?.any Char.isDigit = cs.head?.any Char.isDigit :=
    head?_any_crlf rfl rfl cs
  have hn {mark : Char} (hmark : (decide (mark = 'e') || decide (mark = 'E')) = true) : mark ≠ '\n' := by
    rintro rfl
    contradiction
  fun_cases scanExponent cs with
  | case1 mark c cs hmark digit =>
    have hdigit : (c :: cs).head?.any Char.isDigit = true := digit
    rw [crlf_cons (hn hmark), scanExponent_mark hmark ((hhead _).trans hdigit), takeWhile_crlf rfl rfl,
      dropWhile_crlf rfl rfl]
  | case2 mark c cs hmark digit hsign =>
    rw [Bool.and_eq_true] at hsign
    have hc : c ≠ '\n' := by
      rintro rfl
      simp at hsign
    rw [crlf_cons (hn hmark), crlf_cons hc, scanExponent_sign hmark hsign.1 ((hhead _).trans hsign.2),
      takeWhile_crlf rfl rfl, dropWhile_crlf rfl rfl]
  | case3 mark c cs hmark digit hsign =>
    by_cases hc : c = '\n'
    · simp [hc, crlf_cons (hn hmark), crlf_newline, scanExponent]
    · simp [crlf_cons (hn hmark), crlf_cons hc, scanExponent, digit, hhead, hsign]
  | case4 mark c cs hmark =>
    refine scanExponent_of_no_mark ?_
    intro d hd
    rcases mem_head?_crlf hd with rfl | hd
    · decide
    · cases hd
      simpa using hmark
  | case5 cs hshort =>
    cases cs with
    | nil => rfl
    | cons mark cs =>
      cases cs with
      | nil =>
        by_cases hc : mark = '\n'
        · rw [hc]
          rfl
        · rw [crlf_cons hc]
          rfl
      | cons c cs => exact absurd rfl (hshort mark c cs)

theorem scan_crlf (cs : List Char) : scan (crlf cs) = ((scan cs).1, crlf (scan cs).2) := by
  simp only [scan, takeWhile_crlf (p := Char.isDigit) rfl rfl, dropWhile_crlf (p := Char.isDigit) rfl rfl,
    scanFraction_crlf, scanExponent_crlf]

end Numeral

/-! ## lexemes -/

namespace Lexeme

def crlf (l : Lexeme) : Lexeme := ⟨l.outcome, l.taken, GraphicScore.crlf l.rest⟩

theorem arrow_crlf (cs : List Char) : arrow (GraphicScore.crlf cs) = (arrow cs).crlf := by
  cases cs with
  | nil => rfl
  | cons c cs =>
    by_cases hn : c = '\n'
    · rw [hn]
      rfl
    · rw [crlf_cons hn]
      by_cases hc : c = '>'
      · rw [hc]
        rfl
      · simp [arrow, hc, crlf, crlf_cons hn]

theorem read_crlf {cs : List Char} (h : cs.head? ≠ some '\n') : read (GraphicScore.crlf cs) = (read cs).crlf := by
  have hreturn : Character.continuesName '\r' = false := by decide
  have hnewline : Character.continuesName '\n' = false := by decide
  cases cs with
  | nil => rfl
  | cons c cs =>
    have hc : c ≠ '\n' := by simpa using h
    have htake := takeWhile_crlf hreturn hnewline
    have hdrop := dropWhile_crlf hreturn hnewline
    have hnumber : number (GraphicScore.crlf (c :: cs)) = (number (c :: cs)).crlf := by
      unfold number
      rw [Numeral.scan_crlf]
      rfl
    have hidentifier : identifier (GraphicScore.crlf (c :: cs)) = (identifier (c :: cs)).crlf := by
      unfold identifier
      rw [htake, hdrop]
      rfl
    have hsymbol : symbol (GraphicScore.crlf cs) = (symbol cs).crlf := by
      unfold symbol
      rw [htake, hdrop]
      rfl
    rw [crlf_cons hc] at hnumber hidentifier ⊢
    simp only [read]
    cases Token.ofChar? c with
    | some t => rfl
    | none =>
      simp only [arrow_crlf, hsymbol, hnumber, hidentifier, apply_ite crlf]
      simp only [crlf, crlf_cons hc]

end Lexeme

/-! ## trivia -/

section
variable {cs : List Char}

/-- A comment takes the carriage return at the end of its line. -/
theorem comment_crlf (cs : List Char) :
    (crlf cs).takeWhile (· != '\n') =
        crlf (cs.takeWhile (· != '\n')) ++ (trivia (crlf (cs.dropWhile (· != '\n')))).1 ∧
      (crlf cs).dropWhile (· != '\n') = (trivia (crlf (cs.dropWhile (· != '\n')))).2 := by
  induction cs with
  | nil => exact ⟨rfl, rfl⟩
  | cons c cs ih =>
    by_cases hc : c = '\n'
    · subst hc
      exact ⟨rfl, rfl⟩
    · simpa [crlf_cons hc, hc] using ih

theorem trivia_crlf (h : '\r' ∉ cs) :
    trivia (crlf cs) = trivia.skip (crlf (trivia cs).1) (trivia (crlf (trivia cs).2)) := by
  fun_induction trivia cs with
  | case1 cs ih =>
    rw [crlf_cons (by decide), trivia, ih (by simpa using h)]
    rfl
  | case2 cs ih =>
    rw [crlf_cons (by decide), trivia, ih (by simpa using h)]
    rfl
  | case4 cs ih =>
    have := ih (by simpa using h)
    rw [crlf_cons (by decide), crlf_newline, trivia, this]
    rfl
  | case6 cs =>
    obtain ⟨htake, hdrop⟩ := comment_crlf cs
    rw [crlf_cons (by decide), trivia, htake, hdrop, trivia.skip, crlf_cons (by decide)]
    rfl
  | case7 => rfl
  | case5 => simp at h
  | case3 => simp at h

theorem trivia_crlf_of_nil (h : '\r' ∉ cs) (ht : (trivia cs).1 = []) (hn : cs.head? ≠ some '\n') :
    trivia (crlf cs) = ([], crlf cs) := by
  fun_cases trivia cs with
  | case7 cs hspace htab hreturn hline hreturned hcomment =>
    cases cs with
    | nil => rfl
    | cons c cs =>
      have hc : c ≠ '\n' := by simpa using hn
      rw [crlf_cons hc]
      by_cases hb : c = '\\'
      · subst hb
        cases cs with
        | nil => rfl
        | cons d cs =>
          have hd : d ≠ '\n' := fun e => hline cs (e ▸ rfl)
          have hr : d ≠ '\r' := fun e => h (by simp [e])
          rw [crlf_cons hd, trivia.eq_7] <;> simp [hd, hr]
      · have := hspace cs
        simp_all [trivia]
  | case6 => simp [trivia] at ht
  | _ => simp [trivia, trivia.skip] at ht

end

/-! ## answers -/

/-- Where the token is behind the carriage returns. -/
def Located.crlf (found : Located Token) : Located Token :=
  if found.value = .newline then ⟨found.position.after '\r', found.value⟩ else found

def Answer.crlf : Answer → Answer := Except.map Located.crlf

section
variable {answer : Answer} {found : Located Token} {cs : List Char}

theorem Located.value_crlf (found : Located Token) : found.crlf.value = found.value := by
  unfold crlf
  split <;> rfl

theorem Located.line_crlf (found : Located Token) : found.crlf.position.line = found.position.line := by
  unfold crlf
  split <;> rfl

theorem Answer.settled_crlf (answer : Answer) : answer.crlf.settled = answer.settled := by
  cases answer with
  | error fault => rfl
  | ok found => exact congrArg (fun t => Lexeme.settles (.ok t)) found.value_crlf

theorem Answer.crlf_of {p : Position} {outcome : Except Cause Token} (h : outcome ≠ .ok .newline) :
    (Answer.of p outcome).crlf = Answer.of p outcome := by
  cases outcome with
  | error cause => rfl
  | ok t =>
    have ht : t ≠ .newline := fun e => h (e ▸ rfl)
    simp [Answer.of, crlf, Except.map, Located.crlf, ht]

theorem Lexeme.head?_of_newline (h : (read cs).outcome = .ok .newline) : cs.head? = some '\n' := by
  have htaken := taken_append_rest cs
  rw [taken_eq_spelling h] at htaken
  rw [← htaken]
  rfl

namespace Cursor

def crlf (c : Cursor) : Cursor := ⟨c.position, GraphicScore.crlf c.rest⟩

theorem next_crlf (c : Cursor) (h : '\r' ∉ c.rest) : c.crlf.next = (c.next.1.crlf, c.next.2.crlf) := by
  have htrivia := trivia_crlf h
  have hrest : '\r' ∉ (trivia c.rest).2 := by
    intro hr
    rw [← trivia_append c.rest] at h
    exact h (List.mem_append_right _ hr)
  by_cases hn : (trivia c.rest).2.head? = some '\n'
  · obtain ⟨cs, hcs⟩ := List.head?_eq_some_iff.mp hn
    have hleft : trivia (GraphicScore.crlf ('\n' :: cs)) = (['\r'], '\n' :: GraphicScore.crlf cs) := rfl
    rw [hcs, hleft, trivia.skip] at htrivia
    simp only [next, crlf, htrivia, Position.past_append, past_crlf, hcs]
    rfl
  · rw [trivia_crlf_of_nil hrest (trivia_trivia _) hn, trivia.skip, List.append_nil] at htrivia
    have hnewline : (Lexeme.read (trivia c.rest).2).outcome ≠ .ok .newline := fun h => hn (Lexeme.head?_of_newline h)
    simp only [next, crlf, htrivia, past_crlf, Lexeme.read_crlf hn, Lexeme.crlf, Answer.crlf_of hnewline]

end Cursor

namespace Feed

def crlf (f : Feed) : Feed where
  upcoming := f.upcoming.map Answer.crlf
  ending := f.ending.crlf
  unsettled := by
    intro answer hanswer
    obtain ⟨answer, hmem, rfl⟩ := List.mem_map.mp hanswer
    rw [Answer.settled_crlf]
    exact f.unsettled answer hmem
  settled := by rw [Answer.settled_crlf, f.settled]

@[simp] theorem upcoming_crlf (f : Feed) : f.crlf.upcoming = f.upcoming.map Answer.crlf := rfl

@[simp] theorem ending_crlf (f : Feed) : f.crlf.ending = f.ending.crlf := rfl

theorem next_crlf (f : Feed) : f.crlf.next = (f.next.1.crlf, f.next.2.crlf) := by
  obtain ⟨_ | ⟨answer, later⟩, ending, unsettled, settled⟩ := f <;> rfl

theorem ofCursor_crlf (c : Cursor) (h : '\r' ∉ c.rest) : ofCursor c.crlf = (ofCursor c).crlf := by
  induction hk : c.rest.length using Nat.strongRecOn generalizing c with
  | ind k ih =>
    have hnext := c.next_crlf h
    by_cases hn : c.next.1.settled = false
    · have hn' : c.crlf.next.1.settled = false := by rw [hnext, Answer.settled_crlf, hn]
      have hlater : '\r' ∉ c.next.2.rest := by
        intro hr
        rw [c.rest_next.1] at h
        exact h (List.mem_append_right _ hr)
      obtain ⟨hupcoming, hending⟩ := ofCursor_of_unsettled hn
      obtain ⟨hupcoming', hending'⟩ := ofCursor_of_unsettled hn'
      rw [hnext, ih _ (hk ▸ c.length_next_lt hn) c.next.2 hlater rfl] at hupcoming' hending'
      ext1
      · rw [hupcoming', upcoming_crlf, upcoming_crlf, hupcoming, List.map_cons]
      · rw [hending', ending_crlf, ending_crlf, hending]
    · have hn' : ¬ c.crlf.next.1.settled = false := by rw [hnext, Answer.settled_crlf]; exact hn
      obtain ⟨hupcoming, hending⟩ := ofCursor_of_settled hn
      obtain ⟨hupcoming', hending'⟩ := ofCursor_of_settled hn'
      ext1
      · rw [hupcoming', upcoming_crlf, hupcoming, List.map_nil]
      · rw [hending', ending_crlf, hending, hnext]

end Feed

end

end GraphicScore
