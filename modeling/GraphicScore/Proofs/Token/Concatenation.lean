import GraphicScore.Proofs.Token.Cutting
import GraphicScore.Proofs.Token.Position

/-!
# Texts put together

A cursor runs over some tokens of a text whatever is put behind them, if it begins on a new line. So the
tokens of two texts with the end of a line in between are the tokens of both.
-/

namespace GraphicScore

/-! ## words of texts -/

section
variable {cs a b : List Char} {t : Token} {x y w : List Token} {p : Position}

theorem words_eq_cons :
    words cs = some (t :: w) ↔ (Lexeme.read (trivia cs).2).outcome = .ok t ∧ t ≠ .endOfInput ∧
      words (Lexeme.read (trivia cs).2).rest = some w := by
  cases ho : (Lexeme.read (trivia cs).2).outcome with
  | error cause => simp [words_of_error ho]
  | ok t' =>
    by_cases ht : t' = .endOfInput
    · subst ht
      simp only [words_of_end ho, Option.some.injEq, reduceCtorEq, Except.ok.injEq, false_iff]
      rintro ⟨rfl, ht, -⟩
      exact ht rfl
    · rw [words_of_token ho ht]
      simp only [Option.map_eq_some_iff, List.cons.injEq, Except.ok.injEq]
      constructor
      · rintro ⟨w', hw, rfl, rfl⟩
        exact ⟨rfl, ht, hw⟩
      · rintro ⟨rfl, -, hw⟩
        exact ⟨w, hw, rfl, rfl⟩

theorem eq_nil_of_read_end (h : (Lexeme.read cs).outcome = .ok .endOfInput) : cs = [] := by
  revert h
  fun_cases Lexeme.read cs with
  | case1 => simp
  | case2 c cs t ht =>
    intro hend
    cases hend
    revert ht
    fun_cases Token.ofChar? c <;> simp
  | case3 cs => fun_cases Lexeme.arrow cs <;> simp
  | case4 cs =>
    simp only [Lexeme.symbol]
    split <;> simp
  | case5 =>
    simp only [Lexeme.number, Except.ok.injEq]
    split <;> simp
  | case6 => simp [Lexeme.identifier]
  | case7 => simp

theorem trivia_of_words_nil (h : words cs = some []) : trivia cs = (cs, []) := by
  have hend : (Lexeme.read (trivia cs).2).outcome = .ok .endOfInput := by
    cases ho : (Lexeme.read (trivia cs).2).outcome with
    | error cause => simp [words_of_error ho] at h
    | ok t =>
      by_cases ht : t = .endOfInput
      · rw [ht]
      · simp [words_of_token ho ht] at h
  have hrest := eq_nil_of_read_end hend
  have := trivia_append cs
  rw [hrest, List.append_nil] at this
  rw [← hrest, ← congrArg (fun s => (s, (trivia cs).2)) this]

end

/-! ## runs -/

namespace Cursor

theorem next_eq_ok {c c' : Cursor} {found : Located Token} :
    c.next = (.ok found, c') ↔
      (Lexeme.read (trivia c.rest).2).outcome = .ok found.value ∧
      found.position = c.position.past (trivia c.rest).1 ∧
      c'.position = found.position.past (Lexeme.read (trivia c.rest).2).taken ∧
      c'.rest = (Lexeme.read (trivia c.rest).2).rest := by
  obtain ⟨position, t⟩ := found
  obtain ⟨p', rest'⟩ := c'
  simp only [next]
  cases (Lexeme.read (trivia c.rest).2).outcome with
  | error cause => simp [Answer.of]
  | ok t' =>
    simp only [Answer.of, Prod.mk.injEq, Except.ok.injEq, Located.mk.injEq, Cursor.mk.injEq]
    constructor
    · rintro ⟨⟨rfl, rfl⟩, rfl, rfl⟩
      exact ⟨rfl, rfl, rfl, rfl⟩
    · rintro ⟨rfl, rfl, rfl, rfl⟩
      exact ⟨⟨rfl, rfl⟩, rfl, rfl⟩

theorem next_eq_error {c : Cursor} {fault : Fault} :
    c.next.1 = .error fault ↔
      (Lexeme.read (trivia c.rest).2).outcome = .error fault.value ∧
      fault.position = c.position.past (trivia c.rest).1 := by
  obtain ⟨position, cause⟩ := fault
  simp only [next]
  cases (Lexeme.read (trivia c.rest).2).outcome with
  | error cause' => simp [Answer.of, and_comm, eq_comm]
  | ok t => simp [Answer.of]

/-- The tokens on the way from one cursor to another. -/
inductive Runs : Cursor → List (Located Token) → Cursor → Prop
  | nil (c : Cursor) : Runs c [] c
  | cons {c c' c'' : Cursor} {found : Located Token} {ts : List (Located Token)} :
    c.next = (.ok found, c') → found.value ≠ .endOfInput → Runs c' ts c'' → Runs c (found :: ts) c''

section
variable {c c' c'' : Cursor} {found : Located Token} {ts ts' : List (Located Token)} {s rest : List Char}

theorem Runs.append (h : Runs c ts c') (h' : Runs c' ts' c'') : Runs c (ts ++ ts') c'' := by
  induction h with
  | nil c => exact h'
  | cons hnext ht _ ih => exact .cons hnext ht (ih h')

theorem rest_next (c : Cursor) :
    c.rest = (trivia c.rest).1 ++ (Lexeme.read (trivia c.rest).2).taken ++ c.next.2.rest ∧
      c.next.2.position = c.position.past ((trivia c.rest).1 ++ (Lexeme.read (trivia c.rest).2).taken) := by
  simp only [next, Position.past_append, List.append_assoc, Lexeme.taken_append_rest, trivia_append, and_self]

theorem exists_rest_of_next (h : c.next = (.ok found, c')) :
    c.rest = (trivia c.rest).1 ++ (Lexeme.read (trivia c.rest).2).taken ++ c'.rest ∧
      c'.position = c.position.past ((trivia c.rest).1 ++ (Lexeme.read (trivia c.rest).2).taken) := by
  have := c.rest_next
  rwa [h] at this

/-- A run takes the front of the text off, and counts its characters. -/
theorem Runs.exists_rest (h : Runs c ts c') :
    ∃ s, c.rest = s ++ c'.rest ∧ c'.position = c.position.past s := by
  induction h with
  | nil c => exact ⟨[], rfl, rfl⟩
  | cons hnext _ _ ih =>
    obtain ⟨s, hs, hp⟩ := ih
    obtain ⟨hrest, hposition⟩ := exists_rest_of_next hnext
    exact ⟨_ ++ s, by rw [List.append_assoc, ← hs, ← hrest], by rw [Position.past_append, ← hposition, hp]⟩

theorem Runs.words_eq (h : Runs c ts c') :
    words c.rest = (words c'.rest).map (ts.map Located.value ++ ·) := by
  induction h with
  | nil c => simp
  | cons hnext ht _ ih =>
    obtain ⟨ho, -, -, hrest⟩ := next_eq_ok.mp hnext
    rw [words_of_token ho ht, ← hrest, ih]
    simp [Function.comp_def]

theorem next_of_cutOff (h : c.next = (.ok found, c')) (ht : found.value ≠ .endOfInput)
    (hs : c.rest = s ++ c'.rest) (hcut : CutOff c'.rest rest) :
    next ⟨c.position, s ++ rest⟩ = (.ok found, ⟨c'.position, rest⟩) := by
  obtain ⟨ho, hfound, hposition, hrest⟩ := next_eq_ok.mp h
  obtain rfl : s = (trivia c.rest).1 ++ (Lexeme.read (trivia c.rest).2).taken :=
    List.append_cancel_right (hs.symm.trans (exists_rest_of_next h).1)
  have hcut' : CutOff (trivia c.rest).2 ((Lexeme.read (trivia c.rest).2).taken ++ rest) := by
    have := hcut.append (s := (Lexeme.read (trivia c.rest).2).taken)
    rwa [hrest, Lexeme.taken_append_rest] at this
  have hbackslash : (trivia c.rest).2.head? ≠ some '\\' := by
    intro hhead
    obtain ⟨cs, hcs⟩ := List.head?_eq_some_iff.mp hhead
    rw [hcs] at ho
    cases ho
  have htrivia := trivia_of_cutOff hcut' hbackslash
  have hread := read_of_cutOff ho ht (hrest ▸ hcut)
  refine next_eq_ok.mpr ?_
  rw [List.append_assoc, htrivia, hread]
  exact ⟨rfl, hfound, hposition, rfl⟩

theorem Runs.cut (h : Runs c ts c') (hs : c.rest = s ++ c'.rest) (hcut : CutOff c'.rest rest) :
    Runs ⟨c.position, s ++ rest⟩ ts ⟨c'.position, rest⟩ := by
  induction h generalizing s with
  | nil c =>
    obtain rfl : s = [] := by simpa using hs
    exact .nil _
  | @cons c c₁ c' found ts hnext ht hruns ih =>
    obtain ⟨s', hs', -⟩ := hruns.exists_rest
    obtain ⟨s₁, hs₁, -⟩ := (Runs.cons hnext ht (.nil c₁)).exists_rest
    obtain rfl : s = s₁ ++ s' := by
      rw [hs₁, hs', ← List.append_assoc] at hs
      exact (List.append_cancel_right hs).symm
    have hcut' : CutOff c₁.rest (s' ++ rest) := hs' ▸ hcut.append
    rw [List.append_assoc]
    exact .cons (next_of_cutOff hnext ht hs₁ hcut') ht (ih hs' hcut)

end

theorem exists_runs {cs : List Char} {x y : List Token} (p : Position) (h : words cs = some (x ++ y)) :
    ∃ ts c, Runs ⟨p, cs⟩ ts c ∧ ts.map Located.value = x ∧ words c.rest = some y := by
  induction x generalizing cs p with
  | nil => exact ⟨[], _, .nil _, rfl, h⟩
  | cons t x ih =>
    obtain ⟨ho, ht, hw⟩ := words_eq_cons.mp h
    let found : Located Token := ⟨p.past (trivia cs).1, t⟩
    let position := found.position.past (Lexeme.read (trivia cs).2).taken
    obtain ⟨ts, c, hruns, rfl, hy⟩ := ih position hw
    have hnext : next ⟨p, cs⟩ = (.ok found, ⟨position, (Lexeme.read (trivia cs).2).rest⟩) :=
      next_eq_ok.mpr ⟨ho, rfl, rfl, rfl⟩
    exact ⟨found :: ts, c, .cons hnext ht hruns, rfl, hy⟩

/-- A text that begins on a new line stands behind all tokens of the text in front of it. -/
theorem runs_append_newline {a : List Char} {x : List Token} (h : words a = some x) (p : Position)
    (b : List Char) :
    ∃ ts, ts.map Located.value = x ++ [.newline] ∧
      Runs ⟨p, a ++ '\n' :: b⟩ ts ⟨(p.past a).after '\n', b⟩ := by
  obtain ⟨ts, c, hruns, rfl, hend⟩ := exists_runs p ((List.append_nil x).symm ▸ h)
  obtain ⟨s, hs, hp⟩ := hruns.exists_rest
  have htrivia : trivia (c.rest ++ '\n' :: b) = (c.rest, '\n' :: b) := by
    have hrest := trivia_of_words_nil hend
    have hcut : CutOff (trivia c.rest).2 ('\n' :: b) := by
      rw [hrest]
      exact cutOff_newline
    have := trivia_of_cutOff hcut (by simp [hrest])
    rwa [hrest] at this
  have hnewline : next ⟨c.position, c.rest ++ '\n' :: b⟩ =
      (.ok ⟨c.position.past c.rest, .newline⟩, ⟨(c.position.past c.rest).after '\n', b⟩) := by
    refine next_eq_ok.mpr ?_
    rw [htrivia]
    exact ⟨rfl, rfl, rfl, rfl⟩
  have hlast : p.past a = c.position.past c.rest := by
    rw [show a = s ++ c.rest from hs, Position.past_append, hp]
  refine ⟨ts ++ [⟨c.position.past c.rest, .newline⟩], by simp, ?_⟩
  have hfirst : Runs ⟨p, s ++ (c.rest ++ '\n' :: b)⟩ ts ⟨c.position, c.rest ++ '\n' :: b⟩ :=
    hruns.cut hs cutOff_newline
  rw [← List.append_assoc, ← hs] at hfirst
  rw [hlast]
  exact hfirst.append (.cons hnewline (by simp) (.nil _))

end Cursor

section
variable {cs a b : List Char} {x y : List Token}

theorem words_append_newline (h : words a = some x) :
    words (a ++ '\n' :: b) = (words b).map (x ++ .newline :: ·) := by
  obtain ⟨ts, hts, hruns⟩ := Cursor.runs_append_newline h .start b
  have := hruns.words_eq
  simp only [hts] at this
  rw [this]
  simp

/-- A text can be cut between any two of its words. -/
theorem exists_cut (h : words cs = some (x ++ y)) :
    ∃ a b, cs = a ++ b ∧ words a = some x ∧ words b = some y := by
  obtain ⟨ts, c, hruns, rfl, hy⟩ := Cursor.exists_runs .start h
  obtain ⟨s, hs, -⟩ := hruns.exists_rest
  refine ⟨s, c.rest, hs, ?_, hy⟩
  have := (hruns.cut hs cutOff_nil).words_eq
  rw [List.append_nil] at this
  rw [this, words_nil]
  simp

end

/-! ## tokens of feeds -/

section
variable {c c' : Cursor} {found : Located Token} {ts ts' : List (Located Token)}

theorem Feed.fst_next_ofCursor (c : Cursor) : (ofCursor c).next.1 = c.next.1 := by
  rw [ofCursor]
  split <;> rfl

theorem Feed.next_ofCursor (h : c.next = (.ok found, c')) (ht : found.value ≠ .endOfInput) :
    (ofCursor c).next = (.ok found, ofCursor c') := by
  have hn : c.next.1.settled = false := by
    rw [h]
    exact Answer.not_settled ht
  have hnext : (ofCursor c).next = (c.next.1, ofCursor c.next.2) := by
    rw [ofCursor, dif_pos hn]
    rfl
  rw [hnext, h]

theorem Cursor.Runs.answers_eq (h : c.Runs ts c') :
    (Feed.ofCursor c).upcoming ++ [(Feed.ofCursor c).ending] =
      ts.map .ok ++ ((Feed.ofCursor c').upcoming ++ [(Feed.ofCursor c').ending]) := by
  induction h with
  | nil c => rfl
  | cons hnext ht _ ih =>
    rw [Feed.answers_of_next (Feed.next_ofCursor hnext ht) (Answer.not_settled ht), ih]
    rfl

theorem Cursor.Runs.tokens_eq (h : c.Runs ts c') :
    (Feed.ofCursor c).tokens = (Feed.ofCursor c').tokens.map (ts ++ ·) := by
  induction h with
  | nil c => cases (Feed.ofCursor c).tokens <;> rfl
  | cons hnext ht _ ih =>
    rw [Feed.tokens_of_next (Feed.next_ofCursor hnext ht) ht, ih]
    cases (Feed.ofCursor _).tokens <;> rfl

theorem Cursor.Runs.tokens (h : c.Runs ts c') (ht : (Feed.ofCursor c').tokens = .ok ts') :
    (Feed.ofCursor c).tokens = .ok (ts ++ ts') := by
  rw [h.tokens_eq, ht]
  rfl

theorem Cursor.Runs.take (h : c.Runs ts c') :
    ((Feed.ofCursor c).take (ts.length + 1)).1 = ts.map .ok ++ [c'.next.1] := by
  induction h with
  | nil c => exact congrArg ([·]) (Feed.fst_next_ofCursor c)
  | cons hnext ht _ ih =>
    rw [List.length_cons, Feed.take, Feed.next_ofCursor hnext ht]
    simp only [ih, List.map_cons, List.cons_append]

end

/-! ## places further down -/

def Position.down (p : Position) (lines : Nat) : Position := ⟨p.line + lines, p.column⟩

def Located.down {α : Type} (found : Located α) (lines : Nat) : Located α :=
  ⟨found.position.down lines, found.value⟩

section
variable {p : Position} {c c' : Cursor} {found : Located Token} {ts : List (Located Token)} {cs : List Char}
  {lines : Nat}

theorem past_down : (p.down lines).past cs = (p.past cs).down lines := by
  induction cs generalizing p with
  | nil => rfl
  | cons a cs ih =>
    have hafter : (p.down lines).after a = (p.after a).down lines := by
      unfold Position.after
      split
      · simp [Position.down, Nat.add_right_comm]
      · rfl
    show ((p.down lines).after a).past cs = _
    rw [hafter, ih]
    rfl

theorem line_past : (p.past cs).line = p.line + cs.count '\n' := by
  induction cs generalizing p with
  | nil => rfl
  | cons a cs ih =>
    show ((p.after a).past cs).line = _
    rw [ih, List.count_cons, Position.after]
    by_cases ha : a = '\n'
    · simp [ha]
      omega
    · simp [ha]

theorem start_past_after : (Position.start.past cs).after '\n' = Position.start.down (1 + cs.count '\n') := by
  rw [Position.after, if_pos rfl, line_past]
  simp only [Position.start, Position.down, Position.mk.injEq, and_true]
  omega

namespace Cursor

def down (c : Cursor) (lines : Nat) : Cursor := ⟨c.position.down lines, c.rest⟩

theorem next_down (h : c.next = (.ok found, c')) : (c.down lines).next = (.ok (found.down lines), c'.down lines) := by
  obtain ⟨ho, hfound, hposition, hrest⟩ := next_eq_ok.mp h
  refine next_eq_ok.mpr ⟨ho, ?_, ?_, hrest⟩
  · simp only [Located.down, down, hfound, past_down]
  · simp only [Located.down, down, hposition, past_down]

theorem Runs.down (h : Runs c ts c') (lines : Nat) :
    Runs (c.down lines) (ts.map (·.down lines)) (c'.down lines) := by
  induction h with
  | nil c => exact .nil _
  | cons hnext ht _ ih => exact .cons (next_down hnext) ht ih

end Cursor

end

end GraphicScore
