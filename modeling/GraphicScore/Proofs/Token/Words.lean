import GraphicScore.Proofs.Token.Feed

/-!
# The words of texts

The tokens of a text without their places. They are worked out one lexeme after the other, and they
are what a feed has from any position on.
-/

namespace GraphicScore

theorem length_rest_lt {cs : List Char} {t : Token} (h : (Lexeme.read (trivia cs).2).outcome = .ok t)
    (ht : t ≠ .endOfInput) : (Lexeme.read (trivia cs).2).rest.length < cs.length := by
  refine Cursor.length_next_lt ⟨.start, cs⟩ ?_
  rw [Cursor.next, Answer.settled_of, h]
  cases t <;> first | rfl | contradiction

/-- The tokens in front of the end of input, unless a fault comes first. -/
def words (cs : List Char) : Option (List Token) :=
  match _h : (Lexeme.read (trivia cs).2).outcome with
  | .error _ => none
  | .ok t =>
    if _ht : t = .endOfInput then some []
    else (words (Lexeme.read (trivia cs).2).rest).map (t :: ·)
termination_by cs.length
decreasing_by exact length_rest_lt _h _ht

section
variable {cs : List Char} {t : Token}

theorem words_of_error {cause : Cause} (h : (Lexeme.read (trivia cs).2).outcome = .error cause) :
    words cs = none := by
  rw [words]
  split
  · rfl
  · simp_all

theorem words_of_end (h : (Lexeme.read (trivia cs).2).outcome = .ok .endOfInput) : words cs = some [] := by
  rw [words]
  split
  · simp_all
  · simp_all

theorem words_of_token (h : (Lexeme.read (trivia cs).2).outcome = .ok t) (ht : t ≠ .endOfInput) :
    words cs = (words (Lexeme.read (trivia cs).2).rest).map (t :: ·) := by
  rw [words]
  split
  · simp_all
  · rename_i t' h'
    obtain rfl : t = t' := by simp_all
    rw [dif_neg ht]

theorem words_congr {cs' : List Char} (h : (trivia cs).2 = (trivia cs').2) : words cs = words cs' := by
  cases ho' : (Lexeme.read (trivia cs').2).outcome with
  | error cause =>
    have ho : (Lexeme.read (trivia cs).2).outcome = .error cause := by rw [h, ho']
    rw [words_of_error ho, words_of_error ho']
  | ok t =>
    have ho : (Lexeme.read (trivia cs).2).outcome = .ok t := by rw [h, ho']
    by_cases ht : t = .endOfInput
    · subst ht
      rw [words_of_end ho, words_of_end ho']
    · rw [words_of_token ho ht, words_of_token ho' ht, h]

end

/-- From any position on, a feed has the words of the text and then the end of input. -/
theorem words_eq_some {cs : List Char} {w : List Token} (p : Position) :
    words cs = some w ↔
      ∃ ts, (Feed.ofCursor ⟨p, cs⟩).tokens = .ok ts ∧ ts.map Located.value = w ++ [.endOfInput] := by
  induction hk : cs.length using Nat.strongRecOn generalizing cs w p with
  | ind k ih =>
    generalize hc : (⟨p, cs⟩ : Cursor) = c
    have hnext : c.next.1 = .of (p.past (trivia cs).1) (Lexeme.read (trivia cs).2).outcome := by
      rw [← hc]
      rfl
    have hrest : c.next.2 = ⟨c.next.2.position, (Lexeme.read (trivia cs).2).rest⟩ := by
      rw [← hc]
      rfl
    cases h : (Lexeme.read (trivia cs).2).outcome with
    | error cause =>
      rw [h] at hnext
      rw [words_of_error h]
      constructor
      · intro hw
        contradiction
      · intro ⟨ts, hts, _⟩
        obtain ⟨found, hfound, -⟩ := Feed.tokens_ofCursor.mp hts
        cases hnext.symm.trans hfound
    | ok t =>
      rw [h] at hnext
      by_cases ht : t = .endOfInput
      · subst ht
        rw [words_of_end h]
        constructor
        · intro hw
          cases hw
          exact ⟨_, Feed.tokens_ofCursor.mpr ⟨_, hnext, .inl ⟨rfl, rfl⟩⟩, rfl⟩
        · intro ⟨ts, hts, hmap⟩
          obtain ⟨found, hfound, h | h⟩ := Feed.tokens_ofCursor.mp hts
          · cases h.2
            simpa [h.1] using hmap
          · cases hnext.symm.trans hfound
            exact absurd rfl h.1
      · have hlt := hk ▸ length_rest_lt h ht
        rw [words_of_token h ht, Option.map_eq_some_iff]
        -- the rest stands at another position, which the induction does not fix
        constructor
        · intro ⟨w', hw', e⟩
          obtain ⟨ts', hts', hmap⟩ := (ih _ hlt c.next.2.position rfl).mp hw'
          rw [← hrest] at hts'
          refine ⟨_, Feed.tokens_ofCursor.mpr ⟨_, hnext, .inr ⟨ht, ts', hts', rfl⟩⟩, ?_⟩
          rw [← e, List.map_cons, hmap]
          rfl
        · intro ⟨ts, hts, hmap⟩
          obtain ⟨found, hfound, h | h⟩ := Feed.tokens_ofCursor.mp hts
          · cases hnext.symm.trans hfound
            exact absurd h.1 ht
          · cases hnext.symm.trans hfound
            obtain ⟨-, ts', hts', rfl⟩ := h
            rw [hrest] at hts'
            cases w with
            | nil => exact absurd (List.cons.inj hmap).1 ht
            | cons t' w =>
              obtain ⟨rfl, hmap'⟩ := List.cons.inj hmap
              exact ⟨w, (ih _ hlt c.next.2.position rfl).mpr ⟨ts', hts', hmap'⟩, rfl⟩

end GraphicScore
