import GraphicScore.Proofs.Token.Decomposition

/-!
# Asking again and again

A cursor can be asked any number of times. An answer that settles the text is met again at once and from
then on, and each one before it takes a character at least.
-/

namespace GraphicScore

theorem Lexeme.of_settles {cs : List Char} (h : settles (read cs).outcome = true) :
    (read cs).taken = [] ∧ (read cs).rest = cs := by
  revert h
  fun_cases Lexeme.read cs with
  | case1 => exact fun _ => ⟨rfl, rfl⟩
  | case2 c cs t ht =>
    revert ht
    fun_cases Token.ofChar? c <;> intro ht <;> cases ht <;> simp [settles]
  | case3 cs => fun_cases Lexeme.arrow cs <;> simp [settles]
  | case4 cs =>
    simp only [Lexeme.symbol]
    split <;> simp [settles]
  | case5 =>
    simp only [Lexeme.number]
    split <;> simp [settles]
  | case6 => simp [Lexeme.identifier, settles]
  | case7 => exact fun _ => ⟨rfl, rfl⟩

namespace Cursor

/-- What the cursor answers when it is asked some times, and where it stands then. -/
def take (c : Cursor) : Nat → List Answer × Cursor
  | 0 => ([], c)
  | n + 1 => (c.next.1 :: (c.next.2.take n).1, (c.next.2.take n).2)

theorem take_add (c : Cursor) (m n : Nat) :
    c.take (m + n) = ((c.take m).1 ++ ((c.take m).2.take n).1, ((c.take m).2.take n).2) := by
  induction m generalizing c with
  | zero => simp [take]
  | succ m ih => rw [Nat.succ_add, take, ih, take, List.cons_append]

theorem next_of_settled {c : Cursor} (h : c.next.1.settled = true) : c.next.2.next = (c.next.1, c.next.2) := by
  have hsettles : Lexeme.settles (Lexeme.read (trivia c.rest).2).outcome = true := by
    rw [← Answer.settled_of]
    exact h
  obtain ⟨htaken, hrest⟩ := Lexeme.of_settles hsettles
  have htrivia : trivia (trivia c.rest).2 = ([], (trivia c.rest).2) := by
    have hsplit := trivia_append (trivia c.rest).2
    rw [trivia_trivia, List.nil_append] at hsplit
    exact Prod.ext (trivia_trivia _) hsplit
  simp only [next, hrest, htaken, htrivia]
  rfl

/-- Answers that do not settle the text take a character each. -/
theorem length_take_le {c : Cursor} {n : Nat} (h : ∀ answer ∈ (c.take n).1, answer.settled = false) :
    n + (c.take n).2.rest.length ≤ c.rest.length := by
  induction n generalizing c with
  | zero => simp [take]
  | succ n ih =>
    obtain ⟨hfirst, hlater⟩ := List.forall_mem_cons.mp h
    have := c.length_next_lt hfirst
    have := ih hlater
    simp only [take]
    omega

end Cursor

namespace Feed

theorem next_of_upcoming_nil {f : Feed} (h : f.upcoming = []) : f.next = (f.ending, f) := by
  obtain ⟨upcoming, ending, unsettled, settled⟩ := f
  obtain rfl : upcoming = [] := h
  rfl

theorem next_eq_next (c : Cursor) : (ofCursor c).next = (c.next.1, ofCursor c.next.2) := by
  by_cases hn : c.next.1.settled = false
  · rw [ofCursor, dif_pos hn]
    rfl
  · have hagain := Cursor.next_of_settled (Bool.of_not_eq_false hn)
    have hn' : ¬ c.next.2.next.1.settled = false := by rw [hagain]; exact hn
    obtain ⟨hupcoming, hending⟩ := ofCursor_of_settled hn
    obtain ⟨hupcoming', hending'⟩ := ofCursor_of_settled hn'
    have hsame : ofCursor c.next.2 = ofCursor c := by
      ext1
      · rw [hupcoming, hupcoming']
      · rw [hending, hending', hagain]
    rw [hsame, next_of_upcoming_nil hupcoming, hending]

theorem take_ofCursor (c : Cursor) (n : Nat) : (ofCursor c).take n = ((c.take n).1, ofCursor (c.take n).2) := by
  induction n generalizing c with
  | zero => rfl
  | succ n ih => rw [take_succ, next_eq_next, ih, Cursor.take]

end Feed

end GraphicScore
