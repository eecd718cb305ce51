import GraphicScore.Proofs.Token.Order
import GraphicScore.Proofs.Token.Progress

/-!
# Answers without end

A cursor can be asked for ever. It moves on until an answer comes that stays, after no more calls than the text
has characters, and the tokens of a text are the answers up to the end of input or the first fault.
-/

namespace GraphicScore

namespace Answer

/-- The answers that take something off the text. -/
inductive Moves : Answer → Prop
  | token {found : Located Token} : found.value ≠ .endOfInput → Moves (.ok found)
  | loneEquals {p : Position} : Moves (.error ⟨p, .loneEquals⟩)
  | namelessSymbol {p : Position} : Moves (.error ⟨p, .namelessSymbol⟩)

/-- The answers that are met again where they have been met. -/
inductive Stays : Answer → Prop
  | endOfInput {p : Position} : Stays (.ok ⟨p, .endOfInput⟩)
  | unexpectedCharacter {p : Position} {c : Char} : Stays (.error ⟨p, .unexpectedCharacter c⟩)

theorem stays_of_settled {answer : Answer} (h : answer.settled = true) : answer.Stays := by
  rcases answer with ⟨p, cause⟩ | ⟨p, t⟩
  · cases cause with
    | unexpectedCharacter c => exact .unexpectedCharacter
    | _ => contradiction
  · obtain rfl : t = .endOfInput := settled_ok.mp h
    exact .endOfInput

end Answer

namespace Cursor

def asked (c : Cursor) (n : Nat) : Cursor := (c.take n).2

def answer (c : Cursor) (n : Nat) : Answer := (c.asked n).next.1

/-- Up to some call the cursor moves on, and from then on it stays. -/
structure Settles (c : Cursor) (k : Nat) : Prop where
  moves : ∀ n < k, (c.answer n).Moves
  taken : ∀ n < k, ∃ cs, cs ≠ [] ∧ (c.asked n).rest = cs ++ (c.asked (n + 1)).rest
  ordered : ∀ m n, m < n → n ≤ k → (c.answer m).position.Precedes (c.answer n).position
  stays : (c.answer k).Stays
  forever : ∀ n, k ≤ n → c.answer n = c.answer k

section
variable {c c' : Cursor} {p : Position} {n k : Nat} {ts : List (Located Token)}

theorem answer_zero : c.answer 0 = c.next.1 := rfl

theorem answer_succ : c.answer (n + 1) = c.next.2.answer n := rfl

/-! ## single calls -/

theorem moves_of_unsettled (h : c.next.1.settled = false) : c.next.1.Moves := by
  cases hnext : c.next.1 with
  | ok found =>
    refine .token fun ht => ?_
    rw [hnext, Answer.settled_ok.mpr ht] at h
    contradiction
  | error fault =>
    obtain ⟨position, cause⟩ := fault
    obtain ⟨ho, -⟩ := next_eq_error.mp hnext
    obtain ⟨_, _, -, hoffends⟩ := offends_of_read (trivia_trivia c.rest) ho
    cases hoffends with
    | loneEquals => exact .loneEquals
    | namelessSymbol => exact .namelessSymbol
    | unexpectedCharacter =>
      rw [hnext] at h
      contradiction

theorem taken_of_unsettled (h : c.next.1.settled = false) : ∃ cs, cs ≠ [] ∧ c.rest = cs ++ c.next.2.rest := by
  refine ⟨_, fun hnil => ?_, c.rest_next.1⟩
  have htaken := Lexeme.taken_ne_nil (trivia c.rest).2 (by rw [← Answer.settled_of]; exact h)
  exact htaken (List.append_eq_nil_iff.mp hnil).2

/-! ## all calls -/

theorem precedes_answer (hp : p.Precedes c.position) (n : Nat) : p.Precedes (c.answer n).position := by
  induction n generalizing c with
  | zero =>
    rw [answer_zero, position_next]
    exact hp.past
  | succ n ih =>
    rw [answer_succ]
    refine ih ?_
    rw [c.rest_next.2]
    exact hp.past

theorem answer_of_settled (h : c.next.1.settled = true) (n : Nat) : c.answer n = c.next.1 := by
  induction n generalizing c with
  | zero => rfl
  | succ n ih =>
    have hagain := next_of_settled h
    rw [answer_succ, ih (by rw [hagain]; exact h), hagain]

theorem Settles.zero (h : c.next.1.settled = true) : c.Settles 0 where
  moves _ hn := absurd hn (Nat.not_lt_zero _)
  taken _ hn := absurd hn (Nat.not_lt_zero _)
  ordered _ _ hm hn := absurd (Nat.lt_of_lt_of_le hm hn) (Nat.not_lt_zero _)
  stays := Answer.stays_of_settled h
  forever n _ := answer_of_settled h n

theorem Settles.succ (h : c.next.1.settled = false) (hlater : c.next.2.Settles k) : c.Settles (k + 1) where
  moves
    | 0, _ => moves_of_unsettled h
    | n + 1, hn => hlater.moves n (Nat.lt_of_succ_lt_succ hn)
  taken
    | 0, _ => taken_of_unsettled h
    | n + 1, hn => hlater.taken n (Nat.lt_of_succ_lt_succ hn)
  ordered
    | 0, n + 1, _, _ => precedes_answer (next_precedes h) n
    | m + 1, n + 1, hm, hn => hlater.ordered m n (Nat.lt_of_succ_lt_succ hm) (Nat.le_of_succ_le_succ hn)
  stays := hlater.stays
  forever
    | n + 1, hn => hlater.forever n (Nat.le_of_succ_le_succ hn)

theorem exists_settles (c : Cursor) : ∃ k, k ≤ c.rest.length ∧ c.Settles k := by
  induction hk : c.rest.length using Nat.strongRecOn generalizing c with
  | ind length ih =>
    by_cases hn : c.next.1.settled = false
    · have hlt := hk ▸ c.length_next_lt hn
      obtain ⟨k, hle, hsettles⟩ := ih _ hlt c.next.2 rfl
      exact ⟨k + 1, by omega, hsettles.succ hn⟩
    · exact ⟨0, Nat.zero_le _, .zero (Bool.of_not_eq_false hn)⟩

theorem Runs.answer_eq (h : c.Runs ts c') :
    (∀ n (hn : n < ts.length), c.answer n = .ok ts[n] ∧ ts[n].value ≠ .endOfInput) ∧
      c.answer ts.length = c'.next.1 := by
  induction h with
  | nil c => exact ⟨fun _ hn => absurd hn (Nat.not_lt_zero _), rfl⟩
  | @cons c c₁ c' found ts hnext ht _ ih =>
    have hlater (n : Nat) : c.answer (n + 1) = c₁.answer n := by rw [answer_succ, hnext]
    refine ⟨fun n hn => ?_, (hlater _).trans ih.2⟩
    cases n with
    | zero => exact ⟨congrArg Prod.fst hnext, ht⟩
    | succ n =>
      rw [hlater]
      exact ih.1 n (Nat.lt_of_succ_lt_succ hn)

end

end Cursor

/--
Asked for ever, a cursor moves on for no more calls than there are characters, and then its answer is the same
for ever. The text's tokens are the answers up to the first that is the end of input or a fault.
-/
theorem answers_settle (source : String) :
    (∃ k, k ≤ source.toList.length ∧ (Cursor.ofString source).Settles k) ∧
      ∃ ts : List (Located Token),
        (∀ n (h : n < ts.length),
          (Cursor.ofString source).answer n = .ok ts[n] ∧ ts[n].value ≠ .endOfInput) ∧
        ((∃ p, (Cursor.ofString source).answer ts.length = .ok ⟨p, .endOfInput⟩ ∧
            tokenize source = .ok (ts ++ [⟨p, .endOfInput⟩])) ∨
          ∃ fault, (Cursor.ofString source).answer ts.length = .error fault ∧ tokenize source = .error fault) := by
  refine ⟨Cursor.exists_settles (.ofString source), ?_⟩
  obtain ⟨ts, last, hruns, hlast⟩ := exists_runs_tokenize source
  obtain ⟨htokens, hend⟩ := hruns.answer_eq
  refine ⟨ts, htokens, ?_⟩
  rcases hlast with ⟨⟨p, t⟩, hnext, rfl, htokenize⟩ | ⟨fault, hnext, htokenize⟩
  · exact .inl ⟨p, hend.trans hnext, htokenize⟩
  · exact .inr ⟨fault, hend.trans hnext, htokenize⟩

end GraphicScore
