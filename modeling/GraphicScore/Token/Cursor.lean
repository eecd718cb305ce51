import GraphicScore.Token.Lexeme

/-!
# Cursors

A cursor stands at a place in a text. Asked for the next token, it skips trivia, answers with a
token or a fault, and stands behind it. A call takes at least one character off the text unless its
answer settles the text: every later call gives it again.
-/

namespace GraphicScore

abbrev Answer := Except Fault (Located Token)

def Answer.of (position : Position) : Except Cause Token → Answer
  | .ok token => .ok ⟨position, token⟩
  | .error cause => .error ⟨position, cause⟩

/-- Whether every later answer is the same. -/
def Answer.settled : Answer → Bool
  | .ok found => Lexeme.settles (.ok found.value)
  | .error fault => Lexeme.settles (.error fault.value)

theorem Answer.settled_of (position : Position) (outcome : Except Cause Token) :
    (Answer.of position outcome).settled = Lexeme.settles outcome := by
  cases outcome <;> rfl

structure Cursor where
  position : Position
  rest : List Char

namespace Cursor

def ofString (source : String) : Cursor := ⟨.start, source.toList⟩

def next (c : Cursor) : Answer × Cursor :=
  let (skipped, rest) := trivia c.rest
  let lexeme := Lexeme.read rest
  let position := c.position.past skipped
  (.of position lexeme.outcome, ⟨position.past lexeme.taken, lexeme.rest⟩)

theorem length_next_lt (c : Cursor) (h : c.next.1.settled = false) :
    c.next.2.rest.length < c.rest.length := by
  simp only [next, Answer.settled_of] at h
  have taken := List.length_pos_iff.mpr (Lexeme.taken_ne_nil _ h)
  have split := congrArg List.length (Lexeme.taken_append_rest (trivia c.rest).2)
  have skipped := length_trivia_le c.rest
  simp only [List.length_append] at split
  simp only [next]
  omega

end Cursor

end GraphicScore
