import GraphicScore.Token.Cursor

/-!
# Feeds

A feed is everything that a cursor will ever answer: the answers on the way, and the one that it
gives from then on. The way is finite, since each call on it shortens the text.
-/

namespace GraphicScore

structure Feed where
  upcoming : List Answer
  ending : Answer
  unsettled : ∀ answer ∈ upcoming, answer.settled = false
  settled : ending.settled = true

namespace Feed

def ofCursor (c : Cursor) : Feed :=
  if h : c.next.1.settled = false then
    let later := ofCursor c.next.2
    ⟨c.next.1 :: later.upcoming, later.ending, List.forall_mem_cons.mpr ⟨h, later.unsettled⟩,
      later.settled⟩
  else ⟨[], c.next.1, List.forall_mem_nil _, Bool.of_not_eq_false h⟩
termination_by c.rest.length
decreasing_by exact c.length_next_lt h

def ofString (source : String) : Feed := ofCursor (.ofString source)

def next : Feed → Answer × Feed
  | ⟨[], ending, unsettled, settled⟩ => (ending, ⟨[], ending, unsettled, settled⟩)
  | ⟨answer :: later, ending, unsettled, settled⟩ =>
    (answer, ⟨later, ending, (List.forall_mem_cons.mp unsettled).2, settled⟩)

def take (f : Feed) : Nat → List Answer × Feed
  | 0 => ([], f)
  | n + 1 =>
    let (answer, later) := f.next
    let (answers, last) := later.take n
    (answer :: answers, last)

/-- All tokens with the end of input as the last, or the first fault. -/
def tokens (f : Feed) : Except Fault (List (Located Token)) :=
  (f.upcoming ++ [f.ending]).mapM id

end Feed

def tokenize (source : String) : Except Fault (List (Located Token)) :=
  (Feed.ofString source).tokens

end GraphicScore
