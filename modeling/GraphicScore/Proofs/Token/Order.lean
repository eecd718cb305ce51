import GraphicScore.Proofs.Token.Decomposition
import Mathlib.Data.List.Nodup

/-!
# Answers in order

Each answer of a feed is found behind all the earlier ones. So a place has one answer at most.
-/

namespace GraphicScore

def Answer.position : Answer → Position
  | .ok found => found.position
  | .error fault => fault.position

theorem Answer.position_of (p : Position) (outcome : Except Cause Token) : (Answer.of p outcome).position = p := by
  cases outcome <;> rfl

theorem Position.Precedes.ne {p q : Position} (h : p.Precedes q) : p ≠ q := by
  rintro rfl
  unfold Precedes at h
  omega

namespace Cursor

theorem position_next (c : Cursor) : c.next.1.position = c.position.past (trivia c.rest).1 :=
  Answer.position_of _ _

/-- An answer that does not settle the text is left behind. -/
theorem next_precedes {c : Cursor} (h : c.next.1.settled = false) :
    c.next.1.position.Precedes c.next.2.position := by
  have htaken := Lexeme.taken_ne_nil (trivia c.rest).2 (by rw [← Answer.settled_of]; exact h)
  rw [position_next, c.rest_next.2, Position.past_append]
  exact Position.precedes_past htaken

end Cursor

namespace Feed

variable {p : Position} {a b : Answer}

theorem answers_of_unsettled {c : Cursor} (h : c.next.1.settled = false) :
    (ofCursor c).upcoming ++ [(ofCursor c).ending] =
      c.next.1 :: ((ofCursor c.next.2).upcoming ++ [(ofCursor c.next.2).ending]) := by
  rw [(ofCursor_of_unsettled h).1, (ofCursor_of_unsettled h).2]
  rfl

theorem answers_of_settled {c : Cursor} (h : ¬ c.next.1.settled = false) :
    (ofCursor c).upcoming ++ [(ofCursor c).ending] = [c.next.1] := by
  rw [(ofCursor_of_settled h).1, (ofCursor_of_settled h).2]
  rfl

theorem precedes_answers (c : Cursor) (hp : p.Precedes c.position) :
    ∀ a ∈ (ofCursor c).upcoming ++ [(ofCursor c).ending], p.Precedes a.position := by
  induction hk : c.rest.length using Nat.strongRecOn generalizing c with
  | ind k ih =>
    have hfirst : p.Precedes c.next.1.position := c.position_next ▸ hp.past
    by_cases hn : c.next.1.settled = false
    · rw [answers_of_unsettled hn]
      have hlater : p.Precedes c.next.2.position := c.rest_next.2 ▸ hp.past
      exact List.forall_mem_cons.mpr ⟨hfirst, ih _ (hk ▸ c.length_next_lt hn) c.next.2 hlater rfl⟩
    · rw [answers_of_settled hn]
      exact List.forall_mem_singleton.mpr hfirst

theorem pairwise_answers (c : Cursor) :
    ((ofCursor c).upcoming ++ [(ofCursor c).ending]).Pairwise fun a b => a.position.Precedes b.position := by
  induction hk : c.rest.length using Nat.strongRecOn generalizing c with
  | ind k ih =>
    by_cases hn : c.next.1.settled = false
    · rw [answers_of_unsettled hn]
      exact .cons (precedes_answers _ (Cursor.next_precedes hn)) (ih _ (hk ▸ c.length_next_lt hn) c.next.2 rfl)
    · rw [answers_of_settled hn]
      exact List.pairwise_singleton _ _

theorem eq_of_position (c : Cursor) (ha : a ∈ (ofCursor c).upcoming ++ [(ofCursor c).ending])
    (hb : b ∈ (ofCursor c).upcoming ++ [(ofCursor c).ending]) (h : a.position = b.position) : a = b := by
  have hnodup : (((ofCursor c).upcoming ++ [(ofCursor c).ending]).map Answer.position).Nodup :=
    List.pairwise_map.mpr ((pairwise_answers c).imp Position.Precedes.ne)
  exact List.inj_on_of_nodup_map hnodup ha hb h

end Feed

end GraphicScore
