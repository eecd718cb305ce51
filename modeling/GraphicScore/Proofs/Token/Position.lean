import GraphicScore.Position

/-!
# Positions counted

What a position says of the text in front of it: how many lines it has ended, and how many characters stand
behind the last end of a line. Further on in a text positions come later.
-/

namespace GraphicScore

namespace Position

/-- The position behind a text, counted on the text as a whole. -/
def behind (cs : List Char) : Position :=
  ⟨1 + cs.count '\n', 1 + (cs.reverse.takeWhile (· != '\n')).length⟩

/-- In the order of lines first and of columns then. -/
def Precedes (p q : Position) : Prop := p.line < q.line ∨ p.line = q.line ∧ p.column < q.column

section
variable {p q r : Position} {c : Char} {cs s s' : List Char}

theorem after_behind : (behind cs).after c = behind (cs ++ [c]) := by
  unfold behind after
  by_cases hc : c = '\n'
  · subst hc
    simp [Nat.add_assoc]
  · simp [hc, Nat.add_comm]

theorem past_behind : (behind cs).past s = behind (cs ++ s) := by
  induction s generalizing cs with
  | nil => rw [List.append_nil]; rfl
  | cons c s ih =>
    show ((behind cs).after c).past s = _
    rw [after_behind, ih, List.append_assoc, List.singleton_append]

theorem behind_nil : behind [] = start := rfl

theorem past_append : p.past (s ++ s') = (p.past s).past s' := List.foldl_append

theorem Precedes.trans (h : p.Precedes q) (h' : q.Precedes r) : p.Precedes r := by
  unfold Precedes at *
  omega

theorem precedes_after : p.Precedes (p.after c) := by
  unfold Precedes after
  split
  · exact .inl (Nat.lt_succ_self _)
  · exact .inr ⟨rfl, Nat.lt_succ_self _⟩

theorem precedes_past (hs : s ≠ []) : p.Precedes (p.past s) := by
  induction s generalizing p with
  | nil => contradiction
  | cons c s ih =>
    show p.Precedes ((p.after c).past s)
    by_cases hnil : s = []
    · rw [hnil]
      exact precedes_after
    · exact precedes_after.trans (ih hnil)

theorem Precedes.past (h : p.Precedes q) : p.Precedes (q.past s) := by
  by_cases hnil : s = []
  · rw [hnil]
    exact h
  · exact h.trans (precedes_past hnil)

end

end Position

end GraphicScore
