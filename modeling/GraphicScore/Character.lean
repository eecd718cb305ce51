import GraphicScore.Character.Letters
import GraphicScore.Character.Numerals
import GraphicScore.Character.Hidden

/-!
# Character classes

Which characters may start a name, which may continue it, and which a quoted text has to show by
number. ASCII is decided by rule and everything else by the tables.
-/

namespace GraphicScore.Character

def within (ranges : List (Nat × Nat)) (c : Char) : Bool :=
  ranges.any fun (first, last) => first ≤ c.toNat && c.toNat ≤ last

def isAscii (c : Char) : Bool := c.toNat < 128

def isLetter (c : Char) : Bool :=
  if isAscii c then c.isAlpha else within letterRanges c

def isNumeral (c : Char) : Bool :=
  if isAscii c then c.isDigit else within numeralRanges c

def startsName (c : Char) : Bool := isLetter c || c == '_'

def continuesName (c : Char) : Bool := isLetter c || isNumeral c || c == '_'

/-- Hidden characters have no glyph of their own; of the separators only the space is shown. -/
def isHidden (c : Char) : Bool :=
  if isAscii c then c.toNat < 32 || c.toNat == 127 else within hiddenRanges c

theorem continuesName_of_startsName {c : Char} (h : startsName c = true) : continuesName c = true := by
  simp only [startsName, continuesName, Bool.or_eq_true] at *
  exact h.imp Or.inl id

theorem continuesName_of_isDigit {c : Char} (h : c.isDigit = true) : continuesName c = true := by
  have small : c.toNat ≤ 57 := by
    simp only [Char.isDigit, Bool.and_eq_true, decide_eq_true_eq] at h
    exact h.2
  have ascii : isAscii c = true := decide_eq_true (by omega)
  simp [continuesName, isNumeral, ascii, h]

end GraphicScore.Character
