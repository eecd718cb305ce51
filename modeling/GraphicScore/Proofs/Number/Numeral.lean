import GraphicScore.Character
import GraphicScore.Number.Numeral
import Mathlib.Data.List.TakeWhile

/-!
# Scanning numerals

A numeral is scanned to its end wherever the text behind it cannot go on with it.
-/

namespace GraphicScore

section
variable {p : Char → Bool} {cs rest : List Char}

theorem takeWhile_append_of_stop (h : ∀ c ∈ rest.head?, p c = false) :
    (cs ++ rest).takeWhile p = cs.takeWhile p := by
  induction cs with
  | nil =>
    cases rest with
    | nil => rfl
    | cons c rest => simp [h c rfl]
  | cons c cs ih =>
    rw [List.cons_append, List.takeWhile_cons, List.takeWhile_cons, ih]

theorem dropWhile_append_of_stop (h : ∀ c ∈ rest.head?, p c = false) :
    (cs ++ rest).dropWhile p = cs.dropWhile p ++ rest := by
  induction cs with
  | nil =>
    cases rest with
    | nil => rfl
    | cons c rest => simp [h c rfl]
  | cons c cs ih =>
    rw [List.cons_append, List.dropWhile_cons, List.dropWhile_cons, ih]
    split <;> rfl

end

/-! ## where a text breaks -/

/-- No name or number goes on with the text. -/
def Breaks (cs : List Char) : Prop := ∀ c ∈ cs.head?, Character.continuesName c = false ∧ c ≠ '.'

section
variable {rest : List Char}

theorem Breaks.continuesName (h : Breaks rest) : ∀ c ∈ rest.head?, Character.continuesName c = false :=
  fun c hc => (h c hc).1

theorem Breaks.isDigit (h : Breaks rest) : ∀ c ∈ rest.head?, c.isDigit = false := by
  intro c hc
  cases hd : c.isDigit with
  | false => rfl
  | true => rw [← Character.continuesName_of_isDigit hd, (h c hc).1]

end

namespace Numeral

theorem scanFraction_of_ne_point {cs : List Char} (h : ∀ c ∈ cs.head?, c ≠ '.') :
    scanFraction cs = (none, cs) := by
  fun_cases scanFraction cs with
  | case1 => exact absurd rfl (h '.' rfl)
  | case2 => rfl
  | case3 => rfl

theorem scanFraction_append_of_breaks {cs rest : List Char} (h : Breaks rest) :
    scanFraction (cs ++ rest) = ((scanFraction cs).1, (scanFraction cs).2 ++ rest) := by
  fun_cases scanFraction cs with
  | case1 c cs digit =>
    simp only [List.cons_append, scanFraction, digit, if_true]
    rw [← List.cons_append, takeWhile_append_of_stop h.isDigit, dropWhile_append_of_stop h.isDigit]
  | case2 c cs digit => simp [scanFraction, digit]
  | case3 cs hcs =>
    cases cs with
    | nil => exact scanFraction_of_ne_point fun c hc => (h c hc).2
    | cons c cs =>
      by_cases hc : c = '.'
      · subst hc
        cases cs with
        | cons c cs => exact absurd rfl (hcs c cs)
        | nil =>
          cases rest with
          | nil => rfl
          | cons c rest => simp [scanFraction, h.isDigit c rfl]
      · refine scanFraction_of_ne_point ?_
        intro c' hc'
        cases hc'
        exact hc

theorem scanExponent_of_no_mark {cs : List Char} (h : ∀ c ∈ cs.head?, c ≠ 'e' ∧ c ≠ 'E') :
    scanExponent cs = (none, cs) := by
  fun_cases scanExponent cs <;> simp_all

theorem scanExponent_append_of_breaks {cs rest : List Char} (h : Breaks rest) (hcs : (scanExponent cs).2 = []) :
    scanExponent (cs ++ rest) = ((scanExponent cs).1, rest) := by
  fun_cases scanExponent cs with
  | case1 mark c cs hmark digit =>
    have hdrop : (c :: cs).dropWhile Char.isDigit = [] := by
      simpa [scanExponent, hmark, digit] using hcs
    simp only [List.cons_append, scanExponent, hmark, digit, if_true]
    rw [← List.cons_append, takeWhile_append_of_stop h.isDigit, dropWhile_append_of_stop h.isDigit, hdrop]
    rfl
  | case2 mark c cs hmark digit hsign =>
    have hdrop : cs.dropWhile Char.isDigit = [] := by
      simpa [scanExponent, hmark, digit, hsign] using hcs
    have hhead : (cs ++ rest).head?.any Char.isDigit = cs.head?.any Char.isDigit := by
      cases cs with
      | nil => simp at hsign
      | cons c cs => rfl
    simp only [List.cons_append, scanExponent, hmark, digit, hhead, hsign, if_true, Bool.false_eq_true, if_false]
    rw [takeWhile_append_of_stop h.isDigit, dropWhile_append_of_stop h.isDigit, hdrop]
    rfl
  | case3 mark c cs hmark digit hsign => simp [scanExponent, hmark, digit, hsign] at hcs
  | case4 mark c cs hmark => simp [scanExponent, hmark] at hcs
  | case5 cs hshort =>
    match cs with
    | [] =>
      refine scanExponent_of_no_mark ?_
      intro c hc
      have := (h c hc).1
      exact ⟨fun e => absurd (e ▸ this) (by decide), fun e => absurd (e ▸ this) (by decide)⟩
    | [mark] => simp [scanExponent] at hcs
    | mark :: c :: cs => exact absurd rfl (hshort mark c cs)

theorem scan_append_of_breaks {cs rest : List Char} (h : Breaks rest) (hcs : (scan cs).2 = []) :
    scan (cs ++ rest) = ((scan cs).1, rest) := by
  simp only [scan, takeWhile_append_of_stop h.isDigit, dropWhile_append_of_stop h.isDigit,
    scanFraction_append_of_breaks h] at hcs ⊢
  rw [scanExponent_append_of_breaks h hcs]

/-! ## spelled numerals -/

def AllDigits (cs : List Char) : Prop := ∀ c ∈ cs, c.isDigit = true

theorem scan_digits {cs : List Char} (h : AllDigits cs) : scan cs = (⟨cs, none, none⟩, []) := by
  simp [scan, List.takeWhile_eq_self_iff.mpr h, List.dropWhile_eq_nil_iff.mpr h, scanFraction, scanExponent]

theorem scan_fraction {whole places : List Char} (hw : AllDigits whole) (hp : AllDigits places)
    (hne : places ≠ []) : scan (whole ++ '.' :: places) = (⟨whole, some places, none⟩, []) := by
  have hstop : ∀ c ∈ ('.' :: places).head?, c.isDigit = false := by
    intro c hc
    cases hc
    rfl
  obtain ⟨c, cs, rfl⟩ := List.exists_cons_of_ne_nil hne
  have hfraction : scanFraction ('.' :: c :: cs) = (some (c :: cs), []) := by
    rw [scanFraction, if_pos (hp c (List.mem_cons_self ..)), List.takeWhile_eq_self_iff.mpr hp,
      List.dropWhile_eq_nil_iff.mpr hp]
  rw [scan, takeWhile_append_of_stop hstop, dropWhile_append_of_stop hstop,
    List.takeWhile_eq_self_iff.mpr hw, List.dropWhile_eq_nil_iff.mpr hw, List.nil_append, hfraction]
  rfl

section
variable {mark : Char} {cs : List Char}

theorem scanFraction_point (h : cs.head?.any Char.isDigit = true) :
    scanFraction ('.' :: cs) = (some (cs.takeWhile Char.isDigit), cs.dropWhile Char.isDigit) := by
  cases cs with
  | nil => contradiction
  | cons c cs =>
    have digit : c.isDigit = true := h
    rw [scanFraction, if_pos digit]

theorem scanFraction_point_of_no_digit (h : ¬ cs.head?.any Char.isDigit = true) :
    scanFraction ('.' :: cs) = (none, '.' :: cs) := by
  cases cs with
  | nil => rfl
  | cons c cs =>
    have digit : ¬ c.isDigit = true := h
    rw [scanFraction, if_neg digit]

theorem scanExponent_mark (hmark : (mark = 'e' || mark = 'E') = true) (h : cs.head?.any Char.isDigit = true) :
    scanExponent (mark :: cs) = (some ⟨mark, none, cs.takeWhile Char.isDigit⟩, cs.dropWhile Char.isDigit) := by
  cases cs with
  | nil => contradiction
  | cons c cs =>
    have digit : c.isDigit = true := h
    rw [scanExponent, if_pos hmark, if_pos digit]

theorem scanExponent_sign {sign : Char} (hmark : (mark = 'e' || mark = 'E') = true)
    (hsign : (sign = '+' || sign = '-') = true) (h : cs.head?.any Char.isDigit = true) :
    scanExponent (mark :: sign :: cs) =
      (some ⟨mark, some sign, cs.takeWhile Char.isDigit⟩, cs.dropWhile Char.isDigit) := by
  have hdigit : ¬ sign.isDigit = true := by
    simp only [Bool.or_eq_true, decide_eq_true_eq] at hsign
    rcases hsign with rfl | rfl <;> decide
  rw [scanExponent, if_pos hmark, if_neg hdigit, if_pos (by rw [hsign, h]; rfl)]

end

/-! ## the grammar -/

def IsDigits (cs : List Char) : Prop := cs ≠ [] ∧ AllDigits cs

instance (cs : List Char) : Decidable (AllDigits cs) := decidable_of_iff (cs.all Char.isDigit = true) List.all_eq_true

instance (cs : List Char) : Decidable (IsDigits cs) := inferInstanceAs (Decidable (_ ∧ _))

structure Exponent.IsWritten (e : Exponent) : Prop where
  mark : e.mark = 'e' ∨ e.mark = 'E'
  sign : ∀ c ∈ e.sign, c = '+' ∨ c = '-'
  digits : IsDigits e.digits

/-- Deciding on a sign goes through the sign there is, not through all characters. -/
theorem isSign_iff {sign : Option Char} :
    sign.all (fun c => c == '+' || c == '-') = true ↔ ∀ c ∈ sign, c = '+' ∨ c = '-' := by
  cases sign <;> simp

instance (e : Exponent) : Decidable e.IsWritten :=
  decidable_of_iff
    ((e.mark = 'e' ∨ e.mark = 'E') ∧ e.sign.all (fun c => c == '+' || c == '-') = true ∧ IsDigits e.digits)
    ⟨fun ⟨hmark, hsign, hdigits⟩ => ⟨hmark, isSign_iff.mp hsign, hdigits⟩,
      fun ⟨hmark, hsign, hdigits⟩ => ⟨hmark, isSign_iff.mpr hsign, hdigits⟩⟩

/-- The numeral is `digit+ ['.' digit+] [('e' | 'E') ['+' | '-'] digit+]`. -/
structure IsWritten (n : Numeral) : Prop where
  whole : IsDigits n.whole
  fraction : ∀ places ∈ n.fraction, IsDigits places
  exponent : ∀ e ∈ n.exponent, e.IsWritten

instance (n : Numeral) : Decidable n.IsWritten :=
  decidable_of_iff
    (IsDigits n.whole ∧ (∀ places ∈ n.fraction, IsDigits places) ∧ ∀ e ∈ n.exponent, e.IsWritten)
    ⟨fun ⟨hwhole, hfraction, hexponent⟩ => ⟨hwhole, hfraction, hexponent⟩,
      fun ⟨hwhole, hfraction, hexponent⟩ => ⟨hwhole, hfraction, hexponent⟩⟩

section
variable {cs rest : List Char} {n : Numeral}

theorem IsDigits.head?_any (h : IsDigits cs) : cs.head?.any Char.isDigit = true := by
  obtain ⟨c, cs, rfl⟩ := List.exists_cons_of_ne_nil h.1
  exact h.2 c (List.mem_cons_self ..)

theorem IsDigits.head?_append (h : IsDigits cs) : (cs ++ rest).head? = cs.head? := by
  obtain ⟨c, cs, rfl⟩ := List.exists_cons_of_ne_nil h.1
  rfl

theorem AllDigits.takeWhile_append (h : AllDigits cs) (hr : ∀ c ∈ rest.head?, c.isDigit = false) :
    (cs ++ rest).takeWhile Char.isDigit = cs ∧ (cs ++ rest).dropWhile Char.isDigit = rest := by
  rw [takeWhile_append_of_stop hr, dropWhile_append_of_stop hr, List.takeWhile_eq_self_iff.mpr h,
    List.dropWhile_eq_nil_iff.mpr h]
  exact ⟨rfl, rfl⟩

theorem scanExponent_spelling {e : Option Exponent} (h : ∀ e' ∈ e, e'.IsWritten) :
    scanExponent (e.elim [] Exponent.spelling) = (e, []) := by
  cases e with
  | none => rfl
  | some e =>
    obtain ⟨mark, sign, digits⟩ := e
    obtain ⟨hwritten, hsign, hdigits⟩ := h _ rfl
    have hhead : digits.head?.any Char.isDigit = true := hdigits.head?_any
    have htake : digits.takeWhile Char.isDigit = digits := List.takeWhile_eq_self_iff.mpr hdigits.2
    have hdrop : digits.dropWhile Char.isDigit = [] := List.dropWhile_eq_nil_iff.mpr hdigits.2
    have hmark : (decide (mark = 'e') || decide (mark = 'E')) = true := by simpa using hwritten
    cases sign with
    | none =>
      have hscan := scanExponent_mark hmark hhead
      rwa [htake, hdrop] at hscan
    | some sign =>
      have hsign : (decide (sign = '+') || decide (sign = '-')) = true := by simpa using hsign sign rfl
      have hscan := scanExponent_sign hmark hsign hhead
      rwa [htake, hdrop] at hscan

/-- A numeral of the grammar is scanned as it is written. -/
theorem scan_spelling (h : n.IsWritten) : scan n.spelling = (n, []) := by
  obtain ⟨whole, fraction, exponent⟩ := n
  obtain ⟨hwhole, hfraction, hexponent⟩ := h
  have hscan := scanExponent_spelling hexponent
  -- no exponent begins with a digit or with a point
  have hmark : ∀ c ∈ (exponent.elim [] Exponent.spelling).head?, c.isDigit = false ∧ c ≠ '.' := by
    cases exponent with
    | none => simp
    | some e =>
      intro c hc
      obtain rfl : e.mark = c := by simpa [Exponent.spelling] using hc
      rcases (hexponent e rfl).mark with hmark | hmark <;> simp [hmark]
  simp only [scan, spelling]
  generalize exponent.elim [] Exponent.spelling = behind at hscan hmark ⊢
  cases fraction with
  | none =>
    obtain ⟨htake, hdrop⟩ := hwhole.2.takeWhile_append fun c hc => (hmark c hc).1
    have hpoint := scanFraction_of_ne_point fun c hc => (hmark c hc).2
    rw [Option.elim_none, List.append_nil, htake, hdrop, hpoint, hscan]
  | some places =>
    have hplaces := hfraction places rfl
    have hstop : ∀ c ∈ ('.' :: (places ++ behind)).head?, c.isDigit = false := by
      intro c hc
      cases hc
      rfl
    obtain ⟨htake, hdrop⟩ := hwhole.2.takeWhile_append hstop
    obtain ⟨htake', hdrop'⟩ := hplaces.2.takeWhile_append fun c hc => (hmark c hc).1
    have hhead : (places ++ behind).head?.any Char.isDigit = true := by
      rw [hplaces.head?_append, hplaces.head?_any]
    have hpoint := scanFraction_point hhead
    rw [Option.elim_some, List.append_assoc, List.cons_append, htake, hdrop, hpoint, htake', hdrop', hscan]

end

end Numeral

end GraphicScore
