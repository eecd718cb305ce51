import GraphicScore.Proofs.Token.Writing

/-!
# Cut texts

A scan stops where it has stopped before, if what stands there now begins with nothing new before the end
of the line. So what has been read in front of a cut is read as before.
-/

namespace GraphicScore

/-- The text begins with nothing, up to the end of a line, that the other one does not begin with. -/
def CutOff (rest rest' : List Char) : Prop := ∀ p, '\n' ∉ p → p <+: rest' → p <+: rest

section
variable {c : Char} {b s cs rest rest' : List Char} {p : Char → Bool}

theorem cutOff_nil : CutOff rest [] := by
  intro p _ h
  rw [List.prefix_nil.mp h]
  exact List.nil_prefix

theorem cutOff_newline : CutOff rest (rest ++ '\n' :: b) := by
  intro p hp h
  rcases List.prefix_or_prefix_of_prefix h (List.prefix_append ..) with hrest | ⟨q, rfl⟩
  · exact hrest
  · cases q with
    | nil => simp
    | cons c q =>
      obtain ⟨rfl, -⟩ := List.cons_prefix_cons.mp ((List.prefix_append_right_inj rest).mp h)
      simp at hp

theorem CutOff.append (h : CutOff rest rest') : CutOff (s ++ rest) (s ++ rest') := by
  intro p hp hprefix
  rcases List.prefix_or_prefix_of_prefix hprefix (List.prefix_append ..) with hs | ⟨q, rfl⟩
  · exact hs.trans (List.prefix_append s rest)
  · have hq := (List.prefix_append_right_inj s).mp hprefix
    exact (List.prefix_append_right_inj s).mpr (h q (fun hn => hp (List.mem_append_right _ hn)) hq)

theorem CutOff.head (h : CutOff rest (c :: rest')) (hc : c ≠ '\n') : ∃ cs, rest = c :: cs := by
  obtain ⟨cs, rfl⟩ := h [c] (by simpa using hc.symm) (by simp)
  exact ⟨cs, rfl⟩

theorem CutOff.takeWhile_eq (h : CutOff (cs.dropWhile p) rest) (hp : p '\n' = false) :
    (cs.takeWhile p ++ rest).takeWhile p = cs.takeWhile p ∧ (cs.takeWhile p ++ rest).dropWhile p = rest := by
  have hall : ∀ c ∈ cs.takeWhile p, p c = true := fun c => List.mem_takeWhile_imp
  have hstop : ∀ c ∈ rest.head?, p c = false := by
    cases rest with
    | nil => simp
    | cons c rest =>
      rintro _ ⟨⟩
      by_cases hc : c = '\n'
      · rw [hc, hp]
      · obtain ⟨cs', hcs⟩ := h.head hc
        have := List.head?_dropWhile_not p cs
        simpa [hcs] using this
  rw [takeWhile_append_of_stop hstop, dropWhile_append_of_stop hstop, List.takeWhile_eq_self_iff.mpr hall,
    List.dropWhile_eq_nil_iff.mpr hall]
  exact ⟨rfl, rfl⟩

end

/-! ## numerals -/

namespace Numeral

section
variable {c : Char} {cs rest : List Char}

theorem head?_takeWhile_append (h : cs.head?.any Char.isDigit = true) :
    (cs.takeWhile Char.isDigit ++ rest).head?.any Char.isDigit = true := by
  cases cs with
  | nil => contradiction
  | cons c cs =>
    have digit : c.isDigit = true := h
    rw [List.takeWhile_cons, if_pos digit]
    exact digit

theorem scanFraction_of_cutOff (h : CutOff (scanFraction cs).2 rest) :
    scanFraction ((scanFraction cs).1.elim [] ('.' :: ·) ++ rest) = ((scanFraction cs).1, rest) := by
  have hnone {cs : List Char} (hcs : scanFraction cs = (none, cs)) (h : CutOff cs rest) :
      scanFraction rest = (none, rest) := by
    fun_cases scanFraction rest with
    | case1 c rest digit =>
      have hc : c ≠ '\n' := by
        rintro rfl
        contradiction
      obtain ⟨cs', rfl⟩ := h ['.', c] (by simpa using hc.symm) (by simp)
      simp [scanFraction, digit] at hcs
    | _ => rfl
  fun_cases scanFraction cs with
  | case1 c cs digit =>
    have hhead : (c :: cs).head?.any Char.isDigit = true := digit
    rw [scanFraction_point hhead] at h
    obtain ⟨htake, hdrop⟩ := h.takeWhile_eq rfl
    show scanFraction ('.' :: ((c :: cs).takeWhile Char.isDigit ++ rest)) = _
    rw [scanFraction_point (head?_takeWhile_append hhead), htake, hdrop]
  | case2 c cs digit => exact hnone (by simp [scanFraction, digit]) h
  | case3 cs hcs => exact hnone (scanFraction.eq_2 cs hcs) (by rwa [scanFraction.eq_2 cs hcs] at h)

theorem scanExponent_of_cutOff (h : CutOff (scanExponent cs).2 rest) :
    scanExponent ((scanExponent cs).1.elim [] Exponent.spelling ++ rest) = ((scanExponent cs).1, rest) := by
  have hnone {cs : List Char} (hcs : scanExponent cs = (none, cs)) (h : CutOff cs rest) :
      scanExponent rest = (none, rest) := by
    fun_cases scanExponent rest with
    | case1 mark c rest hmark digit =>
      have hn : '\n' ∉ [mark, c] := by
        simp only [List.mem_cons]
        rintro (rfl | rfl | h) <;> contradiction
      obtain ⟨cs', rfl⟩ := h [mark, c] hn (by simp)
      simp [scanExponent, hmark, digit] at hcs
    | case2 mark c rest hmark digit hsign =>
      simp only [Bool.and_eq_true, Option.any_eq_true] at hsign
      obtain ⟨hsign, d, hd, digit'⟩ := hsign
      obtain ⟨rest, rfl⟩ := List.head?_eq_some_iff.mp hd
      have hn : '\n' ∉ [mark, c, d] := by
        simp only [List.mem_cons]
        rintro (rfl | rfl | rfl | h) <;> contradiction
      obtain ⟨cs', rfl⟩ := h [mark, c, d] hn (by simp)
      simp [scanExponent, hmark, digit, hsign, digit'] at hcs
    | _ => rfl
  fun_cases scanExponent cs with
  | case1 mark c cs hmark digit =>
    have hhead : (c :: cs).head?.any Char.isDigit = true := digit
    rw [scanExponent_mark hmark hhead] at h
    obtain ⟨htake, hdrop⟩ := h.takeWhile_eq rfl
    show scanExponent (mark :: ((c :: cs).takeWhile Char.isDigit ++ rest)) = _
    rw [scanExponent_mark hmark (head?_takeWhile_append hhead), htake, hdrop]
  | case2 mark c cs hmark digit hsign =>
    rw [Bool.and_eq_true] at hsign
    rw [scanExponent_sign hmark hsign.1 hsign.2] at h
    obtain ⟨htake, hdrop⟩ := h.takeWhile_eq rfl
    show scanExponent (mark :: c :: (cs.takeWhile Char.isDigit ++ rest)) = _
    rw [scanExponent_sign hmark hsign.1 (head?_takeWhile_append hsign.2), htake, hdrop]
  | case3 mark c cs hmark digit hsign => exact hnone (by simp [scanExponent, hmark, digit, hsign]) h
  | case4 mark c cs hmark => exact hnone (by simp [scanExponent, hmark]) h
  | case5 cs hcs => exact hnone (scanExponent.eq_2 cs hcs) (by rwa [scanExponent.eq_2 cs hcs] at h)

theorem scan_eq {fraction : Option (List Char)} {exponent : Option Exponent} {cs' : List Char}
    (hf : scanFraction (cs.dropWhile Char.isDigit) = (fraction, cs')) (he : scanExponent cs' = (exponent, rest)) :
    scan cs = (⟨cs.takeWhile Char.isDigit, fraction, exponent⟩, rest) := by
  simp only [scan, hf, he]

theorem scan_of_cutOff (h : CutOff (scan cs).2 rest) :
    scan ((scan cs).1.spelling ++ rest) = ((scan cs).1, rest) := by
  obtain ⟨⟨fraction, cs'⟩, hf⟩ : ∃ split, scanFraction (cs.dropWhile Char.isDigit) = split := ⟨_, rfl⟩
  obtain ⟨⟨exponent, rest'⟩, he⟩ : ∃ split, scanExponent cs' = split := ⟨_, rfl⟩
  have hfraction := scanFraction_append (cs.dropWhile Char.isDigit)
  have hexponent := scanExponent_append cs'
  rw [scan_eq hf he] at h ⊢
  rw [hf] at hfraction
  rw [he] at hexponent
  -- what the later parts take stands behind each of them as before
  have h₁ : CutOff cs' (exponent.elim [] Exponent.spelling ++ rest) := hexponent ▸ h.append
  have h₂ : CutOff (cs.dropWhile Char.isDigit)
      (fraction.elim [] ('.' :: ·) ++ (exponent.elim [] Exponent.spelling ++ rest)) := hfraction ▸ h₁.append
  have he' := scanExponent_of_cutOff (show CutOff (scanExponent cs').2 rest by rwa [he])
  have hf' := scanFraction_of_cutOff (show CutOff (scanFraction (cs.dropWhile Char.isDigit)).2 _ by rwa [hf])
  rw [he] at he'
  rw [hf] at hf'
  obtain ⟨htake, hdrop⟩ := h₂.takeWhile_eq rfl
  rw [spelling, List.append_assoc, List.append_assoc, scan_eq (hdrop ▸ hf') he', htake]

theorem exists_spelling_eq_cons (digit : c.isDigit = true) (cs : List Char) :
    ∃ w, (scan (c :: cs)).1.spelling = c :: w := by
  have hwhole : (scan (c :: cs)).1.whole = c :: cs.takeWhile Char.isDigit := by
    show (c :: cs).takeWhile Char.isDigit = _
    rw [List.takeWhile_cons, if_pos digit]
  rw [spelling, hwhole]
  exact ⟨_, rfl⟩

end

end Numeral

/-! ## lexemes -/

section
variable {cs rest : List Char} {t : Token}

/-- A backslash apart, which may go on with the end of a line. -/
theorem trivia_of_cutOff (h : CutOff (trivia cs).2 rest) (hb : (trivia cs).2.head? ≠ some '\\') :
    trivia ((trivia cs).1 ++ rest) = ((trivia cs).1, rest) := by
  fun_induction trivia cs with
  | case6 cs =>
    obtain ⟨htake, hdrop⟩ := h.takeWhile_eq rfl
    show trivia ('#' :: (cs.takeWhile (· != '\n') ++ rest)) = _
    rw [trivia, htake, hdrop]
  | case7 cs hspace htab hreturn _ _ hhash =>
    show trivia rest = ([], rest)
    -- whatever trivia there were now, the old text would have them in front
    fun_cases trivia rest with
    | case1 rest =>
      obtain ⟨cs, rfl⟩ := h.head (by decide)
      exact absurd rfl (hspace cs)
    | case2 rest =>
      obtain ⟨cs, rfl⟩ := h.head (by decide)
      exact absurd rfl (htab cs)
    | case3 rest =>
      obtain ⟨cs, rfl⟩ := h.head (by decide)
      exact absurd rfl (hreturn cs)
    | case4 rest =>
      obtain ⟨cs, rfl⟩ := h.head (by decide)
      exact absurd rfl hb
    | case5 rest =>
      obtain ⟨cs, rfl⟩ := h.head (by decide)
      exact absurd rfl hb
    | case6 rest =>
      obtain ⟨cs, rfl⟩ := h.head (by decide)
      exact absurd rfl (hhash cs)
    | case7 => rfl
  | _ cs ih =>
    have := ih h hb
    simp_all [trivia, trivia.skip]

theorem read_of_cutOff (ho : (Lexeme.read cs).outcome = .ok t) (ht : t ≠ .endOfInput)
    (h : CutOff (Lexeme.read cs).rest rest) :
    Lexeme.read ((Lexeme.read cs).taken ++ rest) = ⟨.ok t, (Lexeme.read cs).taken, rest⟩ := by
  revert ho h
  fun_cases Lexeme.read cs with
  | case1 =>
    intro ho
    cases ho
    contradiction
  | case2 c cs t' ht' =>
    intro ho _
    cases ho
    simp [Lexeme.read, ht']
  | case3 cs =>
    fun_cases Lexeme.arrow cs with
    | case1 cs =>
      intro ho _
      cases ho
      rfl
    | case2 => intro ho; cases ho
  | case4 cs =>
    intro ho h
    obtain ⟨htake, hdrop⟩ := h.takeWhile_eq rfl
    show Lexeme.symbol (cs.takeWhile Character.continuesName ++ rest) = _
    rw [Lexeme.symbol, htake, hdrop, ← ho]
    rfl
  | case5 c cs _ _ _ digit =>
    intro ho h
    obtain ⟨w, hw⟩ := Numeral.exists_spelling_eq_cons digit cs
    have hread : Lexeme.read ((Numeral.scan (c :: cs)).1.spelling ++ rest) =
        Lexeme.number ((Numeral.scan (c :: cs)).1.spelling ++ rest) := by
      rw [hw]
      exact read_of_isDigit digit
    show Lexeme.read ((Numeral.scan (c :: cs)).1.spelling ++ rest) = _
    rw [hread, Lexeme.number, Numeral.scan_of_cutOff h, ← ho]
    rfl
  | case6 c cs _ _ _ _ hstart =>
    intro ho h
    obtain ⟨htake, hdrop⟩ := h.takeWhile_eq rfl
    have hread : Lexeme.read ((c :: cs).takeWhile Character.continuesName ++ rest) =
        Lexeme.identifier ((c :: cs).takeWhile Character.continuesName ++ rest) := by
      rw [List.takeWhile_cons, if_pos (Character.continuesName_of_startsName hstart)]
      exact read_of_startsName hstart
    show Lexeme.read ((c :: cs).takeWhile Character.continuesName ++ rest) = _
    rw [hread, Lexeme.identifier, htake, hdrop, ← ho]
    rfl
  | case7 =>
    intro ho
    cases ho

end

end GraphicScore
