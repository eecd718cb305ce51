import GraphicScore.Proofs.Token.Cutting

/-!
# The longest numeral

Scanning splits off a numeral of the grammar, and no longer one stands at the front of the text.
-/

namespace GraphicScore.Numeral

section
variable {c : Char} {cs : List Char} {n : Numeral}

theorem isDigits_takeWhile (h : cs.head?.any Char.isDigit = true) : IsDigits (cs.takeWhile Char.isDigit) := by
  cases cs with
  | nil => contradiction
  | cons c cs =>
    have digit : c.isDigit = true := h
    refine ⟨?_, fun _ => List.mem_takeWhile_imp⟩
    rw [List.takeWhile_cons, if_pos digit]
    exact List.cons_ne_nil _ _

theorem isDigits_scanFraction : ∀ places ∈ (scanFraction cs).1, IsDigits places := by
  fun_cases scanFraction cs with
  | case1 c cs digit =>
    rintro _ ⟨⟩
    exact isDigits_takeWhile digit
  | case2 => simp
  | case3 => simp

theorem isWritten_scanExponent : ∀ e ∈ (scanExponent cs).1, e.IsWritten := by
  fun_cases scanExponent cs with
  | case1 mark c cs hmark digit =>
    rintro _ ⟨⟩
    exact ⟨by simpa using hmark, by simp, isDigits_takeWhile digit⟩
  | case2 mark sign cs hmark digit hsign =>
    rintro _ ⟨⟩
    rw [Bool.and_eq_true] at hsign
    refine ⟨by simpa using hmark, ?_, isDigits_takeWhile hsign.2⟩
    rintro _ ⟨⟩
    simpa using hsign.1
  | case3 => simp
  | case4 => simp
  | case5 => simp

theorem isWritten_scan (digit : c.isDigit = true) (cs : List Char) : (scan (c :: cs)).1.IsWritten where
  whole := isDigits_takeWhile digit
  fraction := isDigits_scanFraction
  exponent := isWritten_scanExponent

/-- A longer numeral at the front would have been scanned as what was scanned, and as itself. -/
theorem spelling_prefix_scan (hn : n.IsWritten) (h : n.spelling <+: cs) : n.spelling <+: (scan cs).1.spelling := by
  have hscan : (scan cs).1.spelling <+: cs := ⟨_, scan_append cs⟩
  rcases List.prefix_or_prefix_of_prefix h hscan with hshorter | ⟨more, hmore⟩
  · exact hshorter
  · have hlonger : (scan cs).1.spelling ++ more <+: (scan cs).1.spelling ++ (scan cs).2 := by
      rwa [hmore, scan_append]
    have hrest : more <+: (scan cs).2 := (List.prefix_append_right_inj _).mp hlonger
    have hcut : CutOff (scan cs).2 more := fun _ _ hp => hp.trans hrest
    have hagain := scan_of_cutOff hcut
    rw [hmore, scan_spelling hn] at hagain
    obtain rfl : [] = more := congrArg Prod.snd hagain
    exact ⟨[], by rw [List.append_nil, ← hmore, List.append_nil]⟩

end

end GraphicScore.Numeral
