import GraphicScore.Proofs.Source.Texts

/-!
# Hyphens of canonical sources

A canonical source has a hyphen for a sign, with a digit behind it, and for an operator, with blanks around
it. Names have none. So no hyphen stands next to another one.
-/

namespace GraphicScore

/-! ## characters that do not meet -/

/-- The characters are nowhere in a row, and the first of them is not the last of the text. -/
def Avoids (a b : Char) (cs : List Char) : Prop := ¬[a, b] <:+: cs ∧ cs.getLast? ≠ some a

section
variable {α : Type} {a b c : Char} {cs ds : List Char} {xs : List α} {f : α → List Char}

theorem avoids_nil : Avoids a b [] := ⟨by simp, by simp⟩

theorem avoids_of_notMem (h : a ∉ cs) : Avoids a b cs :=
  ⟨fun hab => h (hab.subset List.mem_cons_self), fun hlast => h (List.mem_of_getLast? hlast)⟩

theorem avoids_of_notMem_second (h : b ∉ cs) (hlast : cs.getLast? ≠ some a) : Avoids a b cs :=
  ⟨fun hab => h (hab.subset (by simp)), hlast⟩

theorem Avoids.tail (h : Avoids a b (c :: cs)) : Avoids a b cs := by
  refine ⟨fun hab => h.1 (hab.trans (List.suffix_cons c cs).isInfix), fun hlast => h.2 ?_⟩
  rw [List.getLast?_cons, hlast]
  rfl

theorem Avoids.not_prefix (h : Avoids a b (c :: cs)) : ¬[a, b] <+: c :: (cs ++ ds) := by
  intro hab
  obtain ⟨rfl, hb⟩ := List.cons_prefix_cons.mp hab
  cases cs with
  | nil => exact h.2 rfl
  | cons d cs =>
    obtain ⟨rfl, -⟩ := List.cons_prefix_cons.mp hb
    exact h.1 (List.IsPrefix.isInfix ⟨cs, rfl⟩)

theorem Avoids.append (h : Avoids a b cs) (h' : Avoids a b ds) : Avoids a b (cs ++ ds) := by
  refine ⟨fun hab => ?_, fun hlast => ?_⟩
  · induction cs with
    | nil => exact h'.1 hab
    | cons c cs ih =>
      rw [List.cons_append, List.infix_cons_iff] at hab
      exact ih h.tail (hab.resolve_left h.not_prefix)
  · rw [List.getLast?_append] at hlast
    cases hds : ds.getLast? with
    | none => exact h.2 (by simpa [hds] using hlast)
    | some d => exact h'.2 (by simpa [hds] using hlast)

theorem Avoids.cons (hc : a ≠ c) (h : Avoids a b cs) : Avoids a b (c :: cs) :=
  (avoids_of_notMem (List.mem_singleton.not.mpr hc)).append h

theorem avoids_cons_self (hne : cs ≠ []) (h : a ∉ cs) : Avoids a a (a :: cs) := by
  refine ⟨fun haa => ?_, fun hlast => ?_⟩
  · rcases List.infix_cons_iff.mp haa with hfront | hrest
    · exact h ((List.cons_prefix_cons.mp hfront).2.subset List.mem_cons_self)
    · exact h (hrest.subset List.mem_cons_self)
  · rw [List.getLast?_cons_of_ne_nil hne] at hlast
    exact h (List.mem_of_getLast? hlast)

theorem Avoids.text_append {s t : String} (h : Avoids a b s.toList) (h' : Avoids a b t.toList) :
    Avoids a b (s ++ t).toList := by
  rw [String.toList_append]
  exact h.append h'

theorem avoids_flatMap (h : ∀ x ∈ xs, Avoids a b (f x)) : Avoids a b (xs.flatMap f) :=
  forall_flatMap avoids_nil Avoids.append h

theorem avoids_intercalate {separator : String} {texts : List String} (hs : Avoids a b separator.toList)
    (h : ∀ text ∈ texts, Avoids a b text.toList) : Avoids a b (separator.intercalate texts).toList :=
  forall_intercalate avoids_nil Avoids.append hs h

end

/-! ## hyphens -/

section
variable {text : String}

theorem avoids_signed (negative : Bool) (hne : text.toList ≠ []) (h : '-' ∉ text.toList) :
    Avoids '-' '-' (if negative then "-" ++ text else text).toList := by
  cases negative with
  | false => exact avoids_of_notMem h
  | true =>
    rw [if_pos rfl, String.toList_append]
    exact avoids_cons_self hne h

theorem avoids_name (h : isWord text = true) : Avoids '-' '-' text.toList :=
  avoids_of_notMem fun hmem => absurd ((isWord_iff.mp h).2 _ hmem) (by decide)

theorem avoids_constant (constant : Constant) : Avoids '-' '-' constant.text.toList := by
  cases constant with
  | int value =>
    rw [Constant.text, toString_int]
    refine avoids_signed _ ?_ (notMem_digits rfl _)
    simp [Nat.toString_eq_repr, Nat.toDigits_ne_nil]
  | float value =>
    cases value with
    | finite negative rank =>
      rw [text_finite]
      refine avoids_signed _ ?_ ?_
      · simp [Decimal.pointed_eq]
      · rw [String.toList_ofList]
        exact notMem_pointed rfl (by decide) _
    | nan => exact avoids_of_notMem (by decide)
    | infinite negative =>
      have htext : (Constant.float (.infinite negative)).text = if negative then "-" ++ "inf.0" else "inf.0" := by
        cases negative <;> decide
      rw [htext]
      exact avoids_signed negative (by decide) (by decide)

theorem compositional_avoids : Compositional (Avoids '-' '-') where
  nil := avoids_nil
  append := Avoids.append
  word := avoids_name
  constant := avoids_constant
  operator op := by
    unfold Avoids
    cases op <;> decide +kernel
  mark mark hmark := by
    apply avoids_of_notMem
    revert mark
    decide

theorem avoids_instrument {i : Instrument} (h : ∀ f ∈ i.features, f.isNamed = true) :
    Avoids '-' '-' i.text.toList := by
  rw [Instrument.text, String.toList_join, List.flatMap_map]
  refine avoids_flatMap fun f hf => ?_
  have hindent := (avoids_of_notMem (by simp)).text_append (s := "  ") (compositional_avoids.feature (h f hf))
  exact hindent.text_append (avoids_of_notMem (by simp))

theorem avoids_block {b : Block} (h : ∀ f ∈ b.instrument.features, f.isNamed = true) :
    Avoids '-' '-' b.text.toList := by
  have hnumbers : Avoids '-' '-' (", ".intercalate (b.numbers.map instrumentKey)).toList := by
    refine avoids_intercalate (avoids_of_notMem (by simp)) fun text htext => ?_
    obtain ⟨number, -, rfl⟩ := List.mem_map.mp htext
    exact avoids_of_notMem (notMem_digits rfl _)
  have hhead := (avoids_of_notMem (by simp)).text_append (s := "instr ") hnumbers
  have hdo := hhead.text_append (t := " do\n") (avoids_of_notMem (by simp))
  exact (hdo.text_append (avoids_instrument h)).text_append (avoids_of_notMem (by simp))

/-- No hyphen of a canonical source stands next to another one. -/
theorem avoids_toSource {d : Definitions} (h : ∀ b ∈ d.blocks, ∀ f ∈ b.instrument.features, f.isNamed = true) :
    Avoids '-' '-' d.toSource.toList := by
  refine avoids_intercalate (avoids_of_notMem (by simp)) fun text htext => ?_
  obtain ⟨b, hb, rfl⟩ := List.mem_map.mp htext
  exact avoids_block (h b hb)

end

end GraphicScore
