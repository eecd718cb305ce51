import GraphicScore.Proofs.Source.Hyphens

/-!
# Paragraphs of canonical sources

A canonical source has its blocks one below the other, with a blank line between two of them and no other one.
Whoever cuts the text at its blank lines gets the blocks.
-/

namespace GraphicScore

/-- The texts between blank lines, each with the end of its last line. -/
def paragraphs : List Char → List (List Char)
  | [] => []
  | [c] => [[c]]
  | c :: d :: cs =>
    if c = '\n' ∧ d = '\n' then [c] :: paragraphs cs
    else
      match paragraphs (d :: cs) with
      | [] => [[c]]
      | p :: ps => (c :: p) :: ps

/-- Lines without a blank one. -/
def IsParagraph (cs : List Char) : Prop := cs.getLast? = some '\n' ∧ ¬['\n', '\n'] <:+: cs

section
variable {c d : Char} {cs rest : List Char}

theorem IsParagraph.tail (h : IsParagraph (c :: d :: cs)) : IsParagraph (d :: cs) :=
  ⟨by simpa using h.1, fun hblank => h.2 (hblank.trans (List.suffix_cons c _).isInfix)⟩

theorem IsParagraph.not_blank (h : IsParagraph (c :: d :: cs)) : ¬(c = '\n' ∧ d = '\n') := by
  intro hblank
  apply h.2
  rw [hblank.1, hblank.2]
  exact List.IsPrefix.isInfix ⟨cs, rfl⟩

theorem paragraphs_of_isParagraph (h : IsParagraph cs) : paragraphs cs = [cs] := by
  fun_induction paragraphs cs with
  | case1 => simp [IsParagraph] at h
  | case2 c => rfl
  | case3 c d cs hblank => exact absurd hblank h.not_blank
  | case4 c d cs hblank hnone ih =>
    rw [ih h.tail] at hnone
    contradiction
  | case5 c d cs hblank p ps hsome ih =>
    rw [ih h.tail, List.cons.injEq] at hsome
    rw [← hsome.1, ← hsome.2]

theorem paragraphs_append (h : IsParagraph cs) : paragraphs (cs ++ '\n' :: rest) = cs :: paragraphs rest := by
  induction cs with
  | nil => simp [IsParagraph] at h
  | cons c cs ih =>
    cases cs with
    | nil =>
      obtain rfl : c = '\n' := by simpa using h.1
      rfl
    | cons d cs =>
      rw [List.cons_append, List.cons_append, paragraphs, if_neg h.not_blank, ← List.cons_append, ih h.tail]

theorem isParagraph_snoc (h : Avoids '\n' '\n' cs) : IsParagraph (cs ++ ['\n']) := by
  refine ⟨by simp, fun hblank => ?_⟩
  rcases List.infix_concat_iff.mp hblank with hend | hrest
  · obtain ⟨front, hfront⟩ := hend
    have hcs : front ++ ['\n'] ++ ['\n'] = cs ++ ['\n'] := by simpa using hfront
    exact h.2 (by simp [← List.append_cancel_right hcs])
  · exact h.1 hrest

end

theorem paragraphs_intercalate {texts : List String} (h : ∀ text ∈ texts, IsParagraph text.toList) :
    paragraphs ("\n".intercalate texts).toList = texts.map String.toList := by
  induction texts with
  | nil => rfl
  | cons text texts ih =>
    rw [List.forall_mem_cons] at h
    cases texts with
    | nil => simpa using paragraphs_of_isParagraph h.1
    | cons text' texts =>
      have hblank : (text ++ "\n" ++ "\n".intercalate (text' :: texts)).toList =
          text.toList ++ '\n' :: ("\n".intercalate (text' :: texts)).toList := by
        simp
      rw [String.intercalate_cons_cons, hblank, paragraphs_append h.1, ih h.2]
      rfl

/-! ## statements -/

theorem compositional_line : Compositional (fun cs => '\n' ∉ cs) where
  nil := List.not_mem_nil
  append hcs hds := by simp [hcs, hds]
  word h hmem := absurd ((isWord_iff.mp h).2 _ hmem) (by decide)
  constant := notMem_constant (by decide) (by decide) (by decide)
  operator op := by cases op <;> decide +kernel
  mark := by decide

/-! ## blocks -/

theorem cons_flatMap_lines {α : Type} (xs : List α) (f : α → List Char) :
    '\n' :: xs.flatMap (fun x => f x ++ ['\n']) = xs.flatMap (fun x => '\n' :: f x) ++ ['\n'] := by
  induction xs with
  | nil => rfl
  | cons x xs ih => simp [ih]

theorem toList_instrument (i : Instrument) :
    i.text.toList = i.features.flatMap fun f => ("  " ++ f.text).toList ++ ['\n'] := by
  rw [Instrument.text, String.toList_join, List.flatMap_map]
  simp

theorem toList_block (b : Block) :
    b.text.toList =
      ("instr " ++ ", ".intercalate (b.numbers.map instrumentKey) ++ " do").toList ++
        b.instrument.features.flatMap (fun f => '\n' :: ("  " ++ f.text).toList) ++ "\nend".toList ++ ['\n'] := by
  have hbody : '\n' :: b.instrument.text.toList =
      b.instrument.features.flatMap (fun f => '\n' :: ("  " ++ f.text).toList) ++ ['\n'] := by
    rw [toList_instrument, cons_flatMap_lines]
  have hdo : " do\n".toList = " do".toList ++ ['\n'] := by decide
  have hend : "\nend".toList ++ ['\n'] = '\n' :: "end\n".toList := by decide
  simp only [String.toList_append] at hbody
  simp only [Block.text, String.toList_append, hdo, hend, List.append_assoc, List.singleton_append, hbody]

theorem isParagraph_block {b : Block} (h : ∀ f ∈ b.instrument.features, f.isNamed = true) :
    IsParagraph b.text.toList := by
  rw [toList_block]
  apply isParagraph_snoc
  have hkeys : '\n' ∉ (", ".intercalate (b.numbers.map instrumentKey)).toList := by
    refine forall_intercalate (P := fun cs => '\n' ∉ cs) compositional_line.nil compositional_line.append
      (by decide) fun key hkey => ?_
    obtain ⟨number, -, rfl⟩ := List.mem_map.mp hkey
    exact notMem_digits rfl _
  refine Avoids.append (Avoids.append (avoids_of_notMem ?_) (avoids_flatMap fun f hf => ?_)) ?_
  · rw [String.toList_append, String.toList_append, List.mem_append, List.mem_append]
    simp only [hkeys]
    decide
  · have hf := compositional_line.feature (h f hf)
    exact avoids_cons_self (by simp) (by simp [hf])
  · show Avoids '\n' '\n' ('\n' :: "end".toList)
    exact avoids_cons_self (by simp) (by simp)

/-- Cut at its blank lines, a canonical source is its blocks. -/
theorem paragraphs_toSource {d : Definitions} (h : ∀ b ∈ d.blocks, ∀ f ∈ b.instrument.features, f.isNamed = true) :
    paragraphs d.toSource.toList = (d.blocks.map Block.text).map String.toList :=
  paragraphs_intercalate (List.forall_mem_map.mpr fun b hb => isParagraph_block (h b hb))

end GraphicScore
