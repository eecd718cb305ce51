import GraphicScore.Frame

/-!
# Entities

An escaped text has none of the characters that markup is made of: an entity is written for each of them, and
whoever replaces the entities gets the text back.
-/

namespace GraphicScore.Frame

/-- What is written for a character of markup. -/
def entities : List (List Char × Char) :=
  [(['&', 'a', 'm', 'p', ';'], '&'), (['&', 'l', 't', ';'], '<'), (['&', 'g', 't', ';'], '>'),
    (['&', 'q', 'u', 'o', 't', ';'], '"'), (['&', 'a', 'p', 'o', 's', ';'], '\'')]

def entityAt? (cs : List Char) : Option (List Char × Char) :=
  entities.find? fun entity => entity.1.isPrefixOf cs

/-- The text with every entity replaced by its character, from the left to the right. -/
def unescape : List Char → List Char
  | [] => []
  | c :: cs =>
    match entityAt? (c :: cs) with
    | some (entity, meant) => meant :: unescape (cs.drop (entity.length - 1))
    | none => c :: unescape cs
termination_by cs => cs.length
decreasing_by
  · simp only [List.length_drop, List.length_cons]
    omega
  · simp

/-- The text as it may stand in markup. -/
structure Escapes (written text : List Char) : Prop where
  plain : ∀ c ∈ written, c ∉ ['<', '>', '"', '\'']
  entity : ∀ front rest, written = front ++ '&' :: rest → ∃ entity ∈ entities, entity.1 <+: '&' :: rest
  restored : unescape written = text

section
variable {c : Char} {cs written text : List Char} {entity : List Char × Char}

theorem escape_cases (c : Char) :
    ((escape c).toList, c) ∈ entities ∨ (escape c).toList = [c] ∧ c ∉ entities.map Prod.snd := by
  fun_cases escape c with
  | case6 c hamp hlt hgt hquot hapos =>
    refine .inr ⟨by simp, ?_⟩
    simp only [entities, List.map_cons, List.map_nil, List.mem_cons, List.not_mem_nil, or_false, not_or]
    exact ⟨hamp, hlt, hgt, hquot, hapos⟩
  | _ => exact .inl (by decide)

theorem entityAt?_append (h : entity ∈ entities) : entityAt? (entity.1 ++ cs) = some entity := by
  revert entity
  simp only [entities, List.forall_mem_cons]
  exact ⟨rfl, rfl, rfl, rfl, rfl, List.forall_mem_nil _⟩

theorem exists_cons_of_mem_entities (h : entity ∈ entities) :
    ∃ name, entity.1 = '&' :: name ∧ '&' ∉ name ∧ ∀ c ∈ entity.1, c ∉ ['<', '>', '"', '\''] := by
  revert entity
  simp only [entities, List.forall_mem_cons]
  refine ⟨⟨_, rfl, ?_⟩, ⟨_, rfl, ?_⟩, ⟨_, rfl, ?_⟩, ⟨_, rfl, ?_⟩, ⟨_, rfl, ?_⟩, List.forall_mem_nil _⟩
  all_goals simp

theorem entityAt?_of_ne (h : c ≠ '&') : entityAt? (c :: cs) = none := by
  refine List.find?_eq_none.mpr fun entity hentity hprefix => ?_
  obtain ⟨name, hname, -⟩ := exists_cons_of_mem_entities hentity
  rw [hname, List.isPrefixOf_iff_prefix, List.cons_prefix_cons] at hprefix
  exact h hprefix.1.symm

theorem unescape_entity (h : entity ∈ entities) : unescape (entity.1 ++ cs) = entity.2 :: unescape cs := by
  obtain ⟨name, hname, -⟩ := exists_cons_of_mem_entities h
  have hat : entityAt? (entity.1 ++ cs) = some entity := entityAt?_append h
  rw [hname, List.cons_append] at hat ⊢
  rw [unescape, hat]
  simp [hname]

theorem unescape_cons (h : c ≠ '&') : unescape (c :: cs) = c :: unescape cs := by
  rw [unescape, entityAt?_of_ne h]

theorem escapes_nil : Escapes [] [] where
  plain := List.forall_mem_nil _
  entity front rest h := by simp at h
  restored := by rw [unescape]

theorem Escapes.entity_append (he : entity ∈ entities) (h : Escapes written text) :
    Escapes (entity.1 ++ written) (entity.2 :: text) where
  plain := by
    obtain ⟨name, -, -, hplain⟩ := exists_cons_of_mem_entities he
    exact List.forall_mem_append.mpr ⟨hplain, h.plain⟩
  entity front rest hw := by
    obtain ⟨name, hname, hamp, -⟩ := exists_cons_of_mem_entities he
    cases front with
    | nil => exact ⟨entity, he, written, hw⟩
    | cons c front =>
      -- no ampersand stands within the entity, so this one stands behind it
      rw [hname, List.cons_append, List.cons_append, List.cons.injEq] at hw
      rcases List.append_eq_append_iff.mp hw.2 with ⟨front', hfront, hrest⟩ | ⟨name', hname', hrest⟩
      · exact h.entity front' rest hrest
      · cases name' with
        | nil => exact h.entity [] rest hrest.symm
        | cons d name' =>
          rw [List.cons_append, List.cons.injEq] at hrest
          rw [hname', ← hrest.1] at hamp
          simp at hamp
  restored := by rw [unescape_entity he, h.restored]

theorem Escapes.cons (hc : c ∉ entities.map Prod.snd) (h : Escapes written text) :
    Escapes (c :: written) (c :: text) where
  plain := by
    refine List.forall_mem_cons.mpr ⟨fun hmem => hc ?_, h.plain⟩
    exact List.mem_cons_of_mem _ hmem
  entity front rest hw := by
    cases front with
    | nil =>
      obtain ⟨rfl, -⟩ := List.cons.inj hw
      exact absurd (by decide) hc
    | cons d front => exact h.entity front rest (List.cons.inj hw).2
  restored := by
    rw [unescape_cons, h.restored]
    rintro rfl
    exact hc (by decide)

end

theorem toList_escaped (text : String) :
    (escaped text).toList = text.toList.flatMap fun c => (escape c).toList := by
  rw [escaped, String.toList_join, List.flatMap_map]

/-- An escaped text may stand in markup, and is read back as the text. -/
theorem escapes_escaped (text : String) : Escapes (escaped text).toList text.toList := by
  rw [toList_escaped]
  induction text.toList with
  | nil => exact escapes_nil
  | cons c cs ih =>
    rw [List.flatMap_cons]
    rcases escape_cases c with hentity | ⟨hc, hplain⟩
    · exact ih.entity_append hentity
    · rw [hc]
      exact ih.cons hplain

theorem escaped_inj {a b : String} (h : escaped a = escaped b) : a = b := by
  rw [← String.toList_inj, ← (escapes_escaped a).restored, h, (escapes_escaped b).restored]

end GraphicScore.Frame
