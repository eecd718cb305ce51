import GraphicScore.Proofs.Frame.Comments

/-!
# Prologues

The prologue of a document tells the keys of the score and everything that the frame has: no other keys and no
other frame have the same one. Whatever a title or a fill says, it is not taken for markup.
-/

namespace GraphicScore

/-! ## texts put together -/

section
variable {c : Char} {us vs : List (List Char)}

theorem intercalate_eq_nil (hu : ∀ u ∈ us, u ≠ []) (h : [c].intercalate us = []) : us = [] := by
  cases us with
  | nil => rfl
  | cons u us =>
    rw [List.forall_mem_cons] at hu
    cases us with
    | nil => exact absurd (by simpa using h) hu.1
    | cons u' us => simp [List.intercalate_cons_cons] at h

theorem intercalate_inj (hu : ∀ u ∈ us, u ≠ [] ∧ c ∉ u) (hv : ∀ v ∈ vs, v ≠ [] ∧ c ∉ v)
    (h : [c].intercalate us = [c].intercalate vs) : us = vs := by
  by_cases hus : us = []
  · rw [hus, List.intercalate_nil] at h
    rw [hus, intercalate_eq_nil (fun v hmem => (hv v hmem).1) h.symm]
  · have hvs : vs ≠ [] := by
      rintro rfl
      exact hus (intercalate_eq_nil (fun u hmem => (hu u hmem).1) h)
    rw [← List.splitOn_intercalate c (fun u hmem => (hu u hmem).2) hus, h,
      List.splitOn_intercalate c (fun v hmem => (hv v hmem).2) hvs]

end

theorem keys_of_intercalate {d d' : Definitions} (h : " ".intercalate d.keys = " ".intercalate d'.keys) :
    d.keys = d'.keys := by
  have hkeys (d : Definitions) : ∀ text ∈ d.keys.map String.toList, text ≠ [] ∧ ' ' ∉ text := by
    refine List.forall_mem_map.mpr fun key hkey => ?_
    obtain ⟨number, rfl⟩ := exists_number_of_mem_keys hkey
    refine ⟨?_, notMem_digits rfl _⟩
    simp [instrumentKey, Nat.toString_eq_repr, Nat.toDigits_ne_nil]
  have htexts := congrArg String.toList h
  rw [String.toList_intercalate, String.toList_intercalate] at htexts
  have := intercalate_inj (hkeys d) (hkeys d') htexts
  exact (List.map_inj_right fun _ _ => String.toList_inj.mp).mp this

namespace Frame

/-! ## parts of the prologue -/

section
variable {f f' : Frame} {a b : String} {r r' : List Char}

theorem quoted_append_inj (ha : '"' ∉ a.toList) (hb : '"' ∉ b.toList)
    (h : (quoted a).toList ++ r = (quoted b).toList ++ r') : a = b ∧ r = r' := by
  have hquoted (text : String) (rest : List Char) :
      (quoted text).toList ++ rest = '"' :: (text.toList ++ '"' :: rest) := by
    simp [quoted]
  rw [hquoted, hquoted, List.cons.injEq] at h
  obtain ⟨htext, hrest⟩ := append_mark_inj ha hb h.2
  exact ⟨String.toList_inj.mp htext, hrest⟩

theorem size_append_inj {m n : UInt32}
    (h : (quoted (toString m.toNat)).toList ++ r = (quoted (toString n.toNat)).toList ++ r') : m = n ∧ r = r' := by
  obtain ⟨hsize, hrest⟩ := quoted_append_inj (notMem_digits rfl _) (notMem_digits rfl _) h
  exact ⟨instrumentKey_inj hsize, hrest⟩

theorem opening_append_inj (h : f.opening.toList ++ r = f'.opening.toList ++ r') :
    f.width = f'.width ∧ f.height = f'.height ∧ r = r' := by
  unfold opening at h
  simp only [String.toList_append, List.append_assoc] at h
  obtain ⟨hwidth, h⟩ := size_append_inj (List.append_cancel_left h)
  obtain ⟨hheight, h⟩ := size_append_inj (List.append_cancel_left h)
  rw [hwidth, hheight] at h
  exact ⟨hwidth, hheight, by simpa only [List.append_cancel_left_eq] using h⟩

theorem titleElement_append_inj (h : (titleElement a).toList ++ r = (titleElement b).toList ++ r') :
    a = b ∧ r = r' := by
  unfold titleElement at h
  simp only [String.toList_append, List.append_assoc] at h
  have hclosing : "</title>\n".toList = '<' :: "/title>\n".toList := by decide
  have h := List.append_cancel_left h
  rw [hclosing, List.cons_append, List.cons_append] at h
  obtain ⟨htext, hrest⟩ := append_mark_inj notMem_escaped notMem_escaped h
  exact ⟨escaped_inj (String.toList_inj.mp htext), List.append_cancel_left hrest⟩

theorem backgroundElement_inj (hwidth : f.width = f'.width) (hheight : f.height = f'.height)
    (h : f.backgroundElement a = f'.backgroundElement b) : a = b := by
  have h := congrArg String.toList h
  unfold backgroundElement at h
  simp only [hwidth, hheight, String.toList_append, List.append_assoc, List.append_cancel_left_eq] at h
  have hplain (text : String) : '"' ∉ (escaped text).toList := fun hmem =>
    (escapes_escaped text).plain _ hmem (by decide)
  exact escaped_inj (quoted_append_inj (hplain a) (hplain b) h).1

/-! ## optional parts -/

theorem not_title_of_background (fill : Option String) :
    ¬"  <t".toList <+: (fill.elim "" f.backgroundElement).toList := by
  cases fill with
  | none => simp
  | some fill =>
    unfold backgroundElement
    simp [List.cons_prefix_cons]

theorem title_append_inj {title title' : Option String} (hr : ¬"  <t".toList <+: r) (hr' : ¬"  <t".toList <+: r')
    (h : (title.elim "" titleElement).toList ++ r = (title'.elim "" titleElement).toList ++ r') :
    title = title' ∧ r = r' := by
  have hprefix (text : String) (rest : List Char) : "  <t".toList <+: (titleElement text).toList ++ rest := by
    unfold titleElement
    simp [List.cons_prefix_cons]
  cases title with
  | none =>
    cases title' with
    | none => exact ⟨rfl, h⟩
    | some b =>
      have h : r = (titleElement b).toList ++ r' := h
      exact absurd (h ▸ hprefix b r') hr
  | some a =>
    cases title' with
    | none =>
      have h : (titleElement a).toList ++ r = r' := h
      exact absurd (h ▸ hprefix a r) hr'
    | some b =>
      obtain ⟨htext, hrest⟩ := titleElement_append_inj h
      exact ⟨congrArg some htext, hrest⟩

theorem background_inj (hwidth : f.width = f'.width) (hheight : f.height = f'.height) {fill fill' : Option String}
    (h : fill.elim "" f.backgroundElement = fill'.elim "" f'.backgroundElement) : fill = fill' := by
  have hne (f : Frame) (text : String) : f.backgroundElement text ≠ "" := by
    intro hempty
    have := congrArg String.toList hempty
    unfold backgroundElement at this
    simp at this
  cases fill with
  | none =>
    cases fill' with
    | none => rfl
    | some b => exact absurd h.symm (hne f' b)
  | some a =>
    cases fill' with
    | none => exact absurd h (hne f a)
    | some b => exact congrArg some (backgroundElement_inj hwidth hheight h)

theorem prologue_inj (h : f.prologue = f'.prologue) : f = f' := by
  have h := congrArg String.toList h
  unfold prologue at h
  simp only [String.toList_append, List.append_assoc] at h
  obtain ⟨hwidth, hheight, h⟩ := opening_append_inj (List.append_cancel_left h)
  obtain ⟨htitle, h⟩ := title_append_inj (not_title_of_background _) (not_title_of_background _) h
  have hfill := background_inj hwidth hheight (String.toList_inj.mp h)
  cases f
  cases f'
  simp_all

end

end Frame

/-! ## documents -/

/-- Whoever looks for the comments of the prologue finds the keys in one, and the frame behind it. -/
theorem comments_header (d : Definitions) (f : Frame) :
    comments (d.header f).toList =
      some ([(Frame.declaration.toList, (Frame.listing d).toList)], f.prologue.toList) := by
  have hdeclaration : Avoids '<' '!' Frame.declaration.toList :=
    avoids_of_notMem_second (by simp [Frame.declaration]) (by simp [Frame.declaration])
  rw [toList_header, comments_commented hdeclaration avoids_listing, comments_of_avoids (avoids_prologue f)]
  rfl

theorem header_inj {d d' : Definitions} {f f' : Frame} (h : d.header f = d'.header f') :
    d.keys = d'.keys ∧ f = f' := by
  have hcomments := comments_header d f
  rw [h, comments_header d' f'] at hcomments
  simp only [Option.some.injEq, Prod.mk.injEq, List.cons.injEq, String.toList_inj] at hcomments
  obtain ⟨⟨⟨-, hlisting⟩, -⟩, hprologue⟩ := hcomments
  have hkeys := congrArg String.toList hlisting
  unfold Frame.listing at hkeys
  rw [String.toList_append, String.toList_append, String.toList_append, String.toList_append,
    List.append_cancel_right_eq, List.append_cancel_left_eq, String.toList_inj] at hkeys
  exact ⟨(keys_of_intercalate hkeys).symm, (Frame.prologue_inj hprologue).symm⟩

section
variable {d : Definitions} {f : Frame}

theorem header_of_title {title : String} (h : f.title = some title) :
    d.header f = Frame.declaration ++ Frame.contents d ++ f.opening ++ "  " ++ "<title>" ++
      Frame.escaped title ++ "</title>" ++ ("\n" ++ f.background.elim "" f.backgroundElement) := by
  have hopening : "  <title>" = "  " ++ "<title>" := by decide
  have hclosing : "</title>\n" = "</title>" ++ "\n" := by decide
  rw [Definitions.header, h, Option.elim_some, Frame.titleElement, hopening, hclosing]
  simp only [String.append_assoc]

theorem header_of_background {fill : String} (h : f.background = some fill) :
    d.header f = Frame.declaration ++ Frame.contents d ++ f.opening ++ f.title.elim "" Frame.titleElement ++
      "  <rect x=\"0\" y=\"0\" width=" ++ Frame.quoted (toString f.width.toNat) ++ " height=" ++
      Frame.quoted (toString f.height.toNat) ++ " fill=\"" ++ Frame.escaped fill ++ "\"/>" ++ "\n" := by
  have hopening : " fill=\"" = " fill=" ++ "\"" := by decide
  have hclosing : "\"/>" = "\"" ++ "/>" := by decide
  have hend : "/>\n" = "/>" ++ "\n" := by decide
  have hquoted : Frame.quoted (Frame.escaped fill) = "\"" ++ Frame.escaped fill ++ "\"" := rfl
  rw [Definitions.header, h, Option.elim_some]
  unfold Frame.backgroundElement
  rw [hquoted, hopening, hclosing, hend]
  simp only [String.append_assoc]

end

/-- The prologue is that of one list of keys and one frame, and texts of the frame are no markup in it. -/
theorem header_eq_iff (d d' : Definitions) (f f' : Frame) :
    (d.header f = d'.header f' ↔ d.keys = d'.keys ∧ f = f') ∧
    (∀ title, f.title = some title → ∃ front written behind,
      d.header f = front ++ "<title>" ++ written ++ "</title>" ++ behind ∧
        Frame.Escapes written.toList title.toList) ∧
    ∀ fill, f.background = some fill → ∃ front written behind,
      d.header f = front ++ " fill=\"" ++ written ++ "\"/>" ++ behind ∧
        Frame.Escapes written.toList fill.toList := by
  refine ⟨⟨header_inj, fun h => ?_⟩, fun title htitle => ?_, fun fill hfill => ?_⟩
  · obtain ⟨hkeys, rfl⟩ := h
    unfold Definitions.header Frame.contents
    rw [hkeys]
  · exact ⟨_, _, _, header_of_title htitle, Frame.escapes_escaped title⟩
  · exact ⟨_, _, _, header_of_background hfill, Frame.escapes_escaped fill⟩

/-- An entity in a title is no less than the character it would mean. -/
theorem header_eq_iff_entity :
    Definitions.empty.header { title := some "<" } ≠ Definitions.empty.header { title := some "&lt;" } ∧
      ∃ front written behind, Definitions.empty.header { title := some "&lt;" } =
        front ++ "<title>" ++ written ++ "</title>" ++ behind ∧ Frame.Escapes written.toList "&lt;".toList := by
  have h := header_eq_iff .empty .empty { title := some "&lt;" } { title := some "<" }
  exact ⟨fun heq => absurd (h.1.mp heq.symm).2 (by decide), h.2.1 "&lt;" rfl⟩

end GraphicScore
