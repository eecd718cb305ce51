import GraphicScore.Proofs.Grammar.Score
import GraphicScore.Proofs.Reading.Chain

/-!
# Reading lists and sequences

Items with commas between them, and items with separators between and around them. The items add to
a state, and what is read is the fold of what the items of the word denote.
-/

namespace GraphicScore

/-! ## words -/

section
variable {α : Type} {Item : List Token → α → Prop} {w g : List Token} {a : α} {as : List α}

theorem Spaced.head (h : Spaced Item w as) {t : Token} (ht : t ∈ w.head?)
    (ne_nil : ∀ {w a}, Item w a → w ≠ []) : t.isSeparator = true ∨ ∃ v a, t ∈ v.head? ∧ Item v a := by
  cases h with
  | none hs => exact .inl (hs t (List.mem_of_mem_head? ht))
  | @some s w s' _ hs hw _ =>
    cases s with
    | nil =>
      obtain ⟨v, v', a, rfl, ha⟩ := hw.exists_head
      refine .inr ⟨v, a, ?_, ha⟩
      obtain ⟨_, u, rfl⟩ := List.exists_cons_of_ne_nil (ne_nil ha)
      exact ht
    | cons _ s =>
      cases ht
      exact .inl (hs t (List.mem_cons_self ..))

/-- Another item in front, if separators come behind it. -/
theorem Spaced.cons (hg : Separators g) (ha : Item w a) {v : List Token} (h : Spaced Item v as)
    (hv : ∀ t ∈ v.head?, t.isSeparator = true)
    (head : ∀ {w a}, Item w a → ∃ t v, w = t :: v ∧ t.isSeparator = false) :
    Spaced Item (g ++ w ++ v) (a :: as) := by
  cases h with
  | none hs => exact .some hg (.one ha) hs
  | @some s w' s' _ hs hw hs' =>
    have hne : s ≠ [] := by
      rintro rfl
      obtain ⟨u, u', b, rfl, hu⟩ := hw.exists_head
      obtain ⟨t, u, rfl, ht⟩ := head hu
      simp [ht] at hv
    have := Spaced.some hg (SepBy.more ha ⟨hs, hne⟩ hw) hs'
    simpa only [List.append_assoc] using this

end

namespace Reading

theorem skipSeparators_eq_ok {r r' : Reader} {u : Unit} :
    skipSeparators r = .ok u r' ↔
      ∃ g, r.Passes g r' ∧ Separators g ∧ r'.current.value.isSeparator = false :=
  skipWhile_eq_ok (by decide)

theorem skipSeparators_of_passes {r r' : Reader} {g : List Token} (hg : Separators g) (h : r.Passes g r') :
    skipSeparators r = skipSeparators r' :=
  skipWhile_of_passes (by decide) hg h

/-! ## items -/

/-- What an item's reading adds to the state, and which tokens may stand behind the item. -/
structure ReadsItem {σ α : Type} (item : σ → Reading σ) (Item : List Token → α → Prop)
    (add? : σ → α → Option σ) (Ends : Token → Prop) : Prop where
  sound : ∀ {s s' r r'}, r.depth = 0 → item s r = .ok s' r' →
    ∃ w a, r.Passes w r' ∧ Item w a ∧ add? s a = some s'
  complete : ∀ {s s' r r' w a}, r.depth = 0 → Item w a → add? s a = some s' → r.Passes w r' →
    Ends r'.current.value → item s r = .ok s' r'
  head : ∀ {w a}, Item w a → ∃ t v, w = t :: v ∧ t.isSeparator = false ∧ t ≠ .endOfInput

section
variable {σ α : Type} {item : σ → Reading σ} {Item : List Token → α → Prop} {add? : σ → α → Option σ}
  {Ends : Token → Prop} {s s' : σ} {r r' : Reader}

/-! ## lists -/

theorem listStep_eq_yield :
    listStep item s r = .ok (.yield s') r' ↔ ∃ r₁ w, item s r = .ok s' r₁ ∧ Comma w ∧ r₁.Passes w r' ∧
      r'.current.value ≠ .newline := by
  simp only [listStep, afterComma, bind_eq_ok, token_bind]
  constructor
  · intro h
    obtain ⟨s₁, r₁, hitem, h⟩ := h
    by_cases hc : r₁.current.value = .comma
    · simp only [hc, if_true, bind_eq_ok, skipNewlines_eq_ok, pure_eq_ok] at h
      obtain ⟨_, r₂, hm, _, _, ⟨n, hn, newlines, hstop⟩, e, rfl⟩ := h
      cases e
      exact ⟨r₁, .comma :: n, hitem, ⟨n, newlines, rfl⟩, hc ▸ .cons hm hn, hstop⟩
    · simp [hc] at h
  · intro h
    obtain ⟨r₁, _, hitem, ⟨n, newlines, rfl⟩, hw, hstop⟩ := h
    obtain ⟨hc, r₂, hm, hn⟩ := Reader.passes_cons.mp hw
    refine ⟨s', r₁, hitem, ?_⟩
    rw [if_pos hc, bind_of_ok hm]
    have hskip : skipNewlines r₂ = .ok () r' := skipNewlines_eq_ok.mpr ⟨n, hn, newlines, hstop⟩
    rw [bind_of_ok hskip, pure_run]

theorem listStep_eq_done :
    listStep item s r = .ok (.done s') r' ↔ item s r = .ok s' r' ∧ r'.current.value ≠ .comma := by
  simp only [listStep, afterComma, bind_eq_ok, token_bind]
  constructor
  · intro h
    obtain ⟨s₁, r₁, hitem, h⟩ := h
    by_cases hc : r₁.current.value = .comma
    · simp [hc, bind_eq_ok, map_eq_ok] at h
    · rw [if_neg hc] at h
      obtain ⟨e, rfl⟩ := pure_eq_ok.mp h
      cases e
      exact ⟨hitem, hc⟩
  · intro h
    obtain ⟨hitem, hc⟩ := h
    exact ⟨s', r', hitem, by rw [if_neg hc]; rfl⟩

variable (hi : ReadsItem item Item add? Ends)
include hi

theorem moves_listStep : Moves (·.depth = 0) (listStep item) := by
  intro s r s' r' hd h
  obtain ⟨r₁, _, hitem, ⟨n, -, rfl⟩, hw, -⟩ := listStep_eq_yield.mp h
  obtain ⟨v, a, hv, -, -⟩ := hi.sound hd hitem
  have hs := hw.size_lt (by decide)
  have hs₁ := hv.size_le
  exact ⟨(hw.depth_eq.trans hv.depth_eq).trans hd, by omega⟩

theorem list_sound (hd : r.depth = 0) (h : list item s r = .ok s' r') :
    ∃ w as, r.Passes w r' ∧ SepBy Comma Item w as ∧ as.foldlM add? s = some s' ∧
      r'.current.value ≠ .comma := by
  refine loop_induction (P := fun s r => ∃ w as, r.Passes w r' ∧ SepBy Comma Item w as ∧
    as.foldlM add? s = some s' ∧ r'.current.value ≠ .comma) (moves_listStep hi) ?_ ?_ hd h
  · intro s r hd h
    obtain ⟨hitem, hc⟩ := listStep_eq_done.mp h
    obtain ⟨w, a, hw, ha, hadd⟩ := hi.sound hd hitem
    exact ⟨w, [a], hw, .one ha, by simp [hadd], hc⟩
  · rintro s r s₁ r₁ hd h ⟨v, as, hv, has, hadd', hc⟩
    obtain ⟨r₂, g, hitem, comma, hg, -⟩ := listStep_eq_yield.mp h
    obtain ⟨w, a, hw, ha, hadd⟩ := hi.sound hd hitem
    refine ⟨w ++ g ++ v, a :: as, ?_, .more ha comma has, by simp [hadd, hadd'], hc⟩
    exact Reader.passes_append.mpr ⟨r₁, Reader.passes_append.mpr ⟨r₂, hw, hg⟩, hv⟩

/-- A list with an item in front of the next one is the list behind both. -/
theorem list_of_item {w g : List Token} {a : α} (hE : Ends .comma) (hd : r.depth = 0) (ha : Item w a)
    (comma : Comma g) (hadd : add? s a = some s') (hw : r.Passes (w ++ g) r') (hstop : r'.current.value ≠ .newline) :
    list item s r = list item s' r' := by
  obtain ⟨r₁, hw, hg⟩ := Reader.passes_append.mp hw
  have hcomma : r₁.current.value = .comma := by
    obtain ⟨n, -, rfl⟩ := comma
    exact (Reader.passes_cons.mp hg).1
  have hitem := hi.complete hd ha hadd hw (hcomma ▸ hE)
  exact loop_of_yield (moves_listStep hi) hd (listStep_eq_yield.mpr ⟨r₁, g, hitem, comma, hg, hstop⟩)

theorem current_ne_newline_of_item {w v : List Token} {a : α} (ha : Item w a) (hw : r.Passes (w ++ v) r') :
    r.current.value ≠ .newline := by
  obtain ⟨t, u, rfl, ht, -⟩ := hi.head ha
  rw [(Reader.passes_cons.mp hw).1]
  rintro rfl
  cases ht

theorem current_ne_newline_of_items {w v : List Token} {as : List α} (h : SepBy Comma Item w as)
    (hw : r.Passes (w ++ v) r') : r.current.value ≠ .newline := by
  obtain ⟨u, u', a, rfl, ha⟩ := h.exists_head
  rw [List.append_assoc] at hw
  exact current_ne_newline_of_item hi ha hw

theorem list_of_items {w g : List Token} {as : List α} (hE : Ends .comma) (hd : r.depth = 0)
    (h : SepBy Comma Item w as) (comma : Comma g) (hadd : as.foldlM add? s = some s')
    (hw : r.Passes (w ++ g) r') (hstop : r'.current.value ≠ .newline) :
    list item s r = list item s' r' := by
  induction h generalizing s r with
  | one ha => exact list_of_item hi hE hd ha comma (by simpa using hadd) hw hstop
  | more ha comma' has ih =>
    rw [List.foldlM_cons, Option.bind_eq_bind, Option.bind_eq_some_iff] at hadd
    obtain ⟨s₁, hadd, hadd'⟩ := hadd
    rw [List.append_assoc] at hw
    obtain ⟨r₁, hw, hv⟩ := Reader.passes_append.mp hw
    rw [list_of_item hi hE hd ha comma' hadd hw (current_ne_newline_of_items hi has hv)]
    exact ih (hw.depth_eq.trans hd) hadd' hv

theorem list_complete {w : List Token} {as : List α} (hE : Ends .comma) (hd : r.depth = 0)
    (h : SepBy Comma Item w as) (hadd : as.foldlM add? s = some s') (hw : r.Passes w r')
    (hc : r'.current.value ≠ .comma) (hr' : Ends r'.current.value) : list item s r = .ok s' r' := by
  induction h generalizing s r with
  | one ha =>
    refine loop_of_done (moves_listStep hi) hd (listStep_eq_done.mpr ⟨?_, hc⟩)
    exact hi.complete hd ha (by simpa using hadd) hw hr'
  | @more w g v a as ha comma has ih =>
    rw [List.foldlM_cons, Option.bind_eq_bind, Option.bind_eq_some_iff] at hadd
    obtain ⟨s₁, hadd, hadd'⟩ := hadd
    obtain ⟨r₁, hw, hv⟩ := Reader.passes_append.mp hw
    have hstop := current_ne_newline_of_items (v := []) hi has (by rwa [List.append_nil])
    rw [list_of_item hi hE hd ha comma hadd hw hstop]
    exact ih (hw.depth_eq.trans hd) hadd' hv

end

/-! ## sequences -/

section
variable {σ α : Type} {ends : Token → Bool} {wanted : Wanted} {item : σ → Reading σ}
  {Item : List Token → α → Prop} {add? : σ → α → Option σ} {Ends : Token → Prop} {s s' : σ} {r r' : Reader}

theorem sequenceStep_eq_done :
    sequenceStep ends wanted item s r = .ok (.done s') r' ↔
      s = s' ∧ ∃ g, r.Passes g r' ∧ Separators g ∧ r'.current.value.isSeparator = false ∧
        ends r'.current.value = true := by
  simp only [sequenceStep, bind_eq_ok, skipSeparators_eq_ok, token_bind]
  constructor
  · intro h
    obtain ⟨_, r₁, ⟨g, hg, sep, hstop⟩, h⟩ := h
    cases he : ends r₁.current.value with
    | true =>
      simp only [he, if_true, pure_eq_ok] at h
      obtain ⟨e, rfl⟩ := h
      cases e
      exact ⟨rfl, g, hg, sep, hstop, he⟩
    | false => simp [he, bind_eq_ok, map_eq_ok] at h
  · intro h
    obtain ⟨rfl, g, hg, sep, hstop, he⟩ := h
    exact ⟨(), r', ⟨g, hg, sep, hstop⟩, by rw [if_pos he]; rfl⟩

theorem sequenceStep_eq_yield :
    sequenceStep ends wanted item s r = .ok (.yield s') r' ↔
      ∃ g r₁, r.Passes g r₁ ∧ Separators g ∧ r₁.current.value.isSeparator = false ∧
        ends r₁.current.value = false ∧ item s r₁ = .ok s' r' ∧
        (r'.current.value.isSeparator || ends r'.current.value) = true := by
  simp only [sequenceStep, bind_eq_ok, skipSeparators_eq_ok, token_bind]
  constructor
  · intro h
    obtain ⟨_, r₁, ⟨g, hg, sep, hstop⟩, h⟩ := h
    cases he : ends r₁.current.value with
    | true => simp [he] at h
    | false =>
      simp only [he, Bool.false_eq_true, if_false, bind_eq_ok, demand_eq_ok, pure_eq_ok] at h
      obtain ⟨s₁, _, hitem, _, _, ⟨hd, rfl⟩, e, rfl⟩ := h
      cases e
      exact ⟨g, r₁, hg, sep, hstop, he, hitem, hd⟩
  · intro h
    obtain ⟨g, r₁, hg, sep, hstop, he, hitem, hd⟩ := h
    refine ⟨(), r₁, ⟨g, hg, sep, hstop⟩, ?_⟩
    simp only [he, Bool.false_eq_true, if_false, bind_eq_ok, demand_eq_ok, pure_eq_ok]
    exact ⟨s', r', hitem, (), r', ⟨hd, rfl⟩, rfl, rfl⟩

variable (hi : ReadsItem item Item add? Ends) (hends : ∀ {w a}, Item w a → ∀ t ∈ w.head?, ends t = false)
include hi

theorem moves_sequenceStep : Moves (·.depth = 0) (sequenceStep ends wanted item) := by
  intro s r s' r' hd h
  obtain ⟨g, r₁, hg, -, -, -, hitem, -⟩ := sequenceStep_eq_yield.mp h
  obtain ⟨w, a, hw, ha, -⟩ := hi.sound (by rw [hg.depth_eq, hd]) hitem
  obtain ⟨t, v, rfl, -, ht⟩ := hi.head ha
  have hs := hw.size_lt ht
  have hs₁ := hg.size_le
  exact ⟨(hw.depth_eq.trans hg.depth_eq).trans hd, by omega⟩

theorem sequence_of_separators {g : List Token} (hd : r.depth = 0) (hg : Separators g) (hw : r.Passes g r') :
    sequence ends wanted item s r = sequence ends wanted item s r' := by
  have moves : Moves (·.depth = 0) (sequenceStep ends wanted item) := moves_sequenceStep hi
  have hstep : sequenceStep ends wanted item s r = sequenceStep ends wanted item s r' :=
    bind_congr_run (skipSeparators_of_passes hg hw)
  unfold sequence
  rw [loop_eq moves hd, loop_eq moves (hw.depth_eq.trans hd), hstep]

include hends

theorem sequence_sound (hd : r.depth = 0) (h : sequence ends wanted item s r = .ok s' r') :
    ∃ w as, r.Passes w r' ∧ Spaced Item w as ∧ as.foldlM add? s = some s' ∧
      r'.current.value.isSeparator = false ∧ ends r'.current.value = true := by
  refine loop_induction (P := fun s r => ∃ w as, r.Passes w r' ∧ Spaced Item w as ∧
    as.foldlM add? s = some s' ∧ r'.current.value.isSeparator = false ∧ ends r'.current.value = true)
    (moves_sequenceStep hi) ?_ ?_ hd h
  · intro s r hd h
    obtain ⟨rfl, g, hg, sep, hstop, he⟩ := sequenceStep_eq_done.mp h
    exact ⟨g, [], hg, .none sep, rfl, hstop, he⟩
  · rintro s r s₁ r₁ hd h ⟨v, as, hv, has, hadd', hstop, he⟩
    obtain ⟨g, r₂, hg, sep, -, -, hitem, hdemand⟩ := sequenceStep_eq_yield.mp h
    obtain ⟨w, a, hw, ha, hadd⟩ := hi.sound (by rw [hg.depth_eq, hd]) hitem
    refine ⟨g ++ w ++ v, a :: as, ?_, .cons sep ha has ?_ ?_, by simp [hadd, hadd'], hstop, he⟩
    · exact Reader.passes_append.mpr ⟨r₁, Reader.passes_append.mpr ⟨r₂, hg, hw⟩, hv⟩
    · -- an item that followed at once would start with a token that ends the sequence
      intro t ht
      have hcur : r₁.current.value = t := by
        cases v with
        | nil => cases ht
        | cons t' v =>
          cases ht
          exact (Reader.passes_cons.mp hv).1
      rw [hcur, Bool.or_eq_true] at hdemand
      obtain hsep | ⟨u, b, hu, hb⟩ := has.head ht fun hb => by obtain ⟨t, u, rfl, -⟩ := hi.head hb; simp
      · exact hsep
      · simpa [hends hb t hu] using hdemand
    · intro w a ha
      obtain ⟨t, v, rfl, ht, -⟩ := hi.head ha
      exact ⟨t, v, rfl, ht⟩

variable (hE : ∀ t, (t.isSeparator || ends t) = true → Ends t)
include hE

/-- The step over separators and an item, up to a token that may stand behind the item. -/
theorem sequenceStep_of_item {g w : List Token} {a : α} {r₁ : Reader} (hd : r.depth = 0) (hg : Separators g)
    (ha : Item w a) (hadd : add? s a = some s') (hw : r.Passes (g ++ w) r₁)
    (hr₁ : (r₁.current.value.isSeparator || ends r₁.current.value) = true) :
    sequenceStep ends wanted item s r = .ok (.yield s') r₁ := by
  obtain ⟨r₂, hr₂, hw⟩ := Reader.passes_append.mp hw
  obtain ⟨t, v, rfl, ht, -⟩ := hi.head ha
  have hcur := (Reader.passes_cons.mp hw).1
  refine sequenceStep_eq_yield.mpr ⟨g, r₂, hr₂, hg, hcur ▸ ht, hcur ▸ hends ha t rfl, ?_, hr₁⟩
  exact hi.complete (hr₂.depth_eq.trans hd) ha hadd hw (hE _ hr₁)

theorem sequence_of_item {g w : List Token} {a : α} {r₁ : Reader} (hd : r.depth = 0) (hg : Separators g)
    (ha : Item w a) (hadd : add? s a = some s') (hw : r.Passes (g ++ w) r₁)
    (hr₁ : (r₁.current.value.isSeparator || ends r₁.current.value) = true) :
    sequence ends wanted item s r = sequence ends wanted item s' r₁ :=
  loop_of_yield (moves_sequenceStep hi) hd (sequenceStep_of_item hi hends hE hd hg ha hadd hw hr₁)

theorem sequence_of_items {g w : List Token} {as : List α} {r₁ : Reader} (hd : r.depth = 0) (hg : Separators g)
    (h : SepBy Break Item w as) (hadd : as.foldlM add? s = some s') (hw : r.Passes (g ++ w) r₁)
    (hr₁ : (r₁.current.value.isSeparator || ends r₁.current.value) = true) :
    sequence ends wanted item s r = sequence ends wanted item s' r₁ := by
  induction h generalizing s r g with
  | one ha => exact sequence_of_item hi hends hE hd hg ha (by simpa using hadd) hw hr₁
  | @more w b v a as ha hb has ih =>
    rw [List.foldlM_cons, Option.bind_eq_bind, Option.bind_eq_some_iff] at hadd
    obtain ⟨s₁, hadd, hadd'⟩ := hadd
    have hw : r.Passes ((g ++ w) ++ (b ++ v)) r₁ := by simpa only [List.append_assoc] using hw
    obtain ⟨r₂, hw, hv⟩ := Reader.passes_append.mp hw
    -- two items have a separator between them, so the step is content behind the first
    have hr₂ : (r₂.current.value.isSeparator || ends r₂.current.value) = true := by
      obtain ⟨t, b, rfl⟩ := List.exists_cons_of_ne_nil hb.2
      simp [(Reader.passes_cons.mp hv).1, hb.1 t (List.mem_cons_self ..)]
    rw [sequence_of_item hi hends hE hd hg ha hadd hw hr₂]
    exact ih (hw.depth_eq.trans hd) hb.1 hadd' hv

/-- A sequence goes on behind its first items as if it began there. -/
theorem sequence_of_spaced {w : List Token} {as : List α} {r₁ : Reader} (hd : r.depth = 0) (h : Spaced Item w as)
    (hadd : as.foldlM add? s = some s') (hw : r.Passes w r₁)
    (hr₁ : (r₁.current.value.isSeparator || ends r₁.current.value) = true) :
    sequence ends wanted item s r = sequence ends wanted item s' r₁ := by
  cases h with
  | none hs =>
    cases hadd
    exact sequence_of_separators hi hd hs hw
  | @some g w g' _ hg h hg' =>
    obtain ⟨r₂, hw, hg₁⟩ := Reader.passes_append.mp hw
    have hr₂ : (r₂.current.value.isSeparator || ends r₂.current.value) = true := by
      cases g' with
      | nil => rwa [Reader.passes_nil.mp hg₁]
      | cons t g' => simp [(Reader.passes_cons.mp hg₁).1, hg' t (List.mem_cons_self ..)]
    rw [sequence_of_items hi hends hE hd hg h hadd hw hr₂]
    exact sequence_of_separators hi (hw.depth_eq.trans hd) hg' hg₁

theorem sequence_complete {w : List Token} {as : List α} (hstop : r'.current.value.isSeparator = false)
    (he : ends r'.current.value = true) (hd : r.depth = 0) (h : Spaced Item w as)
    (hadd : as.foldlM add? s = some s') (hw : r.Passes w r') :
    sequence ends wanted item s r = .ok s' r' := by
  rw [sequence_of_spaced hi hends hE hd h hadd hw (by rw [he, Bool.or_true])]
  refine loop_of_done (moves_sequenceStep hi) (hw.depth_eq.trans hd) ?_
  exact sequenceStep_eq_done.mpr ⟨rfl, [], .nil r', List.forall_mem_nil _, hstop, he⟩

end

end Reading

end GraphicScore
