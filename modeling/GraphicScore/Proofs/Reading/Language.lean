import GraphicScore.Proofs.Definitions
import GraphicScore.Proofs.Reading.Score

/-!
# The language of scores

A source is accepted when it has tokens and they are a score of the grammar. The reader starts on a
separator of its own, which the grammar does not see.
-/

namespace GraphicScore

/-! ## tokens of words -/

section
variable {α : Type} {P : Token → Prop} {Item : List Token → α → Prop} {w : List Token} {as : List α}

theorem SepBy.forall_mem {between : List Token → Prop} (h : SepBy between Item w as)
    (hb : ∀ w, between w → ∀ t ∈ w, P t) (hi : ∀ w a, Item w a → ∀ t ∈ w, P t) : ∀ t ∈ w, P t :=
  h.closed (P := fun w => ∀ t ∈ w, P t) (fun _ _ hu hv => List.forall_mem_append.mpr ⟨hu, hv⟩) hb hi

theorem Spaced.forall_mem (h : Spaced Item w as) (hs : ∀ t : Token, t.isSeparator = true → P t)
    (hi : ∀ w a, Item w a → ∀ t ∈ w, P t) : ∀ t ∈ w, P t :=
  h.closed (P := fun w => ∀ t ∈ w, P t) (fun _ _ hu hv => List.forall_mem_append.mpr ⟨hu, hv⟩)
    (fun _ hw t ht => hs t (hw t ht)) hi

theorem spaced_cons {t : Token} (ht : t.isSeparator = true)
    (head : ∀ {w a}, Item w a → ∃ t v, w = t :: v ∧ t.isSeparator = false) :
    Spaced Item (t :: w) as ↔ Spaced Item w as := by
  constructor
  · intro h
    generalize hu : t :: w = u at h
    cases h with
    | none hs =>
      subst hu
      exact .none (List.forall_mem_cons.mp hs).2
    | @some s v s' _ hs hv hs' =>
      cases s with
      | nil =>
        obtain ⟨v, v', a, rfl, ha⟩ := hv.exists_head
        obtain ⟨t', v, rfl, ht'⟩ := head ha
        cases hu
        simp [ht] at ht'
      | cons _ s =>
        cases hu
        exact .some (List.forall_mem_cons.mp hs).2 hv hs'
  · intro h
    cases h with
    | none hs => exact .none (List.forall_mem_cons.mpr ⟨ht, hs⟩)
    | some hs hw hs' => exact .some (List.forall_mem_cons.mpr ⟨ht, hs⟩) hw hs'

end

section
variable {config : Config} {w : List Token}

theorem separator_ne_endOfInput {t : Token} (h : t.isSeparator = true) : t ≠ .endOfInput := by
  intro ht
  rw [ht] at h
  contradiction

theorem Derives.ne_endOfInput {level : Level} {inside : Bool} {e : Expr} (h : Derives config level inside w e) :
    ∀ t ∈ w, t ≠ .endOfInput := by
  rintro _ ht rfl
  cases h.forall_inExpression _ ht

theorem Newlines.ne_endOfInput (h : Newlines w) : ∀ t ∈ w, t ≠ .endOfInput := by
  intro t ht
  rw [h t ht]
  decide

theorem Comma.ne_endOfInput (h : Comma w) : ∀ t ∈ w, t ≠ .endOfInput := by
  obtain ⟨n, newlines, rfl⟩ := h
  exact List.forall_mem_cons.mpr ⟨by decide, newlines.ne_endOfInput⟩

theorem ArgumentWord.ne_endOfInput {arg : Expr ⊕ String × Expr} (h : ArgumentWord config w arg) :
    ∀ t ∈ w, t ≠ .endOfInput := by
  cases h with
  | coordinate he => exact he.ne_endOfInput
  | option ht newlines he =>
    simp only [List.forall_mem_cons, List.forall_mem_append]
    refine ⟨?_, by decide, newlines.ne_endOfInput, he.ne_endOfInput⟩
    rcases ht with rfl | rfl <;> simp

theorem FeatureWord.ne_endOfInput {f : Feature} (h : FeatureWord config w f) : ∀ t ∈ w, t ≠ .endOfInput := by
  obtain ⟨hargs, -⟩ := h
  refine List.forall_mem_cons.mpr ⟨by decide, ?_⟩
  exact hargs.forall_mem (fun _ h => h.ne_endOfInput) fun _ _ h => h.ne_endOfInput

theorem NumberWord.ne_endOfInput {number : UInt32} (h : NumberWord w number) : ∀ t ∈ w, t ≠ .endOfInput := by
  obtain ⟨-⟩ := h
  simp

theorem BlockWord.ne_endOfInput {b : Block} (h : BlockWord config w b) : ∀ t ∈ w, t ≠ .endOfInput := by
  obtain ⟨closer, hnumbers, hfeatures, -⟩ := h
  have hopening : closer.opening ≠ .endOfInput := by cases closer <;> decide
  have hclosing : closer.token ≠ .endOfInput := by cases closer <;> decide
  have hnumbers := hnumbers.forall_mem (fun _ h => h.ne_endOfInput) fun _ _ h => h.ne_endOfInput
  have hfeatures := hfeatures.forall_mem (fun t h => separator_ne_endOfInput h) fun _ _ h => h.ne_endOfInput
  simp only [List.forall_mem_cons, List.forall_mem_append]
  exact ⟨by decide, hnumbers, hopening, hfeatures, hclosing, List.forall_mem_nil _⟩

end

/-! ## feeds -/

/-- The words in front of the end of input are those of the tokens that the feed has. -/
theorem passes_feed {f : Feed} {w : List Token} (hw : ∀ t ∈ w, t ≠ .endOfInput) {found : Located Token}
    {depth : Nat} :
    (∃ r', Reader.Passes ⟨found, none, f, depth, ()⟩ (found.value :: w) r' ∧ r'.current.value = .endOfInput) ↔
      ∃ ts, f.tokens = .ok ts ∧ ts.map Located.value = w ++ [.endOfInput] := by
  obtain ⟨upcoming, ending, unsettled, settled⟩ := f
  induction upcoming generalizing w found with
  | nil =>
    have hadvance {r' : Reader} :
        Reading.advance ⟨found, none, ⟨[], ending, unsettled, settled⟩, depth, ()⟩ = .ok () r' ↔
          ∃ next, ending = .ok next ∧ r' = ⟨next, none, ⟨[], ending, unsettled, settled⟩, depth, ()⟩ := by
      simp [Reading.advance_eq_ok, Feed.next]
    simp only [Feed.tokens_nil, Reader.passes_cons, true_and, hadvance]
    constructor
    · intro h
      obtain ⟨r', ⟨_, ⟨next, rfl, rfl⟩, hv⟩, -⟩ := h
      -- the feed has nothing but the end of input left
      have hnext : next.value = .endOfInput := Answer.settled_ok.mp settled
      cases w with
      | nil => exact ⟨[next], ⟨next, rfl, rfl⟩, by simp [hnext]⟩
      | cons t w => exact absurd ((Reader.passes_cons.mp hv).1.symm.trans hnext) (hw t (List.mem_cons_self ..))
    · intro h
      obtain ⟨_, ⟨last, rfl, rfl⟩, hts⟩ := h
      cases w with
      | nil => exact ⟨_, ⟨_, ⟨last, rfl, rfl⟩, .nil _⟩, Answer.settled_ok.mp settled⟩
      | cons t w => simp at hts
  | cons answer later ih =>
    have later_unsettled := (List.forall_mem_cons.mp unsettled).2
    have hadvance {r' : Reader} :
        Reading.advance ⟨found, none, ⟨answer :: later, ending, unsettled, settled⟩, depth, ()⟩ = .ok () r' ↔
          ∃ next, answer = .ok next ∧ r' = ⟨next, none, ⟨later, ending, later_unsettled, settled⟩, depth, ()⟩ := by
      simp [Reading.advance_eq_ok, Feed.next]
    have hne {next : Located Token} (h : answer = .ok next) : next.value ≠ .endOfInput := by
      intro hnext
      have := unsettled answer (List.mem_cons_self ..)
      rw [h, Answer.settled_ok.mpr hnext] at this
      cases this
    simp only [Feed.tokens_cons, Reader.passes_cons, true_and, hadvance]
    constructor
    · intro h
      obtain ⟨r', ⟨_, ⟨next, hnext, rfl⟩, hv⟩, he⟩ := h
      cases w with
      | nil =>
        cases Reader.passes_nil.mp hv
        exact absurd he (hne hnext)
      | cons t w =>
        obtain ⟨hw, hw'⟩ := List.forall_mem_cons.mp hw
        cases (Reader.passes_cons.mp hv).1
        obtain ⟨ts, hts, hmap⟩ := (ih hw' later_unsettled).mp ⟨r', hv, he⟩
        exact ⟨next :: ts, ⟨next, ts, hnext, hts, rfl⟩, by simp [hmap]⟩
    · intro h
      obtain ⟨_, ⟨next, ts, hnext, hts, rfl⟩, hmap⟩ := h
      cases w with
      | nil =>
        rw [List.map_cons, List.nil_append] at hmap
        exact absurd (List.cons.inj hmap).1 (hne hnext)
      | cons t w =>
        rw [List.map_cons, List.cons_append, List.cons.injEq] at hmap
        obtain ⟨rfl, hmap⟩ := hmap
        obtain ⟨r', hv, he⟩ := (ih (List.forall_mem_cons.mp hw).2 later_unsettled).mpr ⟨ts, hts, hmap⟩
        exact ⟨r', ⟨_, ⟨next, hnext, rfl⟩, hv⟩, he⟩

/-! ## sources -/

section
variable {config : Config} {source : String} {d : Definitions}

theorem BlockWord.exists_cons {w : List Token} {b : Block} (h : BlockWord config w b) :
    ∃ t v, w = t :: v ∧ t.isSeparator = false := by
  cases h
  exact ⟨_, _, rfl, rfl⟩

theorem parse_eq_ok :
    parse source config = .ok d ↔
      ∃ r', Reading.score config (.ofFeed (.ofString source)) = .ok d r' := by
  unfold parse Reader.parse
  cases Reading.score config (.ofFeed (.ofString source)) <;> simp

theorem parse_of_error {fault : Fault} {r' : Reader}
    (h : Reading.score config (.ofFeed (.ofString source)) = .error fault r') :
    parse source config = .error fault := by
  unfold parse Reader.parse
  rw [h]

theorem parse_iff_scoreWord :
    parse source config = .ok d ↔
      ∃ ts, tokenize source = .ok ts ∧ ScoreWord config (ts.map Located.value) d := by
  rw [parse_eq_ok]
  simp only [Reading.score_eq_ok (r := .ofFeed (.ofString source)) rfl]
  constructor
  · intro h
    obtain ⟨r', w, hw, he, hblocks, hn⟩ := h
    cases w with
    | nil =>
      cases Reader.passes_nil.mp hw
      cases he
    | cons t w =>
      cases (Reader.passes_cons.mp hw).1
      have hw' := (spaced_cons rfl BlockWord.exists_cons).mp hblocks
      have hne : ∀ t ∈ w, t ≠ .endOfInput := hw'.forall_mem (fun _ h => separator_ne_endOfInput h)
        fun _ _ h => h.ne_endOfInput
      obtain ⟨ts, hts, hmap⟩ := (passes_feed hne).mp ⟨r', hw, he⟩
      exact ⟨ts, hts, hmap ▸ .score hw' hn⟩
  · intro h
    obtain ⟨ts, hts, hword⟩ := h
    generalize hu : ts.map Located.value = u at hword
    obtain ⟨hblocks, hn⟩ := hword
    have hne := hblocks.forall_mem (fun _ h => separator_ne_endOfInput h) fun _ _ h => h.ne_endOfInput
    obtain ⟨r', hw, he⟩ := (passes_feed hne).mpr ⟨ts, hts, hu⟩
    exact ⟨r', _, hw, he, (spaced_cons rfl BlockWord.exists_cons).mpr hblocks, hn⟩

theorem nodup_numbers_of_parse (h : parse source config = .ok d) : d.numbers.Nodup := by
  obtain ⟨ts, -, hword⟩ := parse_iff_scoreWord.mp h
  generalize ts.map Located.value = u at hword
  exact hword.rec fun _ hn => hn

end

/--
A source is accepted exactly when it has tokens and they are a score. The keys are then the instrument
numbers in decimal, in their order in the source, each with the instrument of its block.
-/
theorem parse_eq_ok_iff (source : String) (config : Config) (d : Definitions) :
    (parse source config = .ok d ↔
      ∃ ts, tokenize source = .ok ts ∧ ScoreWord config (ts.map Located.value) d) ∧
    (parse source config = .ok d →
      d.keys = d.numbers.map instrumentKey ∧
        ∀ b ∈ d.blocks, ∀ number ∈ b.numbers, d.get? (instrumentKey number) = some b.instrument) := by
  refine ⟨parse_iff_scoreWord, fun h => ⟨d.keys_eq, fun b hb number hnumber => ?_⟩⟩
  exact d.get?_instrumentKey (nodup_numbers_of_parse h) hb hnumber

end GraphicScore
