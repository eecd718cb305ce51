import GraphicScore.Proofs.Reading.Statement

/-!
# Reading scores by the grammar

Instrument numbers are the items of a list, and blocks are those of a sequence. An instrument number
is checked against the numbers in front of it and against those of the blocks before.
-/

namespace GraphicScore

namespace Reading

theorem foldlM_append_singleton {α : Type} {as s s' : List α} :
    as.foldlM (fun s a => some (s ++ [a])) s = some s' ↔ s' = s ++ as := by
  induction as generalizing s with
  | nil => simp [eq_comm]
  | cons a as ih => simp [ih]

/-! ## instrument numbers -/

def addNumber? (defined : Definitions) (numbers : List UInt32) (number : UInt32) : Option (List UInt32) :=
  if numbers.contains number || defined.declares number then none else some (numbers ++ [number])

theorem foldlM_addNumber {defined : Definitions} {added numbers numbers' : List UInt32} (hn : numbers.Nodup) :
    added.foldlM (addNumber? defined) numbers = some numbers' ↔
      numbers' = numbers ++ added ∧ (numbers ++ added).Nodup ∧ ∀ number ∈ added, number ∉ defined.numbers := by
  induction added generalizing numbers with
  | nil => simp [hn, eq_comm]
  | cons number added ih =>
    rw [List.foldlM_cons, Option.bind_eq_bind, Option.bind_eq_some_iff]
    simp only [addNumber?, Option.ite_none_left_eq_some, Option.some.injEq, Bool.or_eq_true, not_or,
      List.contains_iff_mem, Definitions.declares, List.forall_mem_cons]
    rw [List.append_cons numbers number added]
    constructor
    · intro h
      obtain ⟨_, ⟨⟨hnew, hfree⟩, rfl⟩, h⟩ := h
      obtain ⟨rfl, hnodup, hfree'⟩ := (ih (Options.nodup_append_singleton hn hnew)).mp h
      exact ⟨rfl, hnodup, hfree, hfree'⟩
    · intro h
      obtain ⟨rfl, hnodup, hfree, hfree'⟩ := h
      have hn' := (List.nodup_append.mp hnodup).1
      have hnew : number ∉ numbers := fun h => (List.nodup_append.mp hn').2.2 number h number (by simp) rfl
      exact ⟨_, ⟨⟨hnew, hfree⟩, rfl⟩, (ih hn').mpr ⟨rfl, hnodup, hfree'⟩⟩

theorem instrumentNumber_eq_ok {defined : Definitions} {numbers numbers' : List UInt32} {r r' : Reader} :
    instrumentNumber defined numbers r = .ok numbers' r' ↔
      ∃ digits number, r.current.value = .integer digits ∧ advance r = .ok () r' ∧
        Literal.uint32? digits.toList = some number ∧ addNumber? defined numbers number = some numbers' := by
  rw [instrumentNumber, current_bind]
  obtain ⟨⟨position, t⟩, ahead, feed, depth, notes⟩ := r
  cases t with
  | integer digits =>
    simp only [bind_eq_ok, Token.integer.injEq]
    constructor
    · intro h
      obtain ⟨_, r₁, hm, h⟩ := h
      cases hv : Literal.uint32? digits.toList with
      | none => simp [hv] at h
      | some number =>
        cases hc : numbers.contains number || defined.declares number with
        | true => simp only [hv, hc, if_true, faultAt_ne_ok] at h
        | false =>
          simp only [hv, hc, Bool.false_eq_true, if_false, pure_eq_ok] at h
          obtain ⟨rfl, rfl⟩ := h
          exact ⟨digits, number, rfl, hm, hv, by rw [addNumber?, hc]; rfl⟩
    · intro h
      obtain ⟨_, number, rfl, hm, hv, hadd⟩ := h
      refine ⟨(), r', hm, ?_⟩
      rw [addNumber?, Option.ite_none_left_eq_some, Bool.not_eq_true, Option.some.injEq] at hadd
      simp only [hv, hadd.1, hadd.2, Bool.false_eq_true, if_false, pure_run]
  | _ => simp

theorem reads_instrumentNumber (defined : Definitions) :
    ReadsItem (instrumentNumber defined) NumberWord (addNumber? defined) (fun _ => True) where
  sound {numbers numbers' r r'} _ h := by
    obtain ⟨digits, number, ht, hm, hv, hadd⟩ := instrumentNumber_eq_ok.mp h
    exact ⟨_, number, Reader.passes_singleton.mpr ⟨ht, hm⟩, .integer (Literal.uint32?_eq_some.mp hv), hadd⟩
  complete {numbers numbers' r r' w number} _ h hadd hw _ := by
    obtain ⟨hv⟩ := h
    obtain ⟨ht, hm⟩ := Reader.passes_singleton.mp hw
    exact instrumentNumber_eq_ok.mpr ⟨_, number, ht, hm, Literal.uint32?_eq_some.mpr hv, hadd⟩
  head h := by
    cases h
    exact ⟨_, _, rfl, rfl, Token.noConfusion⟩

/-! ## blocks -/

theorem opener_eq_ok {closer : Closer} {r r' : Reader} :
    opener r = .ok closer r' ↔ r.current.value = closer.opening ∧ advance r = .ok () r' := by
  have done {c : Closer} : (do advance; return c : Reading Closer) r = .ok closer r' ↔
      c = closer ∧ advance r = .ok () r' := by
    simp only [bind_eq_ok, pure_eq_ok]
    exact ⟨fun ⟨_, _, hm, hc, e⟩ => ⟨hc, e ▸ hm⟩, fun ⟨hc, hm⟩ => ⟨(), r', hm, hc, rfl⟩⟩
  rw [opener, token_bind]
  cases r.current.value with
  | identifier name =>
    by_cases hname : name = "do"
    · subst hname
      exact done.trans (by cases closer <;> simp [Closer.opening])
    · cases closer <;> simp [hname, Closer.opening]
  | openBrace => exact done.trans (by cases closer <;> simp [Closer.opening])
  | _ => cases closer <;> simp [Closer.opening]

section
variable {config : Config}

theorem endsStatement_of_closer (closer : Closer) {t : Token} (h : (t.isSeparator || t == closer.token) = true) :
    EndsStatement t := by
  have ht : t = .newline ∨ t = .semicolon ∨ t = .identifier "end" ∨ t = .closeBrace := by
    cases closer <;> grind [Token.isSeparator, Closer.token]
  rcases ht with rfl | rfl | rfl | rfl
  all_goals exact ⟨⟨endsBefore_of_no_operator (by decide) (by decide) rfl rfl, by decide⟩, by decide⟩

theorem body_eq_ok {closer : Closer} {openedAt : Nat} {features : List Feature} {r r' : Reader}
    (hd : r.depth = 0) : body config closer openedAt r = .ok features r' ↔
      ∃ w, r.Passes (w ++ [closer.token]) r' ∧ Spaced (FeatureWord config) w features := by
  have hends : ∀ {w f}, FeatureWord config w f → ∀ t ∈ w.head?, (t == closer.token) = false := by
    rintro w f ⟨⟩ t ⟨⟩
    cases closer <;> decide
  have hclose : closer.token.isSeparator = false := by cases closer <;> decide
  simp only [body, bind_eq_ok, pure_eq_ok, Reader.passes_append, Reader.passes_singleton]
  constructor
  · intro h
    obtain ⟨_, r₁, h, _, r₂, hm, rfl, rfl⟩ := h
    obtain ⟨w, fs, hw, hfs, hadd, -, he⟩ := sequence_sound (reads_statement openedAt) hends hd h
    rw [foldlM_append_singleton, List.nil_append] at hadd
    exact ⟨w, ⟨r₁, hw, beq_iff_eq.mp he, hm⟩, hadd ▸ hfs⟩
  · intro h
    obtain ⟨w, ⟨r₁, hw, ht, hm⟩, hfs⟩ := h
    have hadd : features.foldlM (fun fs f => some (fs ++ [f])) [] = some features :=
      foldlM_append_singleton.mpr rfl
    refine ⟨features, r₁, ?_, (), r', hm, rfl, rfl⟩
    exact sequence_complete (reads_statement openedAt) hends (fun t => endsStatement_of_closer closer)
      (ht ▸ hclose) (beq_iff_eq.mpr ht) hd hfs hadd hw

theorem block_eq_ok {defined : Definitions} {b : Block} {r r' : Reader} (hd : r.depth = 0) :
    block config defined r = .ok b r' ↔
      ∃ w, r.Passes w r' ∧ BlockWord config w b ∧ b.numbers.Nodup ∧
        ∀ number ∈ b.numbers, number ∉ defined.numbers := by
  simp only [block, current_bind, bind_eq_ok, expect_eq_ok, opener_eq_ok]
  constructor
  · intro h
    obtain ⟨_, r₁, ⟨ht, hm⟩, numbers, r₂, hnumbers, closer, r₃, ⟨hopen, hm₂⟩, features, r₄, hbody, h⟩ := h
    have hd₁ : r₁.depth = 0 := (depth_of_advance hm).trans hd
    obtain ⟨w, added, hw, hadded, hadd, -⟩ := list_sound (reads_instrumentNumber defined) hd₁ hnumbers
    obtain ⟨rfl, hn, hfree⟩ := (foldlM_addNumber .nil).mp hadd
    have hw₃ : r₂.Passes [closer.opening] r₃ := Reader.passes_singleton.mpr ⟨hopen, hm₂⟩
    have hd₃ : r₃.depth = 0 := by rw [hw₃.depth_eq, hw.depth_eq, hd₁]
    obtain ⟨v, hv, hfs⟩ := (body_eq_ok hd₃).mp hbody
    cases hne : features.isEmpty with
    | true => simp [hne] at h
    | false =>
      simp only [hne, Bool.false_eq_true, if_false, pure_eq_ok] at h
      obtain ⟨rfl, rfl⟩ := h
      refine ⟨_, ?_, .block closer hadded hfs (by simpa using hne), hn, hfree⟩
      rw [← ht]
      refine .cons hm (Reader.passes_append.mpr ⟨r₂, hw, ?_⟩)
      exact hopen ▸ .cons hm₂ hv
  · intro h
    obtain ⟨_, hw, @⟨w, v, numbers, features, closer, hnumbers, hfs, hne⟩, hn, hfree⟩ := h
    obtain ⟨ht, r₁, hm, hw⟩ := Reader.passes_cons.mp hw
    obtain ⟨r₂, hw, hv⟩ := Reader.passes_append.mp hw
    obtain ⟨hopen, r₃, hm₂, hv⟩ := Reader.passes_cons.mp hv
    have hd₁ : r₁.depth = 0 := (depth_of_advance hm).trans hd
    have hd₃ : r₃.depth = 0 := by
      rw [depth_of_advance hm₂, hw.depth_eq, hd₁]
    have hcomma : r₂.current.value ≠ .comma := by
      rw [hopen]
      cases closer <;> decide
    have hadd : numbers.foldlM (addNumber? defined) [] = some numbers :=
      (foldlM_addNumber .nil).mpr ⟨rfl, hn, hfree⟩
    have hread := list_complete (reads_instrumentNumber defined) trivial hd₁ hnumbers hadd hw hcomma trivial
    refine ⟨(), r₁, ⟨ht, hm⟩, numbers, r₂, hread, closer, r₃, ⟨hopen, hm₂⟩, features, r',
      (body_eq_ok hd₃).mpr ⟨v, hv, hfs⟩, ?_⟩
    simp [hne]

end

/-! ## scores -/

/-- Adds a block whose instrument numbers can be added one after the other. -/
def addBlock? (d : Definitions) (b : Block) : Option Definitions :=
  (b.numbers.foldlM (addNumber? d) []).map fun _ => d.append b

theorem addBlock?_eq_some {d d' : Definitions} {b : Block} :
    addBlock? d b = some d' ↔
      (b.numbers.Nodup ∧ ∀ number ∈ b.numbers, number ∉ d.numbers) ∧ d.append b = d' := by
  rw [addBlock?, Option.map_eq_some_iff]
  constructor
  · intro ⟨numbers, hadd, e⟩
    exact ⟨((foldlM_addNumber .nil).mp hadd).2, e⟩
  · intro ⟨hfree, e⟩
    exact ⟨b.numbers, (foldlM_addNumber .nil).mpr ⟨rfl, hfree⟩, e⟩

theorem nodup_append {d : Definitions} {b : Block} :
    (d.append b).numbers.Nodup ↔
      d.numbers.Nodup ∧ b.numbers.Nodup ∧ ∀ number ∈ b.numbers, number ∉ d.numbers := by
  simp only [Definitions.numbers, Definitions.append, List.flatMap_append, List.flatMap_singleton,
    List.nodup_append]
  grind

theorem foldlM_addBlock {added : List Block} {d d' : Definitions} (hd : d.numbers.Nodup) :
    added.foldlM addBlock? d = some d' ↔ d'.blocks = d.blocks ++ added ∧ d'.numbers.Nodup := by
  induction added generalizing d with
  | nil =>
    constructor
    · intro h
      cases h
      exact ⟨by simp, hd⟩
    · intro h
      obtain ⟨h, -⟩ := h
      obtain ⟨blocks⟩ := d
      obtain ⟨blocks'⟩ := d'
      rw [List.append_nil] at h
      cases h
      rfl
  | cons b added ih =>
    rw [List.foldlM_cons, Option.bind_eq_bind, Option.bind_eq_some_iff, List.append_cons d.blocks b added]
    simp only [addBlock?_eq_some]
    constructor
    · intro h
      obtain ⟨_, ⟨hb, rfl⟩, h⟩ := h
      exact (ih (nodup_append.mpr ⟨hd, hb⟩)).mp h
    · intro h
      obtain ⟨hblocks, hn⟩ := h
      have hd' : (d.append b).numbers.Nodup := by
        have : d'.numbers = (d.append b).numbers ++ added.flatMap Block.numbers := by
          simp only [Definitions.numbers, Definitions.append, hblocks, List.flatMap_append]
        exact (List.nodup_append.mp (this ▸ hn)).1
      exact ⟨_, ⟨(nodup_append.mp hd').2, rfl⟩, (ih hd').mpr ⟨hblocks, hn⟩⟩

section
variable {config : Config}

theorem reads_block :
    ReadsItem (scoreItem config) (BlockWord config) addBlock? (fun _ => True) where
  sound {d d' r r'} hd h := by
    simp only [scoreItem, bind_eq_ok, pure_eq_ok] at h
    obtain ⟨b, _, hb, rfl, rfl⟩ := h
    obtain ⟨w, hw, hbw, hfree⟩ := (block_eq_ok hd).mp hb
    exact ⟨w, b, hw, hbw, addBlock?_eq_some.mpr ⟨hfree, rfl⟩⟩
  complete {d d' r r' w b} hd h hadd hw _ := by
    obtain ⟨hfree, rfl⟩ := addBlock?_eq_some.mp hadd
    simp only [scoreItem, bind_eq_ok, pure_eq_ok]
    exact ⟨b, r', (block_eq_ok hd).mpr ⟨w, hw, h, hfree⟩, rfl, rfl⟩
  head h := by
    cases h
    exact ⟨_, _, rfl, by decide, by decide⟩

theorem head_ne_endOfInput {w : List Token} {b : Block} (h : BlockWord config w b) :
    ∀ t ∈ w.head?, (t == .endOfInput) = false := by
  rintro t ht
  cases h
  cases ht
  rfl

theorem score_eq_ok {d : Definitions} {r r' : Reader} (hd : r.depth = 0) :
    score config r = .ok d r' ↔ ∃ w, r.Passes w r' ∧ r'.current.value = .endOfInput ∧
      Spaced (BlockWord config) w d.blocks ∧ d.numbers.Nodup := by
  constructor
  · intro h
    obtain ⟨w, bs, hw, hbs, hadd, -, he⟩ := sequence_sound reads_block head_ne_endOfInput hd h
    obtain ⟨hblocks, hn⟩ := (foldlM_addBlock (d := .empty) .nil).mp hadd
    exact ⟨w, hw, beq_iff_eq.mp he, hblocks ▸ hbs, hn⟩
  · intro h
    obtain ⟨w, hw, he, hbs, hn⟩ := h
    have hadd := (foldlM_addBlock (d := .empty) .nil).mpr ⟨rfl, hn⟩
    exact sequence_complete reads_block head_ne_endOfInput (fun _ _ => trivial) (he ▸ rfl) (beq_iff_eq.mpr he) hd hbs
      hadd hw

/-! ## the first token -/

/-- A score begins behind the separator that its reader starts on, which the feed does not have. -/
theorem score_ofFeed {f : Feed} {r : Reader} (h : advance (.ofFeed f) = .ok () r) :
    score config (.ofFeed f) = score config r :=
  sequence_of_separators reads_block rfl (g := [.newline]) (List.forall_mem_singleton.mpr rfl)
    (Reader.passes_singleton.mpr ⟨rfl, h⟩)

theorem score_of_fault {f : Feed} {r : Reader} {fault : Fault} (h : advance (.ofFeed f) = .error fault r) :
    score config (.ofFeed f) = .error fault r := by
  have hsep : (Reader.ofFeed f).current.value.isSeparator = true := rfl
  have hstep : skipStep Token.isSeparator () (.ofFeed f) = .error fault r := by
    rw [skipStep, token_bind, hsep, if_pos rfl]
    exact bind_of_error h
  have hskip : skipSeparators (.ofFeed f) = .error fault r :=
    loop_of_error (moves_skipStep (by decide)) trivial hstep
  exact loop_of_error (moves_sequenceStep reads_block) rfl (bind_of_error hskip)

end

end Reading

end GraphicScore
