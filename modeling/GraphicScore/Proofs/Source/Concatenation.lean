import GraphicScore.Proofs.Reading.Continuation
import GraphicScore.Proofs.Source.RoundTrip

/-!
# Sources put together

A source behind another one, on a new line, declares its instruments behind the others. It is rejected where
it would be on its own, and at the first number that is taken already.
-/

namespace GraphicScore

open Reading

/-! ## definitions put together -/

def Definitions.join (d₁ d₂ : Definitions) : Definitions := ⟨d₁.blocks ++ d₂.blocks⟩

section
variable {d₁ d₂ : Definitions}

theorem numbers_join : (d₁.join d₂).numbers = d₁.numbers ++ d₂.numbers := by
  simp [Definitions.join, Definitions.numbers]

theorem toList_join : (d₁.join d₂).toList = d₁.toList ++ d₂.toList := by
  simp [Definitions.join, Definitions.toList]

theorem toSource_join (h₁ : d₁.blocks ≠ []) (h₂ : d₂.blocks ≠ []) :
    (d₁.join d₂).toSource = d₁.toSource ++ "\n" ++ d₂.toSource := by
  unfold Definitions.toSource Definitions.join
  rw [List.map_append]
  exact String.intercalate_append_of_ne_nil (by simpa using h₁) (by simpa using h₂)

end

section
variable {config : Config} {a b : String} {d₁ d₂ d : Definitions}

theorem exists_words_of_parse {source : String} (h : parse source config = .ok d) :
    ∃ w, words source.toList = some w ∧ Spaced (BlockWord config) w d.blocks ∧ d.numbers.Nodup := by
  obtain ⟨w, hw, hword⟩ := parse_iff_words.mp h
  generalize hu : w ++ [.endOfInput] = u at hword
  obtain ⟨hblocks, hn⟩ := hword
  rw [List.append_cancel_right hu] at hw
  exact ⟨_, hw, hblocks, hn⟩

/-- Where the reader stands behind a text and the end of its line. -/
def Reader.behind (a b : String) (found : Located Token) : Reader :=
  ⟨found, none, .ofCursor (Cursor.down ⟨.start, b.toList⟩ (1 + a.toList.count '\n')), 0, ()⟩

/-- Behind a score that can be read the reader goes on with the next line and the instruments so far. -/
theorem score_append_newline (h : parse a config = .ok d₁) (b : String) :
    ∃ found : Located Token, found.value = .newline ∧
      score config (.ofFeed (.ofString (a ++ "\n" ++ b))) =
        sequence (· == .endOfInput) .endOfLine (scoreItem config) d₁ (.behind a b found) := by
  obtain ⟨w, hw, hblocks, hn⟩ := exists_words_of_parse h
  obtain ⟨ts, hts, hruns⟩ := Cursor.runs_append_newline hw .start b.toList
  obtain ⟨ts, last, rfl, rfl, hlast⟩ : ∃ ts' last, ts = ts' ++ [last] ∧ ts'.map Located.value = w ∧
      last.value = .newline := by
    obtain ⟨ts', rest, rfl, hmap, hrest⟩ := List.map_eq_append_iff.mp hts
    obtain ⟨last, rfl, hlast⟩ := List.map_eq_singleton_iff.mp hrest
    exact ⟨ts', last, rfl, hmap, hlast⟩
  refine ⟨last, hlast, ?_⟩
  have htext : (a ++ "\n" ++ b).toList = a.toList ++ '\n' :: b.toList := by simp
  rw [start_past_after, ← htext] at hruns
  have hpasses : Reader.Passes (.ofFeed (.ofString (a ++ "\n" ++ b))) (.newline :: ts.map Located.value)
      (.behind a b last) := hruns.passes _ _
  have hspaced := (spaced_cons (t := .newline) rfl BlockWord.exists_cons).mpr hblocks
  have hadd : d₁.blocks.foldlM addBlock? .empty = some d₁ :=
    (foldlM_addBlock (d := .empty) .nil).mpr ⟨rfl, hn⟩
  refine sequence_of_spaced reads_block head_ne_endOfInput (fun _ _ => trivial) rfl hspaced hadd hpasses ?_
  show (last.value.isSeparator || _) = true
  rw [hlast]
  rfl

theorem parse_append_newline_eq_ok (h : parse a config = .ok d₁) :
    parse (a ++ "\n" ++ b) config = .ok d ↔
      ∃ d₂, parse b config = .ok d₂ ∧ d = d₁.join d₂ ∧ d.numbers.Nodup := by
  obtain ⟨found, hfound, hscore⟩ := score_append_newline h b
  have hn₁ := nodup_numbers_of_parse h
  have hcurrent : (Reader.behind a b found).current.value = .newline := hfound
  rw [parse_eq_ok, hscore]
  constructor
  · intro h
    obtain ⟨r', h⟩ := h
    obtain ⟨w, bs, hw, hbs, hadd, -, he⟩ := sequence_sound reads_block head_ne_endOfInput rfl h
    obtain ⟨hblocks, hn⟩ := (foldlM_addBlock hn₁).mp hadd
    have hd : d = d₁.join ⟨bs⟩ := by
      obtain ⟨blocks⟩ := d
      cases hblocks
      rfl
    refine ⟨⟨bs⟩, ?_, hd, hn⟩
    cases w with
    | nil =>
      rw [← Reader.passes_nil.mp hw, hcurrent] at he
      contradiction
    | cons t w =>
      obtain rfl : t = .newline := (Reader.passes_cons.mp hw).1.symm.trans hcurrent
      have hbs := (spaced_cons rfl BlockWord.exists_cons).mp hbs
      have hne := hbs.forall_mem (fun _ h => separator_ne_endOfInput h) fun _ _ h => h.ne_endOfInput
      rw [← hfound] at hw
      have hwords := (words_eq_some _).mpr ((passes_feed hne).mp ⟨r', hw, beq_iff_eq.mp he⟩)
      have hn₂ : (Definitions.mk bs).numbers.Nodup := by
        rw [hd, numbers_join] at hn
        exact (List.nodup_append.mp hn).2.1
      exact parse_iff_words.mpr ⟨w, hwords, .score hbs hn₂⟩
  · intro h
    obtain ⟨d₂, h₂, rfl, hn⟩ := h
    obtain ⟨w, hw, hbs, -⟩ := exists_words_of_parse h₂
    have hne := hbs.forall_mem (fun _ h => separator_ne_endOfInput h) fun _ _ h => h.ne_endOfInput
    obtain ⟨r', hw, he⟩ : ∃ r', (Reader.behind a b found).Passes (found.value :: w) r' ∧
        r'.current.value = .endOfInput := (passes_feed hne).mpr ((words_eq_some _).mp hw)
    rw [hfound] at hw
    have hspaced := (spaced_cons (t := .newline) rfl BlockWord.exists_cons).mpr hbs
    have hadd : d₂.blocks.foldlM addBlock? d₁ = some (d₁.join d₂) := (foldlM_addBlock hn₁).mpr ⟨rfl, hn⟩
    exact ⟨r', sequence_complete reads_block head_ne_endOfInput (fun _ _ => trivial) (he ▸ rfl)
      (beq_iff_eq.mpr he) rfl hspaced hadd hw⟩

end

/-! ## numbers that are taken -/

def Token.inNumbers : Token → Bool
  | .integer _ => true
  | .comma => true
  | .newline => true
  | _ => false

/-- The place of the token that declares an instrument of the number, in a list behind `instr`. -/
def DeclaredAt (ts : List (Located Token)) (number : UInt32) (p : Position) : Prop :=
  ∃ front first middle digits behind, ts = front ++ first :: (middle ++ ⟨p, .integer digits⟩ :: behind) ∧
    first.value = .identifier "instr" ∧ (∀ found ∈ middle, found.value.inNumbers = true) ∧
    number.toNat = Nat.ofDigitChars 10 digits.toList 0

section
variable {config : Config} {a b : String} {d₁ d₂ : Definitions} {bs bs' : List Block} {blk : Block}
  {front behind : List UInt32} {number : UInt32} {w : List Token}

theorem inNumbers_of_comma (h : Comma w) : ∀ t ∈ w, t.inNumbers = true := by
  obtain ⟨n, newlines, rfl⟩ := h
  refine List.forall_mem_cons.mpr ⟨rfl, fun t ht => ?_⟩
  rw [newlines t ht]
  rfl

theorem inNumbers_of_items {numbers : List UInt32} (h : SepBy Comma NumberWord w numbers) :
    ∀ t ∈ w, t.inNumbers = true := by
  apply h.forall_mem (fun _ => inNumbers_of_comma)
  intro w number hw
  cases hw
  simp [Token.inNumbers]

theorem exists_block_of_numbers {all : List Block} (h : all.flatMap Block.numbers = front ++ number :: behind) :
    ∃ bs blk bs' numbers numbers', all = bs ++ blk :: bs' ∧ blk.numbers = numbers ++ number :: numbers' ∧
      front = bs.flatMap Block.numbers ++ numbers := by
  induction all generalizing front with
  | nil => simp at h
  | cons blk all ih =>
    rw [List.flatMap_cons] at h
    rcases split_append h with ⟨z, hz, hblk, hbehind⟩ | ⟨z, rfl, h'⟩
    · obtain ⟨n, z, rfl⟩ := List.exists_cons_of_ne_nil hz
      obtain ⟨rfl, -⟩ := List.cons.inj hbehind
      exact ⟨[], blk, all, front, z, rfl, hblk, rfl⟩
    · obtain ⟨bs, blk', bs', numbers, numbers', rfl, hblk, rfl⟩ := ih h'
      exact ⟨blk :: bs, blk', bs', numbers, numbers', rfl, hblk, by simp⟩

theorem BlockWord.split (h : BlockWord config w blk) (hnumbers : blk.numbers = front ++ number :: behind) :
    ∃ m digits v, w = .identifier "instr" :: (m ++ .integer digits :: v) ∧
      number.toNat = Nat.ofDigitChars 10 digits.toList 0 ∧ v ≠ [] ∧
      (front = [] ∧ m = [] ∨ ∃ u g, SepBy Comma NumberWord u front ∧ Comma g ∧ m = u ++ g) := by
  obtain ⟨closer, hitems, -, -⟩ := h
  subst hnumbers
  obtain ⟨x, x', ⟨hvalue⟩, ⟨rfl, rfl⟩ | ⟨u, g, hu, comma, rfl⟩⟩ := hitems.split
  · exact ⟨[], _, _, by simp; rfl, hvalue, by simp, .inl ⟨rfl, rfl⟩⟩
  · exact ⟨u ++ g, _, _, by simp; rfl, hvalue, by simp, .inr ⟨u, g, hu, comma, rfl⟩⟩

theorem exists_reader_at {k z : List Token} {t t' : Token} (hw : words b.toList = some (k ++ t :: t' :: z))
    (a : String) (found : Located Token) :
    ∃ ts tok later r r', tokenize b = .ok (ts ++ tok :: later) ∧ ts.map Located.value = k ∧ tok.value = t ∧
      (Reader.behind a b found).Passes (found.value :: k) r ∧
      r.current = tok.down (1 + a.toList.count '\n') ∧ advance r = .ok () r' := by
  have hw' : words b.toList = some ((k ++ [t]) ++ ([t'] ++ z)) := by simpa using hw
  obtain ⟨ts, c, hruns, hts, hrest⟩ := Cursor.exists_runs .start hw'
  obtain ⟨ts', c', hruns', hts', -⟩ := Cursor.exists_runs c.position hrest
  obtain ⟨ts, tl, rfl, rfl, hl⟩ := List.map_eq_append_iff.mp hts
  obtain ⟨tok, rfl, rfl⟩ := List.map_eq_singleton_iff.mp hl
  obtain ⟨next, rfl, -⟩ := List.map_eq_singleton_iff.mp hts'
  obtain ⟨later, hlater, -⟩ := (words_eq_some c.position).mp hrest
  have htokens := hruns.tokens hlater
  have hruns := hruns.down (1 + a.toList.count '\n')
  have hruns' : Cursor.Runs _ ([] ++ [next.down _]) _ := hruns'.down (1 + a.toList.count '\n')
  rw [List.append_assoc] at htokens
  rw [List.map_append] at hruns
  have hvalues : (ts.map (·.down (1 + a.toList.count '\n'))).map Located.value = ts.map Located.value := by
    rw [List.map_map]
    rfl
  have hway := hruns.passes found 0
  have hnext := hruns'.passes (tok.down (1 + a.toList.count '\n')) 0
  rw [hvalues] at hway
  exact ⟨ts, tok, later, _, _, htokens, rfl, rfl, hway, rfl, (Reader.passes_singleton.mp hnext).2⟩

theorem exists_words_of_number {numbers numbers' : List UInt32} (hbs : Spaced (BlockWord config) w (bs ++ blk :: bs'))
    (hblk : blk.numbers = numbers ++ number :: numbers') :
    ∃ u s k m digits t z, Spaced (BlockWord config) u bs ∧ Break s ∧ u ++ s = .newline :: k ∧
      (numbers = [] ∧ m = [] ∨ ∃ u g, SepBy Comma NumberWord u numbers ∧ Comma g ∧ m = u ++ g) ∧
      number.toNat = Nat.ofDigitChars 10 digits.toList 0 ∧
      w = k ++ .identifier "instr" :: m ++ .integer digits :: t :: z := by
  have hspaced := (spaced_cons (t := .newline) rfl BlockWord.exists_cons).mpr hbs
  obtain ⟨u, s, v, v', hu, hs, hv, hsplit⟩ := hspaced.split (by simp [Token.isSeparator]) BlockWord.exists_cons
  obtain ⟨m, digits, z, rfl, hvalue, hz, hm⟩ := hv.split hblk
  obtain ⟨t, z, rfl⟩ := List.exists_cons_of_ne_nil hz
  obtain ⟨t', k, hk⟩ := List.exists_cons_of_ne_nil (List.append_ne_nil_of_right_ne_nil u hs.2)
  rw [hk, List.cons_append, List.cons.injEq] at hsplit
  obtain ⟨rfl, rfl⟩ := hsplit
  exact ⟨u, s, k, m, digits, t, z ++ v', hu, hs, hk, hm, hvalue, by simp⟩

theorem declaredAt_of_words {ts later : List (Located Token)} {tok : Located Token} {k m : List Token}
    {digits : String} {numbers : List UInt32} (hts : ts.map Located.value = k ++ .identifier "instr" :: m)
    (htok : tok.value = .integer digits) (hvalue : number.toNat = Nat.ofDigitChars 10 digits.toList 0)
    (hm : numbers = [] ∧ m = [] ∨ ∃ u g, SepBy Comma NumberWord u numbers ∧ Comma g ∧ m = u ++ g) :
    DeclaredAt (ts ++ tok :: later) number tok.position := by
  obtain ⟨tk, tm, rfl, -, htm⟩ := List.map_eq_append_iff.mp hts
  obtain ⟨first, tm, rfl, hfirst, rfl⟩ := List.map_eq_cons_iff.mp htm
  have hmiddle : ∀ t ∈ tm.map Located.value, t.inNumbers = true := by
    rcases hm with ⟨-, hm⟩ | ⟨u, g, hitems, comma, hm⟩
    · simp [hm]
    · rw [hm, List.forall_mem_append]
      exact ⟨inNumbers_of_items hitems, inNumbers_of_comma comma⟩
  refine ⟨tk, first, tm, digits, later, ?_, hfirst, List.forall_mem_map.mp hmiddle, hvalue⟩
  rw [← htok]
  simp

theorem add_of_free {numbers : List UInt32} (hn₁ : d₁.numbers.Nodup)
    (hn₂ : (bs.flatMap Block.numbers ++ numbers ++ number :: behind).Nodup)
    (hfree : ∀ n ∈ bs.flatMap Block.numbers ++ numbers, n ∉ d₁.numbers) :
    bs.foldlM addBlock? d₁ = some (d₁.join ⟨bs⟩) ∧ numbers.Nodup ∧
      ∀ n ∈ numbers, n ∉ (d₁.join ⟨bs⟩).numbers := by
  obtain ⟨hn₂, -, -⟩ := List.nodup_append.mp hn₂
  obtain ⟨hbs, hnumbers, hdistinct⟩ := List.nodup_append.mp hn₂
  have hjoin : (d₁.join ⟨bs⟩).numbers = d₁.numbers ++ bs.flatMap Block.numbers := numbers_join
  refine ⟨(foldlM_addBlock hn₁).mpr ⟨rfl, ?_⟩, hnumbers, fun n hn hmem => ?_⟩
  · rw [hjoin]
    refine List.nodup_append.mpr ⟨hn₁, hbs, ?_⟩
    rintro n hn₁ _ hn rfl
    exact hfree n (List.mem_append_left _ hn) hn₁
  · rw [hjoin] at hmem
    rcases List.mem_append.mp hmem with hmem | hmem
    · exact hfree n (List.mem_append_right _ hn) hmem
    · exact hdistinct n hmem n hn rfl

/-- The first number that is taken is the one that is blamed, in its place further down. -/
theorem parse_append_newline_of_taken (h₁ : parse a config = .ok d₁) (h₂ : parse b config = .ok d₂)
    (hnumbers : d₂.numbers = front ++ number :: behind) (hfree : ∀ n ∈ front, n ∉ d₁.numbers)
    (htaken : number ∈ d₁.numbers) :
    ∃ ts p, tokenize b = .ok ts ∧ DeclaredAt ts number p ∧
      parse (a ++ "\n" ++ b) config =
        .error ⟨p.down (1 + a.toList.count '\n'), .duplicateInstrument number⟩ := by
  obtain ⟨w, hw, hbs, hn₂⟩ := exists_words_of_parse h₂
  obtain ⟨bs, blk, bs', numbers, numbers', hblocks, hblk, rfl⟩ := exists_block_of_numbers hnumbers
  obtain ⟨found, hfound, hscore⟩ := score_append_newline h₁ b
  obtain ⟨u, s, k, m, digits, t, z, hu, hs, hk, hm, hvalue, rfl⟩ := exists_words_of_number (hblocks ▸ hbs) hblk
  obtain ⟨hadd, hnodup, hfree'⟩ := add_of_free (nodup_numbers_of_parse h₁) (hnumbers ▸ hn₂) hfree
  -- the reader's way to the number
  obtain ⟨ts, tok, later, r, r', htokens, hts, htok, hpasses, hcurrent, hadvance⟩ := exists_reader_at hw a found
  rw [hfound, ← List.cons_append, ← hk, Reader.passes_append] at hpasses
  obtain ⟨r₁, hr₁, hpasses⟩ := hpasses
  obtain ⟨hinstr, r₂, hr₂, hpasses⟩ := Reader.passes_cons.mp hpasses
  rw [Located.down, htok] at hcurrent
  have hdepth : r₂.depth = 0 := (depth_of_advance hr₂).trans hr₁.depth_eq
  have hnumber : number ∈ (d₁.join ⟨bs⟩).numbers := numbers_join ▸ List.mem_append_left _ htaken
  have hlist := instrumentNumbers_of_taken hdepth hm hnodup hfree' hpasses hcurrent hadvance hvalue hnumber
  refine ⟨_, tok.position, htokens, declaredAt_of_words hts htok hvalue hm, ?_⟩
  apply parse_of_error
  rw [hscore]
  exact sequence_of_block_error rfl hu hadd hs hr₁ hinstr (block_of_taken hinstr hr₂ hlist)

end

/-! ## keys -/

section
variable {config : Config} {source : String} {d d₁ d₂ : Definitions} {number : UInt32}

theorem instrumentKey_mem_keys : instrumentKey number ∈ d.keys ↔ number ∈ d.numbers := by
  rw [d.keys_eq, List.mem_map]
  constructor
  · intro ⟨n, hn, hkey⟩
    exact instrumentKey_inj hkey ▸ hn
  · intro h
    exact ⟨number, h, rfl⟩

theorem disjoint_numbers_of_keys (h : ∀ key ∈ d₁.keys, key ∉ d₂.keys) :
    ∀ number ∈ d₁.numbers, number ∉ d₂.numbers := fun _ h₁ h₂ =>
  h _ (instrumentKey_mem_keys.mpr h₁) (instrumentKey_mem_keys.mpr h₂)

theorem exists_first_common (h : ∃ key ∈ d₁.keys, key ∈ d₂.keys) :
    ∃ number front behind, d₂.keys.find? d₁.contains = some (instrumentKey number) ∧
      d₂.numbers = front ++ number :: behind ∧ (∀ n ∈ front, n ∉ d₁.numbers) ∧ number ∈ d₁.numbers := by
  obtain ⟨key, hfind⟩ : ∃ key, d₂.keys.find? d₁.contains = some key := by
    obtain ⟨key, h₁, h₂⟩ := h
    apply Option.isSome_iff_exists.mp
    rw [List.find?_isSome]
    exact ⟨key, h₂, List.contains_iff_mem.mpr h₁⟩
  obtain ⟨hkey, keys, keys', hsplit, hfirst⟩ := List.find?_eq_some_iff_append.mp hfind
  rw [d₂.keys_eq] at hsplit
  obtain ⟨front, rest, hnumbers, rfl, hrest⟩ := List.map_eq_append_iff.mp hsplit
  obtain ⟨number, behind, rfl, rfl, -⟩ := List.map_eq_cons_iff.mp hrest
  refine ⟨number, front, behind, hfind, hnumbers, ?_, ?_⟩
  · intro n hn hmem
    have := hfirst _ (List.mem_map_of_mem hn)
    rw [Definitions.contains, List.contains_iff_mem.mpr (instrumentKey_mem_keys.mpr hmem)] at this
    contradiction
  · exact instrumentKey_mem_keys.mp (List.contains_iff_mem.mp hkey)

theorem isEmpty_of_parse (h : parse source config = .ok d) : d.isEmpty = true ↔ d.blocks = [] := by
  unfold Definitions.isEmpty Definitions.toList
  rw [List.isEmpty_iff, List.flatMap_eq_nil_iff]
  constructor
  · intro hempty
    refine List.eq_nil_iff_forall_not_mem.mpr fun b hb => ?_
    exact (Block.isRegular_iff.mp (isRegular_of_parse h b hb)).1 (List.map_eq_nil_iff.mp (hempty b hb))
  · intro hblocks b hb
    rw [hblocks] at hb
    contradiction

end

/--
Behind a source that is accepted another one declares its instruments behind those of the first, fails at the
first of its numbers that is taken, and fails where it would fail on its own.
-/
theorem parse_append_newline {a b : String} {config : Config} {d₁ : Definitions} (h : parse a config = .ok d₁) :
    (∀ d₂, parse b config = .ok d₂ → (∀ key ∈ d₁.keys, key ∉ d₂.keys) →
      ∃ d, parse (a ++ "\n" ++ b) config = .ok d ∧ d.toList = d₁.toList ++ d₂.toList ∧
        d.toSource = d₁.toSource ++ (if d₁.isEmpty || d₂.isEmpty then "" else "\n") ++ d₂.toSource) ∧
    (∀ d₂, parse b config = .ok d₂ → (∃ key ∈ d₁.keys, key ∈ d₂.keys) →
      ∃ key number p ts, d₂.keys.find? d₁.contains = some key ∧ key = instrumentKey number ∧
        tokenize b = .ok ts ∧ DeclaredAt ts number p ∧
        parse (a ++ "\n" ++ b) config =
          .error ⟨p.down (1 + a.toList.count '\n'), .duplicateInstrument number⟩ ∧
        (Cause.duplicateInstrument number).message = "duplicate instrument " ++ key) ∧
    ∀ fault, parse b config = .error fault → ∃ fault', parse (a ++ "\n" ++ b) config = .error fault' := by
  refine ⟨fun d₂ h₂ hdisjoint => ?_, fun d₂ h₂ hcommon => ?_, fun fault hfault => ?_⟩
  · have hnodup : (d₁.join d₂).numbers.Nodup := by
      rw [numbers_join]
      refine List.nodup_append.mpr ⟨nodup_numbers_of_parse h, nodup_numbers_of_parse h₂, ?_⟩
      rintro n hn₁ _ hn₂ rfl
      exact disjoint_numbers_of_keys hdisjoint n hn₁ hn₂
    refine ⟨_, (parse_append_newline_eq_ok h).mpr ⟨d₂, h₂, rfl, hnodup⟩, toList_join, ?_⟩
    simp only [Bool.or_eq_true, isEmpty_of_parse h, isEmpty_of_parse h₂]
    by_cases hempty : d₁.blocks = [] ∨ d₂.blocks = []
    · rw [if_pos hempty]
      rcases hempty with hempty | hempty <;> simp [Definitions.toSource, Definitions.join, hempty]
    · rw [if_neg hempty]
      rw [not_or] at hempty
      exact toSource_join hempty.1 hempty.2
  · obtain ⟨number, front, behind, hfind, hnumbers, hfree, htaken⟩ := exists_first_common hcommon
    obtain ⟨ts, p, htokens, hp, hparse⟩ := parse_append_newline_of_taken h h₂ hnumbers hfree htaken
    exact ⟨_, number, p, ts, hfind, rfl, htokens, hp, hparse, rfl⟩
  · cases hparse : parse (a ++ "\n" ++ b) config with
    | error fault' => exact ⟨fault', rfl⟩
    | ok d =>
      obtain ⟨d₂, h₂, -⟩ := (parse_append_newline_eq_ok h).mp hparse
      rw [hfault] at h₂
      contradiction

/-- Two scores that go together, and one that does not go with itself. -/
theorem parse_append_newline_two :
    ∃ d₁ d₂, parse "instr 1 do\n  line p4, p5, p6, p7\nend\n" = .ok d₁ ∧
      parse "instr 2, 3 do\n  line p5, p4, p7, p6\nend\n" = .ok d₂ ∧
      (∃ d, parse ("instr 1 do\n  line p4, p5, p6, p7\nend\n" ++ "\n" ++
          "instr 2, 3 do\n  line p5, p4, p7, p6\nend\n") = .ok d ∧
        d.toList = d₁.toList ++ d₂.toList ∧ d.toSource = d₁.toSource ++ "\n" ++ d₂.toSource) ∧
      ∃ p ts, DeclaredAt ts 1 p ∧
        parse ("instr 1 do\n  line p4, p5, p6, p7\nend\n" ++ "\n" ++
          "instr 1 do\n  line p4, p5, p6, p7\nend\n") = .error ⟨p.down 4, .duplicateInstrument 1⟩ := by
  let l₁ : Line := ⟨.pField 4 [], .pField 5 [], .pField 6 [], .pField 7 [], .empty⟩
  let l₂ : Line := ⟨.pField 5 [], .pField 4 [], .pField 7 [], .pField 6 [], .empty⟩
  let d₁ : Definitions := ⟨[⟨[1], ⟨[.line l₁]⟩⟩]⟩
  let d₂ : Definitions := ⟨[⟨[2, 3], ⟨[.line l₂]⟩⟩]⟩
  have hend₁ : ∀ b ∈ d₁.blocks, ∀ f ∈ b.instrument.features, f.beginsWithEnd = false := by decide
  have hend₂ : ∀ b ∈ d₂.blocks, ∀ f ∈ b.instrument.features, f.beginsWithEnd = false := by decide
  have hsource₁ : d₁.toSource = "instr 1 do\n  line p4, p5, p6, p7\nend\n" := by decide
  have hsource₂ : d₂.toSource = "instr 2, 3 do\n  line p5, p4, p7, p6\nend\n" := by decide
  have h₁ : parse "instr 1 do\n  line p4, p5, p6, p7\nend\n" = .ok d₁ :=
    hsource₁ ▸ parse_toSource (by decide) hend₁ (by decide)
  have h₂ : parse "instr 2, 3 do\n  line p5, p4, p7, p6\nend\n" = .ok d₂ :=
    hsource₂ ▸ parse_toSource (by decide) hend₂ (by decide)
  refine ⟨d₁, d₂, h₁, h₂, (parse_append_newline h₁).1 d₂ h₂ (by decide), ?_⟩
  obtain ⟨key, number, p, ts, hfind, rfl, -, hp, hparse, -⟩ :=
    (parse_append_newline h₁).2.1 d₁ h₁ ⟨"1", by decide, by decide⟩
  obtain rfl : number = 1 := by
    have hfirst : d₁.keys.find? d₁.contains = some (instrumentKey 1) := by decide
    exact instrumentKey_inj (Option.some.inj (hfind.symm.trans hfirst))
  exact ⟨p, ts, hp, hparse⟩

end GraphicScore
