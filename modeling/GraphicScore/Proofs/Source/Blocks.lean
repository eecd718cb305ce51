import Mathlib.Data.List.Basic
import GraphicScore.Proofs.Sharing
import GraphicScore.Proofs.Source.Paragraphs
import GraphicScore.Proofs.Source.RoundTrip

/-!
# Blocks of sources

A score is printed with the blocks of its source: none put together, in two, or in another place. Blocks do
not count for equality, so a source with a block for each number reads as an equal score, and prints as a
different one.
-/

namespace GraphicScore

/-! ## items by other names -/

section
variable {α β : Type} {between : List Token → Prop} {Item : List Token → α → Prop}
  {Item' : List Token → β → Prop} {w : List Token} {as : List α} {bs : List β} {f : α → β} {R : α → Prop}

theorem SepBy.forall_values (h : SepBy between Item w as) (hi : ∀ v a, Item v a → R a) : ∀ a ∈ as, R a :=
  h.forall_items (P := fun _ => True) (fun _ _ => trivial) fun v a ha _ => hi v a ha

theorem Spaced.forall_values (h : Spaced Item w as) (hi : ∀ v a, Item v a → R a) : ∀ a ∈ as, R a :=
  h.forall_items (P := fun _ => True) (fun _ _ => trivial) fun v a ha _ => hi v a ha

theorem SepBy.map (h : SepBy between Item w as) (hi : ∀ v a, Item v a → Item' v (f a)) :
    SepBy between Item' w (as.map f) := by
  induction h with
  | one ha => exact .one (hi _ _ ha)
  | more ha hs _ ih => exact .more (hi _ _ ha) hs ih

theorem Spaced.map (h : Spaced Item w as) (hi : ∀ v a, Item v a → Item' v (f a)) :
    Spaced Item' w (as.map f) := by
  cases h with
  | none hs => exact .none hs
  | some hs hw hs' => exact .some hs (hw.map hi) hs'

theorem SepBy.exists_map (h : SepBy between Item' w bs) (hi : ∀ v b, Item' v b → ∃ a, Item v a ∧ f a = b) :
    ∃ as, SepBy between Item w as ∧ as.map f = bs := by
  induction h with
  | one hb =>
    obtain ⟨a, ha, rfl⟩ := hi _ _ hb
    exact ⟨[a], .one ha, rfl⟩
  | more hb hs _ ih =>
    obtain ⟨a, ha, rfl⟩ := hi _ _ hb
    obtain ⟨as, has, rfl⟩ := ih
    exact ⟨a :: as, .more ha hs has, rfl⟩

theorem Spaced.exists_map (h : Spaced Item' w bs) (hi : ∀ v b, Item' v b → ∃ a, Item v a ∧ f a = b) :
    ∃ as, Spaced Item w as ∧ as.map f = bs := by
  cases h with
  | none hs => exact ⟨[], .none hs, rfl⟩
  | some hs hw hs' =>
    obtain ⟨as, has, rfl⟩ := hw.exists_map hi
    exact ⟨as, .some hs has hs', rfl⟩

end

/-! ## integers -/

/-- The number that digits stand for, in decimal without leading zeros. -/
def canonical (digits : String) : String := toString (Nat.ofDigitChars 10 digits.toList 0)

def numberOf (digits : String) : UInt32 := .ofNat (Nat.ofDigitChars 10 digits.toList 0)

def IntegerWord (w : List Token) (digits : String) : Prop :=
  w = [.integer digits] ∧ Nat.ofDigitChars 10 digits.toList 0 < UInt32.size

section
variable {w : List Token} {digits : String} {number : UInt32}

theorem toNat_numberOf (h : Nat.ofDigitChars 10 digits.toList 0 < UInt32.size) :
    (numberOf digits).toNat = Nat.ofDigitChars 10 digits.toList 0 := UInt32.toNat_ofNat_of_lt h

theorem instrumentKey_numberOf (h : Nat.ofDigitChars 10 digits.toList 0 < UInt32.size) :
    instrumentKey (numberOf digits) = canonical digits := by
  rw [instrumentKey, toNat_numberOf h, canonical]

theorem IntegerWord.numberWord (h : IntegerWord w digits) : NumberWord w (numberOf digits) := by
  obtain ⟨rfl, h⟩ := h
  exact .integer (toNat_numberOf h)

theorem NumberWord.exists_integer (h : NumberWord w number) :
    ∃ digits, IntegerWord w digits ∧ numberOf digits = number := by
  obtain ⟨hvalue⟩ := h
  refine ⟨_, ⟨rfl, hvalue ▸ number.toNat_lt_size⟩, ?_⟩
  rw [numberOf, ← hvalue, UInt32.ofNat_toNat]

end

/-! ## blocks as they are written -/

/-- A block of a source, with the instrument that its body is read as. -/
structure WrittenBlock where
  digits : List String
  closer : Closer
  body : List Token
  instrument : Instrument

namespace WrittenBlock

variable {config : Config} {w : List Token} {b : WrittenBlock} {bs : List WrittenBlock}

inductive Word (config : Config) : List Token → WrittenBlock → Prop
  | written {w : List Token} {b : WrittenBlock} :
    SepBy Comma IntegerWord w b.digits → Spaced (FeatureWord config) b.body b.instrument.features →
    b.instrument.features ≠ [] →
    Word config (.identifier "instr" :: (w ++ b.closer.opening :: (b.body ++ [b.closer.token]))) b

def keys (b : WrittenBlock) : List String := b.digits.map canonical

def text (b : WrittenBlock) : String := listing b.keys b.instrument

/-- The block once for each of its integers. -/
def apart (b : WrittenBlock) : List WrittenBlock := b.digits.map fun digits => { b with digits := [digits] }

def block (b : WrittenBlock) : Block := ⟨b.digits.map numberOf, b.instrument⟩

def declared (bs : List WrittenBlock) : Definitions := ⟨bs.map block⟩

theorem Word.blockWord (h : Word config w b) : BlockWord config w b.block := by
  obtain ⟨hdigits, hbody, hne⟩ := h
  exact .block b.closer (hdigits.map fun _ _ => IntegerWord.numberWord) hbody hne

theorem Word.exists_of_blockWord {block : Block} (h : BlockWord config w block) :
    ∃ b, Word config w b ∧ b.block = block := by
  cases h with
  | @block _ body _ features closer hnumbers hfeatures hne =>
    obtain ⟨digits, hdigits, rfl⟩ := hnumbers.exists_map fun _ _ => NumberWord.exists_integer
    have h : Word config _ ⟨digits, closer, body, ⟨features⟩⟩ := .written hdigits hfeatures hne
    exact ⟨_, h, rfl⟩

theorem Word.keys_eq (h : Word config w b) : b.block.numbers.map instrumentKey = b.keys := by
  obtain ⟨hdigits, -, -⟩ := h
  have hrange := hdigits.forall_values fun _ _ hdigits => hdigits.2
  rw [block, keys, List.map_map]
  exact List.map_congr_left fun digits hmem => instrumentKey_numberOf (hrange digits hmem)

theorem Word.text_eq (h : Word config w b) : b.block.text = b.text := by
  rw [Block.text_eq, h.keys_eq]
  rfl

end WrittenBlock

/-! ## sources as they are written -/

/-- The tokens of a score that is written as the blocks, without two numbers that are the same. -/
structure IsWritten (config : Config) (w : List Token) (bs : List WrittenBlock) : Prop where
  spaced : Spaced (WrittenBlock.Word config) w bs
  distinct : (bs.flatMap WrittenBlock.keys).Nodup

section
variable {config : Config} {w : List Token} {bs : List WrittenBlock}

theorem keys_declared (h : Spaced (WrittenBlock.Word config) w bs) :
    (WrittenBlock.declared bs).keys = bs.flatMap WrittenBlock.keys := by
  have hkeys := h.forall_values fun _ _ => WrittenBlock.Word.keys_eq
  rw [Definitions.keys_eq, Definitions.numbers, WrittenBlock.declared, List.flatMap_map, List.map_flatMap]
  exact List.flatMap_congr hkeys

theorem IsWritten.scoreWord (h : IsWritten config w bs) :
    ScoreWord config (w ++ [.endOfInput]) (WrittenBlock.declared bs) := by
  refine .score (h.spaced.map fun _ _ => WrittenBlock.Word.blockWord) ?_
  rw [← Definitions.nodup_keys, keys_declared h.spaced]
  exact h.distinct

theorem exists_isWritten {d : Definitions} (h : ScoreWord config (w ++ [.endOfInput]) d) :
    ∃ bs, IsWritten config w bs := by
  generalize hu : w ++ [.endOfInput] = u at h
  obtain ⟨hblocks, hn⟩ := h
  obtain rfl := List.append_cancel_right hu
  obtain ⟨bs, hbs, hd⟩ := hblocks.exists_map fun _ _ => WrittenBlock.Word.exists_of_blockWord
  refine ⟨bs, hbs, ?_⟩
  have hblocks : WrittenBlock.declared bs = d := congrArg Definitions.mk hd
  rw [← keys_declared hbs, hblocks, Definitions.nodup_keys]
  exact hn

theorem texts_declared (h : Spaced (WrittenBlock.Word config) w bs) :
    (WrittenBlock.declared bs).blocks.map Block.text = bs.map WrittenBlock.text := by
  have htexts := h.forall_values fun _ _ => WrittenBlock.Word.text_eq
  rw [WrittenBlock.declared, List.map_map]
  exact List.map_congr_left htexts

/-! ## one block for each number -/

theorem declared_apart (bs : List WrittenBlock) :
    WrittenBlock.declared (bs.flatMap WrittenBlock.apart) = (WrittenBlock.declared bs).apart := by
  simp [WrittenBlock.declared, WrittenBlock.apart, WrittenBlock.block, Definitions.apart, Block.apart,
    List.map_flatMap, List.flatMap_map, Function.comp_def]

theorem IsWritten.apart {w' : List Token} (h : IsWritten config w bs)
    (h' : Spaced (WrittenBlock.Word config) w' (bs.flatMap WrittenBlock.apart)) :
    IsWritten config w' (bs.flatMap WrittenBlock.apart) := by
  refine ⟨h', ?_⟩
  rw [← keys_declared h', declared_apart, Definitions.keys_apart, keys_declared h.spaced]
  exact h.distinct

end

section
variable {source : String} {config : Config} {d : Definitions} {w : List Token} {bs : List WrittenBlock}

theorem IsWritten.parse (h : IsWritten config w bs) (hw : words source.toList = some w) :
    parse source config = .ok (WrittenBlock.declared bs) :=
  parse_iff_words.mpr ⟨w, hw, h.scoreWord⟩

/-- Whatever blocks a source is cut into, they are those that are read. -/
theorem IsWritten.declared_eq (h : IsWritten config w bs) (hw : words source.toList = some w)
    (hd : GraphicScore.parse source config = .ok d) : WrittenBlock.declared bs = d :=
  Except.ok.inj ((h.parse hw).symm.trans hd)

theorem paragraphs_of_parse (h : parse source config = .ok d) :
    paragraphs d.toSource.toList = (d.blocks.map Block.text).map String.toList :=
  paragraphs_toSource fun b hb _ hf => (Block.isRegular_feature (isRegular_of_parse h b hb) hf).1

end

/--
The blocks of a source are the paragraphs of the text that its score has, whether their instruments are equal
or not, since only keys of one block share an instrument. A source that has each block once for every number
of it reads as an equal score with a paragraph for every key.
-/
theorem paragraphs_of_blocks {source : String} {config : Config} {d : Definitions}
    (h : parse source config = .ok d) :
    ∃ w, words source.toList = some w ∧ (∃ bs, IsWritten config w bs) ∧ ∀ bs, IsWritten config w bs →
      (d.toSource = "\n".intercalate (bs.map WrittenBlock.text) ∧
        paragraphs d.toSource.toList = (bs.map WrittenBlock.text).map String.toList) ∧
      (∀ addresses : List Nat, addresses.length = bs.length → addresses.Nodup →
        (d.entries addresses).map (fun e => (e.key, e.instrument)) = d.toList ∧
          d.toSource = "\n".intercalate ((regroup (d.entries addresses)).map Group.text)) ∧
      ∀ source' w', words source'.toList = some w' →
        Spaced (WrittenBlock.Word config) w' (bs.flatMap WrittenBlock.apart) →
        ∃ d', parse source' config = .ok d' ∧ (d' == d) = true ∧
          d'.toSource = "\n".intercalate (d.toList.map fun entry => listing [entry.1] entry.2) ∧
          paragraphs d'.toSource.toList =
            (d.toList.map fun entry => listing [entry.1] entry.2).map String.toList := by
  obtain ⟨w, hw, hword⟩ := parse_iff_words.mp h
  refine ⟨w, hw, exists_isWritten hword, fun bs hbs => ?_⟩
  obtain rfl := hbs.declared_eq hw h
  have htexts := texts_declared hbs.spaced
  refine ⟨⟨congrArg _ htexts, ?_⟩, fun addresses hlength hn => ?_, fun source' w' hw' hapart => ?_⟩
  · rw [paragraphs_of_parse h, htexts]
  · have hlength : addresses.length = (WrittenBlock.declared bs).blocks.length := by
      simpa [WrittenBlock.declared] using hlength
    have hnumbers : ∀ b ∈ (WrittenBlock.declared bs).blocks, b.numbers ≠ [] := fun b hb =>
      (Block.isRegular_iff.mp (isRegular_of_parse h b hb)).1
    exact ⟨map_entries hlength, toSource_eq_regroup hnumbers hlength hn⟩
  · have h' := (hbs.apart hapart).parse hw'
    rw [declared_apart] at h'
    refine ⟨_, h', ?_, Definitions.toSource_apart _, ?_⟩
    · rw [Definitions.beq_apart]
      exact beq_self_of_parse h
    · rw [paragraphs_of_parse h', Definitions.texts_apart]

/-- Two blocks with the same statement, and the first of them in two. -/
theorem paragraphs_of_blocks_equal :
    ∃ d, parse "instr 1, 02 do\n line p4, p5, p6, p7\nend\ninstr 3 \x7b\n line p4, p5, p6, p7\n\x7d" = .ok d ∧
      d.toSource =
        "instr 1, 2 do\n  line p4, p5, p6, p7\nend\n\ninstr 3 do\n  line p4, p5, p6, p7\nend\n" ∧
      ∃ d', parse ("instr 1 do\n line p4, p5, p6, p7\nend\ninstr 02 do\n line p4, p5, p6, p7\nend\n" ++
          "instr 3 \x7b\n line p4, p5, p6, p7\n\x7d") = .ok d' ∧
        (d' == d) = true ∧
        d'.toSource = "instr 1 do\n  line p4, p5, p6, p7\nend\n\ninstr 2 do\n  line p4, p5, p6, p7\nend\n\n" ++
          "instr 3 do\n  line p4, p5, p6, p7\nend\n" := by
  let i : Instrument := ⟨[.line ⟨.pField 4 [], .pField 5 [], .pField 6 [], .pField 7 [], .empty⟩]⟩
  let block (digits : List String) (closer : Closer) : WrittenBlock := ⟨digits, closer, .newline :: i.tokens, i⟩
  have hbody : Spaced (FeatureWord {}) (.newline :: i.tokens) i.features :=
    derives_instrument (by decide) (by decide) (by decide)
  have hne : i.features ≠ [] := List.cons_ne_nil _ _
  have hcomma : Comma [.comma] := ⟨[], .nil, rfl⟩
  have hbreak : Break [.newline] := ⟨List.forall_mem_singleton.mpr rfl, List.cons_ne_nil _ _⟩
  have hone : IntegerWord [.integer "1"] "1" := ⟨rfl, by decide⟩
  have htwo : IntegerWord [.integer "02"] "02" := ⟨rfl, by decide⟩
  have hthree : IntegerWord [.integer "3"] "3" := ⟨rfl, by decide⟩
  have hshared : WrittenBlock.Word {} _ (block ["1", "02"] .keyword) :=
    .written (.more hone hcomma (.one htwo)) hbody hne
  have hfirst : WrittenBlock.Word {} _ (block ["1"] .keyword) := .written (.one hone) hbody hne
  have hsecond : WrittenBlock.Word {} _ (block ["02"] .keyword) := .written (.one htwo) hbody hne
  have hlast : WrittenBlock.Word {} _ (block ["3"] .brace) := .written (.one hthree) hbody hne
  have hnone : Separators [] := List.forall_mem_nil _
  have hspaced : Spaced (WrittenBlock.Word {}) _ [block ["1", "02"] .keyword, block ["3"] .brace] :=
    .some hnone (.more hshared hbreak (.one hlast)) hnone
  obtain ⟨w, hw, hwritten⟩ : ∃ w,
      words "instr 1, 02 do\n line p4, p5, p6, p7\nend\ninstr 3 \x7b\n line p4, p5, p6, p7\n\x7d".toList = some w ∧
        IsWritten {} w [block ["1", "02"] .keyword, block ["3"] .brace] :=
    ⟨_, by decide +kernel, hspaced, by decide⟩
  have h := hwritten.parse hw
  obtain ⟨w', hw', -, hblocks⟩ := paragraphs_of_blocks h
  obtain rfl := Option.some.inj (hw.symm.trans hw')
  obtain ⟨⟨hsource, -⟩, -, hsplit⟩ := hblocks _ hwritten
  have hapart : Spaced (WrittenBlock.Word {}) _ [block ["1"] .keyword, block ["02"] .keyword, block ["3"] .brace] :=
    .some hnone (.more hfirst hbreak (.more hsecond hbreak (.one hlast))) hnone
  refine ⟨_, h, hsource.trans (by decide +kernel), ?_⟩
  refine (hsplit _ _ ?_ hapart).imp fun d' h' => ⟨h'.1, h'.2.1, h'.2.2.1.trans ?_⟩ <;> decide +kernel

end GraphicScore
