import Mathlib.Algebra.Group.Nat.Defs
import GraphicScore.Proofs.Source.Blocks

/-!
# Well-formed scores

What a renderer can rely on in a score that has been read: keys in canonical decimal, one instrument for all keys
of a block, instruments that draw something, and expressions without p-fields that there are not and without
constants that are not finite.
-/

namespace GraphicScore

structure Definitions.IsWellFormed (source : String) (config : Config) (d : Definitions) : Prop where
  distinct : d.keys.Nodup
  canonical : ∀ key ∈ d.keys, ∃ n < 2 ^ 32, key = toString n ∧ (key.toList.head? = some '0' → n = 0)
  draws : ∀ entry ∈ d.toList, entry.2.features ≠ []
  regular : ∀ entry ∈ d.toList, ∀ f ∈ entry.2.features, ∀ e ∈ f.expressions, e.all Expr.isRegular = true
  named : ∀ entry ∈ d.toList, ∀ f ∈ entry.2.features,
    f.optionNames.Nodup ∧ ∀ name ∈ f.optionNames, isWord name = true
  shared : ∀ b ∈ d.blocks, ∀ number ∈ b.numbers, d.get? (instrumentKey number) = some b.instrument
  written : ∃ w, words source.toList = some w ∧ (∃ bs, IsWritten config w bs) ∧
    ∀ bs, IsWritten config w bs → ∀ b ∈ bs, ∀ key ∈ b.keys, d.get? key = some b.instrument

/-! ## keys -/

/-- Numbers in decimal have no leading zeros. -/
theorem head?_toDigits_ne_zero {n : Nat} (h : 0 < n) : (Nat.toDigits 10 n).head? ≠ some '0' := by
  induction n using Nat.strongRecOn with
  | ind n ih =>
    by_cases hn : n < 10
    · have hdigit : ∀ n < 10, 0 < n → n.digitChar ≠ '0' := by decide
      simpa [Nat.toDigits_of_lt_base hn] using hdigit n hn h
    · have hquotient := ih (n / 10) (by omega) (by omega)
      obtain ⟨c, cs, hcs⟩ := List.exists_cons_of_ne_nil (l := Nat.toDigits 10 (n / 10)) Nat.toDigits_ne_nil
      rw [Nat.toDigits_of_base_le (by decide) (by omega), hcs]
      rwa [hcs] at hquotient

theorem head?_instrumentKey {number : UInt32} (h : (instrumentKey number).toList.head? = some '0') :
    number.toNat = 0 := by
  rw [instrumentKey, Nat.toString_eq_repr, Nat.toList_repr] at h
  exact Nat.eq_zero_of_not_pos fun hpos => head?_toDigits_ne_zero hpos h

section
variable {d : Definitions} {f : Feature} {key : String}

theorem exists_number_of_mem_keys (h : key ∈ d.keys) : ∃ number : UInt32, key = instrumentKey number := by
  rw [d.keys_eq] at h
  obtain ⟨number, -, rfl⟩ := List.mem_map.mp h
  exact ⟨number, rfl⟩

/-! ## instruments -/

theorem exists_block_of_mem_toList {entry : String × Instrument} (h : entry ∈ d.toList) :
    ∃ b ∈ d.blocks, entry.2 = b.instrument := by
  obtain ⟨b, hb, hentry⟩ := List.mem_flatMap.mp h
  obtain ⟨number, -, rfl⟩ := List.mem_map.mp hentry
  exact ⟨b, hb, rfl⟩

theorem Feature.nodup_optionNames : f.optionNames.Nodup := by
  obtain ⟨l⟩ := f
  exact l.options.distinct

theorem all_isRegular_of_feature (h : f.isRegular = true) : ∀ e ∈ f.expressions, e.all Expr.isRegular = true := by
  intro e he
  obtain ⟨hnamed, hnumbered, hfinite⟩ := Feature.isRegular_iff.mp h
  rw [Feature.isNamed, Bool.and_eq_true, List.all_eq_true] at hnamed
  rw [Feature.isNumbered, List.all_eq_true] at hnumbered
  rw [Feature.isFinite, List.all_eq_true] at hfinite
  exact Expr.all_isRegular.mpr ⟨hnamed.1 e he, hnumbered e he, hfinite e he⟩

end

/-- Every score that is read is well formed. -/
theorem isWellFormed_of_parse {source : String} {config : Config} {d : Definitions}
    (h : parse source config = .ok d) : d.IsWellFormed source config := by
  have hnumbers := nodup_numbers_of_parse h
  have hblock {entry : String × Instrument} (hentry : entry ∈ d.toList) :
      entry.2.features ≠ [] ∧ ∀ f ∈ entry.2.features, f.isRegular = true := by
    obtain ⟨b, hb, hinstrument⟩ := exists_block_of_mem_toList hentry
    exact hinstrument ▸ (Block.isRegular_iff.mp (isRegular_of_parse h b hb)).2
  exact {
    distinct := d.nodup_keys.mpr hnumbers
    canonical := by
      intro key hkey
      obtain ⟨number, rfl⟩ := exists_number_of_mem_keys hkey
      exact ⟨number.toNat, number.toNat_lt, rfl, head?_instrumentKey⟩
    draws := fun entry hentry => (hblock hentry).1
    regular := fun entry hentry f hf => all_isRegular_of_feature ((hblock hentry).2 f hf)
    named := by
      intro entry hentry f hf
      have hnamed := (Feature.isRegular_iff.mp ((hblock hentry).2 f hf)).1
      rw [Feature.isNamed, Bool.and_eq_true, List.all_eq_true, List.all_eq_true] at hnamed
      exact ⟨f.nodup_optionNames, hnamed.2⟩
    shared := fun b hb number hnumber => d.get?_instrumentKey hnumbers hb hnumber
    written := by
      obtain ⟨w, hw, hword⟩ := parse_iff_words.mp h
      refine ⟨w, hw, exists_isWritten hword, fun bs hbs b hb key hkey => ?_⟩
      obtain rfl := hbs.declared_eq hw h
      -- the keys of a block are written as digits, and declared as numbers
      rw [← hbs.spaced.forall_values (fun _ _ => WrittenBlock.Word.keys_eq) b hb] at hkey
      obtain ⟨number, hnumber, rfl⟩ := List.mem_map.mp hkey
      exact Definitions.get?_instrumentKey _ hnumbers (List.mem_map_of_mem hb) hnumber
  }

theorem isWellFormed_of_parse_shared :
    let source := "instr 1, 20 do\n  line cpspch(p4), p5, 0.5, -1, :width => p6 * 2\nend\n"
    ∃ d, parse source = .ok d ∧ d.keys = ["1", "20"] ∧ d.IsWellFormed source {} := by
  intro source
  let half : Expr := .constant (.float (.finite false ⟨4602678819172646912, by decide⟩))
  let options : Options := ⟨[("width", .binary .times (.pField 6 []) (.constant (.int 2)) [])], by simp⟩
  let l : Line := ⟨.pField 4 [⟨"cpspch"⟩], .pField 5 [], half, .constant (.int (-1)), options⟩
  let d : Definitions := ⟨[⟨[1, 20], ⟨[.line l]⟩⟩]⟩
  have hend : ∀ b ∈ d.blocks, ∀ f ∈ b.instrument.features, f.beginsWithEnd = false := by decide
  have hsource : d.toSource = source := by decide +kernel
  have hd : parse source = .ok d := hsource ▸ parse_toSource (by decide) hend (by decide)
  exact ⟨d, hd, by decide, isWellFormed_of_parse hd⟩

end GraphicScore
