import GraphicScore.Definitions

/-!
# Keys of definitions

The keys are the numbers in decimal, in the order declared. Numbers that are all different give
every block's instrument under each of its keys.
-/

namespace GraphicScore

theorem lookup_eq_some_of_mem {α β : Type} [BEq α] [LawfulBEq α] {entries : List (α × β)}
    (hn : (entries.map Prod.fst).Nodup) {key : α} {value : β} (h : (key, value) ∈ entries) :
    entries.lookup key = some value := by
  obtain ⟨before, behind, rfl⟩ := List.append_of_mem h
  refine List.lookup_eq_some_iff.mpr ⟨before, behind, rfl, fun entry hentry => ?_⟩
  rw [List.map_append, List.nodup_append] at hn
  have := hn.2.2 entry.1 (List.mem_map_of_mem hentry) key (List.mem_cons_self ..)
  exact bne_iff_ne.mpr this.symm

theorem instrumentKey_inj {a b : UInt32} (h : instrumentKey a = instrumentKey b) : a = b := by
  have : a.toNat = b.toNat := by
    rw [← Nat.ofDigitChars_ten_toDigits (n := a.toNat), ← Nat.ofDigitChars_ten_toDigits (n := b.toNat),
      ← Nat.toList_repr, ← Nat.toList_repr]
    exact congrArg (fun key : String => Nat.ofDigitChars 10 key.toList 0) h
  exact UInt32.toNat_inj.mp this

namespace Definitions

variable (d : Definitions)

theorem keys_eq : d.keys = d.numbers.map instrumentKey := by
  simp [keys, toList, numbers, List.map_flatMap, Function.comp_def]

theorem nodup_keys : d.keys.Nodup ↔ d.numbers.Nodup := by
  rw [d.keys_eq, List.nodup_iff_pairwise_ne, List.nodup_iff_pairwise_ne, List.pairwise_map]
  exact ⟨fun h => h.imp fun ne e => ne (congrArg _ e), fun h => h.imp fun ne e => ne (instrumentKey_inj e)⟩

theorem get?_instrumentKey (hn : d.numbers.Nodup) {b : Block} (hb : b ∈ d.blocks) {number : UInt32}
    (hnumber : number ∈ b.numbers) : d.get? (instrumentKey number) = some b.instrument := by
  refine lookup_eq_some_of_mem (d.nodup_keys.mpr hn) ?_
  exact List.mem_flatMap.mpr ⟨b, hb, List.mem_map.mpr ⟨number, hnumber, rfl⟩⟩

end Definitions

end GraphicScore
