import GraphicScore.Proofs.Definitions
import GraphicScore.Source

/-!
# Shared instruments

Definitions as a map that is ordered by its keys' places. The keys of a block share one instrument, which
stands at an address of its own: equal instruments of two blocks do not. Printing puts the keys together that
share an instrument, and finds the blocks again.
-/

namespace GraphicScore

structure Entry where
  key : String
  address : Nat
  instrument : Instrument

/-- Keys that are printed together. -/
structure Group where
  keys : List String
  address : Nat
  instrument : Instrument

def Block.entries (b : Block) (address : Nat) : List Entry :=
  b.numbers.map fun number => ⟨instrumentKey number, address, b.instrument⟩

def Block.group (b : Block) (address : Nat) : Group := ⟨b.numbers.map instrumentKey, address, b.instrument⟩

/-- The map, with the instruments of the blocks at the given addresses. -/
def Definitions.entries (d : Definitions) (addresses : List Nat) : List Entry :=
  (List.zipWith Block.entries d.blocks addresses).flatten

/-- One more key, with the first keys that share its instrument, or else on its own behind all others. -/
def Group.insert : List Group → Entry → List Group
  | [], e => [⟨[e.key], e.address, e.instrument⟩]
  | g :: groups, e =>
    if g.address = e.address then { g with keys := g.keys ++ [e.key] } :: groups
    else g :: insert groups e

def regroup (entries : List Entry) : List Group := entries.foldl Group.insert []

def listing (keys : List String) (i : Instrument) : String :=
  "instr " ++ ", ".intercalate keys ++ " do\n" ++ i.text ++ "end\n"

def Group.text (g : Group) : String := listing g.keys g.instrument

theorem Block.text_eq (b : Block) : b.text = listing (b.numbers.map instrumentKey) b.instrument := rfl

@[simp] theorem Block.text_group (b : Block) (address : Nat) : (b.group address).text = b.text := rfl

section
variable {groups : List Group} {e : Entry} {entries : List Entry} {b : Block} {address : Nat}

theorem insert_append (h : ∀ g ∈ groups, g.address ≠ e.address) (groups' : List Group) :
    Group.insert (groups ++ groups') e = groups ++ Group.insert groups' e := by
  induction groups with
  | nil => rfl
  | cons g groups ih =>
    rw [List.forall_mem_cons] at h
    rw [List.cons_append, Group.insert, if_neg h.1, ih h.2, List.cons_append]

theorem foldl_insert_last {g : Group} (h : ∀ g' ∈ groups, g'.address ≠ g.address)
    (he : ∀ e ∈ entries, e.address = g.address) :
    entries.foldl Group.insert (groups ++ [g]) = groups ++ [{ g with keys := g.keys ++ entries.map Entry.key }] := by
  induction entries generalizing g with
  | nil => simp
  | cons e entries ih =>
    rw [List.forall_mem_cons] at he
    have hfirst : Group.insert (groups ++ [g]) e = groups ++ [{ g with keys := g.keys ++ [e.key] }] := by
      rw [insert_append (fun g' hg => he.1 ▸ h g' hg), Group.insert, if_pos he.1.symm]
    rw [List.foldl_cons, hfirst, ih (g := { g with keys := g.keys ++ [e.key] }) h he.2]
    simp

theorem foldl_insert_entries (hb : b.numbers ≠ []) (h : ∀ g ∈ groups, g.address ≠ address) :
    (b.entries address).foldl Group.insert groups = groups ++ [b.group address] := by
  obtain ⟨number, numbers, hnumbers⟩ := List.exists_cons_of_ne_nil hb
  have hfirst (e : Entry) (he : e.address = address) :
      Group.insert groups e = groups ++ [⟨[e.key], e.address, e.instrument⟩] := by
    have := insert_append (e := e) (fun g hg => he ▸ h g hg) []
    rwa [List.append_nil] at this
  rw [Block.entries, Block.group, hnumbers, List.map_cons, List.foldl_cons, hfirst _ rfl,
    foldl_insert_last h (List.forall_mem_map.mpr fun _ _ => rfl)]
  simp

theorem foldl_insert_blocks {blocks : List Block} {addresses : List Nat} (hb : ∀ b ∈ blocks, b.numbers ≠ [])
    (hn : addresses.Nodup) (h : ∀ g ∈ groups, g.address ∉ addresses) :
    (List.zipWith Block.entries blocks addresses).flatten.foldl Group.insert groups =
      groups ++ List.zipWith Block.group blocks addresses := by
  induction blocks generalizing addresses groups with
  | nil => simp
  | cons b blocks ih =>
    cases addresses with
    | nil => simp
    | cons address addresses =>
      rw [List.forall_mem_cons] at hb
      obtain ⟨hnew, hn⟩ := List.nodup_cons.mp hn
      simp only [List.mem_cons, not_or] at h
      have hgroups : ∀ g ∈ groups ++ [b.group address], g.address ∉ addresses := by
        rw [List.forall_mem_append, List.forall_mem_singleton]
        exact ⟨fun g hg => (h g hg).2, hnew⟩
      rw [List.zipWith_cons_cons, List.flatten_cons, List.foldl_append,
        foldl_insert_entries hb.1 fun g hg => (h g hg).1, ih hb.2 hn hgroups]
      simp

end

section
variable {d : Definitions} {addresses : List Nat}

/-- The blocks are found again, none put together with another one, in two or out of place. -/
theorem regroup_entries (hb : ∀ b ∈ d.blocks, b.numbers ≠ []) (hn : addresses.Nodup) :
    regroup (d.entries addresses) = List.zipWith Block.group d.blocks addresses :=
  foldl_insert_blocks hb hn (List.forall_mem_nil _)

theorem map_zipWith_blocks {α β : Type} {f : Block → Nat → α} {g : α → β} {g' : Block → β}
    (h : ∀ b address, g (f b address) = g' b) {blocks : List Block} (hlength : addresses.length = blocks.length) :
    (List.zipWith f blocks addresses).map g = blocks.map g' := by
  induction blocks generalizing addresses with
  | nil => simp
  | cons b blocks ih =>
    obtain ⟨address, addresses, rfl⟩ := List.exists_cons_of_length_eq_add_one hlength
    rw [List.zipWith_cons_cons, List.map_cons, List.map_cons, h, ih (Nat.succ.inj hlength)]

/-- Printing and equality go through the same map. -/
theorem map_entries (hlength : addresses.length = d.blocks.length) :
    (d.entries addresses).map (fun e => (e.key, e.instrument)) = d.toList := by
  have hblock (b : Block) (address : Nat) : (b.entries address).map (fun e => (e.key, e.instrument)) =
      b.numbers.map fun number => (instrumentKey number, b.instrument) := by
    simp [Block.entries]
  rw [Definitions.entries, List.map_flatten, map_zipWith_blocks hblock hlength]
  rfl

theorem toSource_eq_regroup (hb : ∀ b ∈ d.blocks, b.numbers ≠ []) (hlength : addresses.length = d.blocks.length)
    (hn : addresses.Nodup) :
    d.toSource = "\n".intercalate ((regroup (d.entries addresses)).map Group.text) := by
  rw [regroup_entries hb hn, map_zipWith_blocks Block.text_group hlength]
  rfl

end

/-! ## keys of their own -/

/-- The block once for each of its numbers, so that no two keys share an instrument. -/
def Block.apart (b : Block) : List Block := b.numbers.map fun number => ⟨[number], b.instrument⟩

namespace Definitions

def apart (d : Definitions) : Definitions := ⟨d.blocks.flatMap Block.apart⟩

variable (d : Definitions)

theorem toList_apart : d.apart.toList = d.toList := by
  simp [toList, apart, Block.apart, List.flatMap_assoc, List.flatMap_map, ← List.map_eq_flatMap]

theorem keys_apart : d.apart.keys = d.keys := congrArg (List.map Prod.fst) d.toList_apart

theorem beq_apart : (d.apart == d) = (d == d) := by
  show (d.apart.toList == d.toList) = (d.toList == d.toList)
  rw [toList_apart]

theorem texts_apart : d.apart.blocks.map Block.text = d.toList.map fun entry => listing [entry.1] entry.2 := by
  simp [apart, Block.apart, toList, Block.text_eq, List.map_flatMap, Function.comp_def]

theorem toSource_apart : d.apart.toSource = "\n".intercalate (d.toList.map fun entry => listing [entry.1] entry.2) :=
  congrArg _ d.texts_apart

end Definitions

end GraphicScore
