/-!
# Converters

A converter is the name of a transform that a renderer applies to a value. A vocabulary is a set
of such names, kept in ascending order so that equal sets are equal lists.
-/

namespace GraphicScore

structure Converter where
  name : String
deriving DecidableEq, Repr

instance : Ord Converter := ⟨fun a b => compare a.name b.name⟩

structure Vocabulary where
  names : List String
  ascending : names.Pairwise (· < ·)
deriving DecidableEq

namespace Vocabulary

def empty : Vocabulary := ⟨[], .nil⟩

/-- Puts a name at its place unless it is there already. -/
def place (name : String) : List String → List String
  | [] => [name]
  | first :: others =>
    if name < first then name :: first :: others
    else if name = first then first :: others
    else first :: place name others

theorem mem_place {name other : String} {names : List String} :
    other ∈ place name names ↔ other = name ∨ other ∈ names := by
  fun_induction place name names <;> simp_all
  grind

theorem pairwise_place {names : List String} (name : String) (h : names.Pairwise (· < ·)) :
    (place name names).Pairwise (· < ·) := by
  induction names with
  | nil => simp [place]
  | cons first others ih =>
    obtain ⟨below, rest⟩ := List.pairwise_cons.mp h
    unfold place
    split
    case isTrue lt =>
      refine List.pairwise_cons.mpr ⟨?_, h⟩
      intro n hn
      rcases List.mem_cons.mp hn with rfl | hn
      · exact lt
      · exact String.lt_trans lt (below n hn)
    case isFalse notLt =>
      split
      case isTrue => exact h
      case isFalse ne =>
        refine List.pairwise_cons.mpr ⟨?_, ih rest⟩
        intro n hn
        rcases mem_place.mp hn with rfl | hn
        · exact String.not_le.mp fun le => ne (String.le_antisymm le (String.not_lt.mp notLt))
        · exact below n hn

def insert (v : Vocabulary) (name : String) : Vocabulary :=
  ⟨place name v.names, pairwise_place name v.ascending⟩

def ofList (names : List String) : Vocabulary := names.foldl insert empty

def contains (v : Vocabulary) (name : String) : Bool := v.names.contains name

def size (v : Vocabulary) : Nat := v.names.length

def isEmpty (v : Vocabulary) : Bool := v.names.isEmpty

def csound : Vocabulary :=
  ofList ["cpspch", "cpsoct", "octpch", "pchoct", "octcps", "cpsmidinn", "octmidinn", "pchmidinn",
    "ampdb", "ampdbfs", "dbamp", "dbfsamp"]

end Vocabulary

/-- What becomes of a call of a converter outside the vocabulary. -/
inductive UnknownConverter where
  | record
  | reject
deriving DecidableEq, Repr

structure Config where
  vocabulary : Vocabulary := .csound
  unknown : UnknownConverter := .record
deriving DecidableEq

/-- Whether a call of the converter may stand in a score. -/
def Config.admits (config : Config) (name : String) : Bool :=
  config.unknown == .record || config.vocabulary.contains name

end GraphicScore
