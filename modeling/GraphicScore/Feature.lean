import GraphicScore.Expr

/-!
# Features

The drawable statements of an instrument. Options are looked up by name; the order they were given
in is kept for printing and plays no part in equality.
-/

namespace GraphicScore

structure Options where
  entries : List (String × Expr)
  distinct : (entries.map Prod.fst).Nodup

namespace Options

def empty : Options := ⟨[], .nil⟩

def names (o : Options) : List String := o.entries.map Prod.fst

def get? (o : Options) (name : String) : Option Expr := o.entries.lookup name

def contains (o : Options) (name : String) : Bool := o.names.contains name

def isEmpty (o : Options) : Bool := o.entries.isEmpty

def assign (name : String) (value : Expr) (entries : List (String × Expr)) : List (String × Expr) :=
  entries.map fun entry => if entry.1 = name then (name, value) else entry

theorem map_fst_assign (name : String) (value : Expr) (entries : List (String × Expr)) :
    (assign name value entries).map Prod.fst = entries.map Prod.fst := by
  rw [assign, List.map_map]
  apply List.map_congr_left
  intro entry _
  by_cases hit : entry.1 = name <;> simp [hit]

theorem nodup_append_singleton {α : Type} {names : List α} {name : α} (distinct : names.Nodup)
    (new : name ∉ names) : (names ++ [name]).Nodup := by
  rw [List.nodup_append]
  refine ⟨distinct, by simp, ?_⟩
  intro a ha b hb same
  rw [List.mem_singleton.mp hb] at same
  exact new (same ▸ ha)

/-- A new name goes to the end; a name that is there keeps its place and takes the new value. -/
def insert (o : Options) (name : String) (value : Expr) : Options :=
  if h : name ∈ o.names then
    ⟨assign name value o.entries, by
      rw [map_fst_assign]
      exact o.distinct⟩
  else
    ⟨o.entries ++ [(name, value)], by
      rw [List.map_append]
      exact nodup_append_singleton o.distinct h⟩

/-- The same names with equal values, in any order. -/
def beq (a b : Options) : Bool :=
  a.entries.length == b.entries.length && a.entries.all fun (name, value) => b.get? name == some value

instance : BEq Options := ⟨beq⟩

end Options

structure Line where
  xstart : Expr
  xend : Expr
  ystart : Expr
  yend : Expr
  options : Options
deriving BEq

inductive Feature where
  | line (line : Line)
deriving BEq

inductive FeatureKind where
  | line
deriving DecidableEq, Repr

namespace FeatureKind

def ofKeyword? : String → Option FeatureKind
  | "line" => some .line
  | _ => none

def keyword : FeatureKind → String
  | .line => "line"

def coordinateCount : FeatureKind → Nat
  | .line => 4

/-- The feature with the given arguments, if the coordinates are as many as the kind needs. -/
def feature? (kind : FeatureKind) (coordinates : List Expr) (options : Options) : Option Feature :=
  match kind, coordinates with
  | .line, [xstart, xend, ystart, yend] => some (.line ⟨xstart, xend, ystart, yend, options⟩)
  | .line, _ => none

end FeatureKind

structure Instrument where
  features : List Feature
deriving BEq

end GraphicScore
