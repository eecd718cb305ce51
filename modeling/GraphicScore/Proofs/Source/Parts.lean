import GraphicScore.Proofs.Token.Spelling
import GraphicScore.Reading.Expression
import GraphicScore.Source

/-!
# Parts of a score

What makes the parts of a score readable: names that a text can have, p-fields that there are, and
finite constants.
-/

namespace GraphicScore

def Converter.isCallable (c : Converter) : Bool := isIdentifier c.name && (pFieldDigits? c.name).isNone

theorem Converter.isCallable_iff {c : Converter} :
    c.isCallable = true ↔ isIdentifier c.name = true ∧ pFieldDigits? c.name = none := by
  simp [isCallable]

def Constant.isFinite : Constant → Bool
  | .int _ => true
  | .float value => value.isFinite

namespace Expr

def all (p : Expr → Bool) : Expr → Bool
  | .constant value => p (.constant value)
  | .pField number converters => p (.pField number converters)
  | .binary operator left right converters =>
    p (.binary operator left right converters) && left.all p && right.all p

def isCallable (e : Expr) : Bool := e.converters.all Converter.isCallable

def isNumbered : Expr → Bool
  | .pField number _ => number != 0
  | _ => true

def isFinite : Expr → Bool
  | .constant value => value.isFinite
  | _ => true

end Expr

def Line.expressions (l : Line) : List Expr :=
  [l.xstart, l.xend, l.ystart, l.yend] ++ l.options.entries.map Prod.snd

def Line.arguments (l : Line) : List (Expr ⊕ String × Expr) :=
  [l.xstart, l.xend, l.ystart, l.yend].map .inl ++ l.options.entries.map .inr

def argumentExpr : Expr ⊕ String × Expr → Expr
  | .inl e => e
  | .inr (_, e) => e

namespace Feature

def expressions : Feature → List Expr
  | .line l => l.expressions

def optionNames : Feature → List String
  | .line l => l.options.names

/-- Whether a text can have all names in the feature. -/
def isNamed (f : Feature) : Bool := f.expressions.all (·.all Expr.isCallable) && f.optionNames.all isWord

def isNumbered (f : Feature) : Bool := f.expressions.all (·.all Expr.isNumbered)

def isFinite (f : Feature) : Bool := f.expressions.all (·.all Expr.isFinite)

def isRegular (f : Feature) : Bool := f.isNamed && f.isNumbered && f.isFinite

/-- Whether the text of the feature's first coordinate begins with a call of `end`. -/
def beginsWithEnd : Feature → Bool
  | .line l => "end(".toList.isPrefixOf l.xstart.text.toList

end Feature

/-- Whether the instrument's text is read back, if it can have all names in the instrument. -/
def Instrument.isReadable (i : Instrument) : Bool :=
  !i.features.isEmpty && i.features.all fun f => f.isNumbered && f.isFinite && !f.beginsWithEnd

/-- Whether the block could be read but for how a feature begins. -/
def Block.isRegular (b : Block) : Bool :=
  !b.numbers.isEmpty && !b.instrument.features.isEmpty && b.instrument.features.all Feature.isRegular

section
variable {l : Line} {f : Feature} {i : Instrument} {b : Block}

theorem Line.expressions_eq : l.expressions = l.arguments.map argumentExpr := by
  simp [expressions, arguments, argumentExpr, Function.comp_def]

theorem Feature.all_expressions {p : Expr → Bool} :
    (Feature.line l).expressions.all p = true ↔ ∀ arg ∈ l.arguments, p (argumentExpr arg) = true := by
  rw [expressions, Line.expressions_eq, List.all_map, List.all_eq_true]
  rfl

theorem Feature.isNamed_line :
    (Feature.line l).isNamed = true ↔ ∀ arg ∈ l.arguments, (argumentExpr arg).all Expr.isCallable = true ∧
      ∀ name e, arg = .inr (name, e) → isWord name = true := by
  have hnames : l.options.names.all isWord = true ↔
      ∀ arg ∈ l.arguments, ∀ name e, arg = .inr (name, e) → isWord name = true := by
    rw [Options.names, List.all_map, List.all_eq_true]
    constructor
    · intro h arg harg name e hname
      have hentry : (name, e) ∈ l.options.entries := by simpa [Line.arguments, hname] using harg
      exact h (name, e) hentry
    · intro h entry hentry
      exact h (.inr entry) (List.mem_append_right _ (List.mem_map_of_mem hentry)) entry.1 entry.2 rfl
  rw [isNamed, optionNames, Bool.and_eq_true, hnames, all_expressions]
  exact forall₂_and.symm

theorem Feature.isRegular_iff :
    f.isRegular = true ↔ f.isNamed = true ∧ f.isNumbered = true ∧ f.isFinite = true := by
  simp [isRegular, and_assoc]

theorem Instrument.isReadable_iff :
    i.isReadable = true ↔ i.features ≠ [] ∧
      ∀ f ∈ i.features, f.isNumbered = true ∧ f.isFinite = true ∧ f.beginsWithEnd = false := by
  simp [isReadable, and_assoc]

theorem Block.isRegular_iff :
    b.isRegular = true ↔ b.numbers ≠ [] ∧ b.instrument.features ≠ [] ∧
      ∀ f ∈ b.instrument.features, f.isRegular = true := by
  simp [isRegular, and_assoc]

theorem Block.isRegular_feature (h : b.isRegular = true) (hf : f ∈ b.instrument.features) :
    f.isNamed = true ∧ f.isNumbered = true ∧ f.isFinite = true :=
  Feature.isRegular_iff.mp ((isRegular_iff.mp h).2.2 f hf)

end

end GraphicScore
