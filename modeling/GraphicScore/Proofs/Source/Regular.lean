import GraphicScore.Proofs.Grammar.Score
import GraphicScore.Proofs.Source.Parts

/-!
# Regular scores

All that a score can be read as is regular: its names are those of tokens, and the grammar leaves out
p-fields that there are not and constants that are not finite.
-/

namespace GraphicScore

/-! ## expressions -/

namespace Expr

def isRegular (e : Expr) : Bool := e.isCallable && e.isNumbered && e.isFinite

section
variable {number : UInt32} {op : Operator} {e left right : Expr}
  {converters : List Converter}

theorem isRegular_pField :
    (pField number converters).isRegular = (converters.all Converter.isCallable && number != 0) := by
  simp [isRegular, isCallable, Expr.converters, isNumbered, isFinite]

theorem isRegular_binary :
    (binary op left right converters).isRegular = converters.all Converter.isCallable := by
  simp [isRegular, isCallable, Expr.converters, isNumbered, isFinite]

theorem all_and {p q : Expr → Bool} : e.all (fun e => p e && q e) = (e.all p && e.all q) := by
  induction e with
  | constant value => rfl
  | pField number converters => rfl
  | binary op left right converters ihl ihr =>
    simp only [all, ihl, ihr]
    ac_rfl

theorem all_isRegular :
    e.all isRegular = true ↔ e.all isCallable = true ∧ e.all isNumbered = true ∧ e.all isFinite = true := by
  have : e.all isRegular = (e.all isCallable && e.all isNumbered && e.all isFinite) := by
    rw [← all_and, ← all_and]
    rfl
  rw [this, Bool.and_eq_true, Bool.and_eq_true, and_assoc]

end

end Expr

section
variable {config : Config} {level : Level} {inside : Bool} {w : List Token} {e e' : Expr}

theorem isRegular_of_convert? {c : Converter} (h : e.convert? c = some e') (hc : c.isCallable = true)
    (he : e.all Expr.isRegular = true) : e'.all Expr.isRegular = true := by
  obtain ⟨_, _, rfl, rfl⟩ | ⟨_, _, _, _, rfl, rfl⟩ := Expr.convert?_eq_some.mp h
  · simpa [Expr.all, Expr.isRegular_pField, hc] using he
  · simpa [Expr.all, Expr.isRegular_binary, hc] using he

theorem Derives.isRegular (h : Derives config level inside w e) (hw : ∀ t ∈ w, t.isNamed = true) :
    e.all Expr.isRegular = true := by
  induction h with
  | integer _ => rfl
  | float _ hf => exact hf
  | negInteger _ => rfl
  | @negFloat _ _ value _ hf => cases value <;> first | rfl | contradiction
  | pField _ _ hne => simpa [Expr.all, Expr.isRegular_pField] using hne
  | group _ _ _ ih =>
    simp only [List.forall_mem_cons, List.forall_mem_append] at hw
    exact ih hw.2.1.1.2
  | @call _ name _ _ _ _ _ hname _ hconvert _ _ _ ih =>
    simp only [List.forall_mem_cons, List.forall_mem_append] at hw
    have hc : (Converter.mk name).isCallable = true := Converter.isCallable_iff.mpr ⟨hw.1, hname⟩
    exact isRegular_of_convert? hconvert hc (ih hw.2.2.1.1.2)
  | tighter _ ih => exact ih hw
  | chain op _ _ _ _ ihl ihr =>
    simp only [List.forall_mem_cons, List.forall_mem_append] at hw
    have hleft := ihl hw.1.1
    have hright := ihr hw.2.2.2
    simp [Expr.all, Expr.isRegular_binary, hleft, hright]

end

/-! ## scores -/

theorem Feature.isRegular_line {l : Line} :
    (Feature.line l).isRegular = true ↔ ∀ arg ∈ l.arguments, (argumentExpr arg).all Expr.isRegular = true ∧
      ∀ name e, arg = .inr (name, e) → isWord name = true := by
  rw [isRegular_iff, isNamed_line, isNumbered, isFinite, all_expressions, all_expressions, ← forall₂_and,
    ← forall₂_and]
  refine forall₂_congr fun arg _ => ?_
  rw [Expr.all_isRegular]
  exact and_right_comm

section
variable {α : Type} {between : List Token → Prop} {Item : List Token → α → Prop} {P : Token → Prop}
  {R : α → Prop} {w : List Token} {as : List α}

/-- What holds of every item of a list whose words are as asked. -/
theorem SepBy.forall_items (h : SepBy between Item w as) (hw : ∀ t ∈ w, P t)
    (hi : ∀ w a, Item w a → (∀ t ∈ w, P t) → R a) : ∀ a ∈ as, R a := by
  induction h with
  | one ha => exact List.forall_mem_singleton.mpr (hi _ _ ha hw)
  | more ha _ _ ih =>
    simp only [List.forall_mem_append] at hw
    exact List.forall_mem_cons.mpr ⟨hi _ _ ha hw.1.1, ih hw.2⟩

theorem Spaced.forall_items (h : Spaced Item w as) (hw : ∀ t ∈ w, P t)
    (hi : ∀ w a, Item w a → (∀ t ∈ w, P t) → R a) : ∀ a ∈ as, R a := by
  cases h with
  | none _ => exact List.forall_mem_nil _
  | some _ hitems _ =>
    simp only [List.forall_mem_append] at hw
    exact hitems.forall_items hw.1.2 hi

end

section
variable {config : Config} {w : List Token}

theorem ArgumentWord.isRegular {arg : Expr ⊕ String × Expr} (h : ArgumentWord config w arg)
    (hw : ∀ t ∈ w, t.isNamed = true) :
    (argumentExpr arg).all Expr.isRegular = true ∧ ∀ name e, arg = .inr (name, e) → isWord name = true := by
  cases h with
  | coordinate he =>
    refine ⟨he.isRegular hw, fun name e hname => ?_⟩
    contradiction
  | @option _ _ _ name _ ht _ he =>
    simp only [List.forall_mem_cons, List.forall_mem_append] at hw
    refine ⟨he.isRegular hw.2.2.2, fun _ _ hname => ?_⟩
    cases hname
    rcases ht with rfl | rfl
    · exact hw.1
    · have hidentifier : isIdentifier name = true := hw.1
      exact (Bool.and_eq_true_iff.mp hidentifier).2

theorem FeatureWord.isRegular {f : Feature} (h : FeatureWord config w f) (hw : ∀ t ∈ w, t.isNamed = true) :
    f.isRegular = true := by
  obtain ⟨hargs, -⟩ := h
  exact Feature.isRegular_line.mpr
    (hargs.forall_items (List.forall_mem_cons.mp hw).2 fun _ _ => ArgumentWord.isRegular)

theorem BlockWord.isRegular {b : Block} (h : BlockWord config w b) (hw : ∀ t ∈ w, t.isNamed = true) :
    b.isRegular = true := by
  obtain ⟨closer, hnumbers, hfeatures, hne⟩ := h
  simp only [List.forall_mem_cons, List.forall_mem_append] at hw
  refine Block.isRegular_iff.mpr ⟨?_, hne, ?_⟩
  · cases hnumbers <;> exact List.cons_ne_nil _ _
  · exact hfeatures.forall_items hw.2.2.2.1 fun _ _ => FeatureWord.isRegular

theorem ScoreWord.isRegular {d : Definitions} (h : ScoreWord config w d) (hw : ∀ t ∈ w, t.isNamed = true) :
    ∀ b ∈ d.blocks, b.isRegular = true := by
  obtain ⟨hblocks, -⟩ := h
  exact hblocks.forall_items (List.forall_mem_append.mp hw).1 fun _ _ => BlockWord.isRegular

end

end GraphicScore
