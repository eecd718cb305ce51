import GraphicScore.Proofs.Definitions
import GraphicScore.Proofs.Source.Parts

/-!
# Equality

A score is equal to itself if its constants are finite; nothing with a constant that is not a number in
it is.
-/

namespace GraphicScore

theorem beq_self_constant {c : Constant} (h : c.isFinite = true) : (c == c) = true := by
  cases c with
  | int value => exact beq_self_eq_true value
  | float value =>
    cases value with
    | finite negative rank =>
      show (rank == rank && (negative == negative || rank.val == 0)) = true
      simp
    | _ => contradiction

theorem beq_pField {number number' : UInt32} {converters converters' : List Converter} :
    (Expr.pField number converters == Expr.pField number' converters') = true ↔
      number = number' ∧ converters = converters' := by
  show (number == number' && converters == converters') = true ↔ _
  rw [Bool.and_eq_true, beq_iff_eq, beq_iff_eq]

theorem beq_binary {op op' : Operator} {left right left' right' : Expr} {converters converters' : List Converter} :
    (Expr.binary op left right converters == Expr.binary op' left' right' converters') = true ↔
      op = op' ∧ (left == left') = true ∧ (right == right') = true ∧ converters = converters' := by
  show (op == op' && (left == left' && (right == right' && converters == converters'))) = true ↔ _
  simp only [Bool.and_eq_true, beq_iff_eq]

theorem beq_self_expr {e : Expr} (h : e.all Expr.isFinite = true) : (e == e) = true := by
  induction e with
  | constant value => exact beq_self_constant h
  | pField number converters => exact beq_pField.mpr ⟨rfl, rfl⟩
  | binary op left right converters ihl ihr =>
    simp only [Expr.all, Bool.and_eq_true] at h
    exact beq_binary.mpr ⟨rfl, ihl h.1.2, ihr h.2, rfl⟩

theorem beq_self_options {o : Options} (h : ∀ entry ∈ o.entries, entry.2.all Expr.isFinite = true) :
    (o == o) = true := by
  show (o.entries.length == o.entries.length &&
    o.entries.all fun entry => o.get? entry.1 == some entry.2) = true
  rw [beq_self_eq_true, Bool.true_and, List.all_eq_true]
  intro entry hentry
  have hget : o.get? entry.1 = some entry.2 := lookup_eq_some_of_mem o.distinct hentry
  rw [hget]
  exact beq_self_expr (h entry hentry)

theorem Feature.isFinite_line {l : Line} :
    (Feature.line l).isFinite = true ↔
      (l.xstart.all Expr.isFinite = true ∧ l.xend.all Expr.isFinite = true ∧ l.ystart.all Expr.isFinite = true ∧
        l.yend.all Expr.isFinite = true) ∧ ∀ entry ∈ l.options.entries, entry.2.all Expr.isFinite = true := by
  simp only [Feature.isFinite, Feature.expressions, Line.expressions, List.all_append, List.all_map,
    Bool.and_eq_true, List.all_cons, List.all_nil, Bool.and_true, List.all_eq_true, Function.comp_apply]

theorem beq_self_feature {f : Feature} (h : f.isFinite = true) : (f == f) = true := by
  obtain ⟨l⟩ := f
  obtain ⟨⟨hxstart, hxend, hystart, hyend⟩, hoptions⟩ := Feature.isFinite_line.mp h
  show (l.xstart == l.xstart && (l.xend == l.xend && (l.ystart == l.ystart && (l.yend == l.yend &&
    l.options == l.options)))) = true
  rw [beq_self_expr hxstart, beq_self_expr hxend, beq_self_expr hystart, beq_self_expr hyend,
    beq_self_options hoptions]
  rfl

theorem beq_self_list {α : Type} [BEq α] {as : List α} (h : ∀ a ∈ as, (a == a) = true) : (as == as) = true := by
  induction as with
  | nil => rfl
  | cons a as ih =>
    rw [List.forall_mem_cons] at h
    show (a == a && as == as) = true
    rw [h.1, ih h.2]
    rfl

theorem beq_self_instrument {i : Instrument} (h : ∀ f ∈ i.features, f.isFinite = true) : (i == i) = true :=
  beq_self_list fun f hf => beq_self_feature (h f hf)

theorem beq_self_definitions {d : Definitions}
    (h : ∀ b ∈ d.blocks, ∀ f ∈ b.instrument.features, f.isFinite = true) : (d == d) = true := by
  refine beq_self_list fun entry hentry => ?_
  obtain ⟨b, hb, hentry⟩ := List.mem_flatMap.mp hentry
  obtain ⟨number, -, rfl⟩ := List.mem_map.mp hentry
  show (instrumentKey number == instrumentKey number && b.instrument == b.instrument) = true
  rw [beq_self_eq_true, beq_self_instrument (h b hb)]
  rfl

end GraphicScore
