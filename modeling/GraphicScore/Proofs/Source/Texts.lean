import GraphicScore.Proofs.Source.Score

/-!
# Texts of statements

What is true of the parts of a statement's text, and stays true where texts are put together, is true of the
whole text. The parts are names, constants, operators and a few marks.
-/

namespace GraphicScore

/-- What statements have if their parts have it. -/
structure Compositional (P : List Char → Prop) : Prop where
  nil : P []
  append : ∀ {cs ds}, P cs → P ds → P (cs ++ ds)
  word : ∀ {name}, isWord name = true → P name.toList
  constant : ∀ c : Constant, P c.text.toList
  operator : ∀ op : Operator, P (" " ++ op.symbol.toString ++ " ").toList
  mark : ∀ mark ∈ ["(", ")", ":", " => ", ", ", "line "], P mark.toList

section
variable {P : List Char → Prop}

theorem forall_flatMap {α : Type} {xs : List α} {f : α → List Char} (nil : P [])
    (append : ∀ {cs ds}, P cs → P ds → P (cs ++ ds)) (h : ∀ x ∈ xs, P (f x)) : P (xs.flatMap f) := by
  induction xs with
  | nil => exact nil
  | cons x xs ih =>
    rw [List.forall_mem_cons] at h
    exact append h.1 (ih h.2)

theorem forall_intercalate {separator : String} {texts : List String} (nil : P [])
    (append : ∀ {cs ds}, P cs → P ds → P (cs ++ ds)) (hs : P separator.toList)
    (h : ∀ text ∈ texts, P text.toList) : P (separator.intercalate texts).toList := by
  cases texts with
  | nil => exact nil
  | cons text texts =>
    rw [List.forall_mem_cons] at h
    rw [intercalate_cons, String.toList_append, String.toList_join, List.flatMap_map]
    refine append h.1 (forall_flatMap nil append fun text' htext => ?_)
    rw [String.toList_append]
    exact append hs (h.2 text' htext)

end

section
variable {c : Char}

/-- A text ends where the first mark stands behind it, whether or not more marks follow. -/
theorem append_mark_inj {u v r r' : List Char} (hu : c ∉ u) (hv : c ∉ v) (h : u ++ c :: r = v ++ c :: r') :
    u = v ∧ r = r' := by
  have hsplit := congrArg (List.splitOn c) h
  rw [List.splitOn_append_cons_self_of_not_mem hu, List.splitOn_append_cons_self_of_not_mem hv] at hsplit
  obtain rfl := (List.cons.inj hsplit).1
  exact ⟨rfl, (List.cons.inj (List.append_cancel_left h)).2⟩

theorem notMem_digits (hc : c.isDigit = false) (n : Nat) : c ∉ (toString n).toList := by
  intro hmem
  rw [Nat.toString_eq_repr, Nat.toList_repr] at hmem
  rw [Nat.isDigit_of_mem_toDigits (by decide) (by decide) hmem] at hc
  contradiction

theorem notMem_pointed (hdigit : c.isDigit = false) (hpoint : c ≠ '.') (d : Decimal) : c ∉ d.pointed := by
  intro hmem
  rw [Decimal.pointed_eq, List.mem_append, List.mem_cons, or_left_comm, ← List.mem_append] at hmem
  rcases hmem with hmem | hmem
  · contradiction
  · rw [d.allDigits_parts c hmem] at hdigit
    contradiction

theorem notMem_signed {text : String} (negative : Bool) (hc : c ≠ '-') (h : c ∉ text.toList) :
    c ∉ (if negative then "-" ++ text else text).toList := by
  cases negative with
  | false => exact h
  | true => simp [hc, h]

theorem notMem_int (value : Int64) (hdigit : c.isDigit = false) (hminus : c ≠ '-') :
    c ∉ (Constant.int value).text.toList := by
  rw [Constant.text, toString_int]
  exact notMem_signed _ hminus (notMem_digits hdigit _)

theorem notMem_constant (hname : Character.continuesName c = false) (hpoint : c ≠ '.') (hminus : c ≠ '-')
    (value : Constant) : c ∉ value.text.toList := by
  have hdigit : c.isDigit = false := by
    refine Bool.of_not_eq_true fun hdigit => ?_
    rw [Character.continuesName_of_isDigit hdigit] at hname
    contradiction
  cases value with
  | int value => exact notMem_int value hdigit hminus
  | float value =>
    have hspecial (text : String) (h : text.toList.all fun d => Character.continuesName d || d == '.' || d == '-') :
        c ∉ text.toList := by
      intro hmem
      simpa [hname, hpoint, hminus] using List.all_eq_true.mp h c hmem
    cases value with
    | finite negative rank =>
      rw [text_finite]
      refine notMem_signed negative hminus ?_
      rw [String.toList_ofList]
      exact notMem_pointed hdigit hpoint _
    | nan => exact hspecial _ (by decide)
    | infinite negative => cases negative <;> exact hspecial _ (by decide)

end

theorem isWord_pField (number : Nat) : isWord ("p" ++ toString number) = true := by
  refine isWord_iff.mpr ⟨by simp, fun c hc => ?_⟩
  rw [String.toList_append, List.mem_append, Nat.toString_eq_repr, Nat.toList_repr] at hc
  rcases hc with hc | hc
  · rw [List.mem_singleton.mp hc]
    decide
  · exact Character.continuesName_of_isDigit (Nat.isDigit_of_mem_toDigits (by decide) (by decide) hc)

namespace Compositional

variable {P : List Char → Prop} {text : String} {converters : List Converter} {e : Expr}

theorem calls (h : Compositional P) (hc : ∀ c ∈ converters, c.isCallable = true) (ht : P text.toList) :
    P (Expr.calls converters text).toList := by
  induction converters with
  | nil => exact ht
  | cons c converters ih =>
    rw [List.forall_mem_cons, Converter.isCallable_iff, isIdentifier, Bool.and_eq_true] at hc
    have hopen := h.append (h.word hc.1.1.2) (h.mark "(" (by simp))
    have hcall := h.append (h.append hopen (ih hc.2)) (h.mark ")" (by simp))
    rwa [← String.toList_append, ← String.toList_append, ← String.toList_append] at hcall

theorem operand (h : Compositional P) (parens : Bool) (ht : P text.toList) :
    P (if parens then "(" ++ text ++ ")" else text).toList := by
  cases parens with
  | false => exact ht
  | true =>
    have hgroup := h.append (h.append (h.mark "(" (by simp)) ht) (h.mark ")" (by simp))
    rwa [← String.toList_append, ← String.toList_append] at hgroup

theorem expr (h : Compositional P) (hc : e.all Expr.isCallable = true) : P e.text.toList := by
  induction e with
  | constant value => exact h.constant value
  | pField number converters => exact h.calls (List.all_eq_true.mp hc) (h.word (isWord_pField _))
  | binary op left right converters ihl ihr =>
    simp only [Expr.all, Bool.and_eq_true] at hc
    obtain ⟨⟨hc, hleft⟩, hright⟩ := hc
    have hfirst := h.operand (left.needsParens op.precedence false) (ihl hleft)
    have hsecond := h.operand (right.needsParens op.precedence true) (ihr hright)
    have hbody := h.append (h.append hfirst (h.operator op)) hsecond
    simp only [← String.toList_append, ← String.append_assoc] at hbody
    exact h.calls (List.all_eq_true.mp hc) hbody

theorem argument (h : Compositional P) {arg : Expr ⊕ String × Expr}
    (he : (argumentExpr arg).all Expr.isCallable = true)
    (hname : ∀ name e, arg = .inr (name, e) → isWord name = true) : P (argumentText arg).toList := by
  cases arg with
  | inl e => exact h.expr he
  | inr entry =>
    obtain ⟨name, e⟩ := entry
    have hsymbol := h.append (h.mark ":" (by simp)) (h.word (hname name e rfl))
    have hoption := h.append (h.append hsymbol (h.mark " => " (by simp))) (h.expr he)
    rw [← String.toList_append, ← String.toList_append, ← String.toList_append] at hoption
    exact hoption

theorem feature (h : Compositional P) {f : Feature} (hf : f.isNamed = true) : P f.text.toList := by
  obtain ⟨l⟩ := f
  rw [Feature.text, Line.text_eq, String.toList_append]
  refine h.append (h.mark "line " (by simp)) ?_
  refine forall_intercalate h.nil h.append (h.mark ", " (by simp)) fun text htext => ?_
  obtain ⟨arg, harg, rfl⟩ := List.mem_map.mp htext
  obtain ⟨he, hname⟩ := Feature.isNamed_line.mp hf arg harg
  exact h.argument he hname

end Compositional

end GraphicScore
