import Mathlib.Data.List.Nodup
import Mathlib.Data.List.Perm.Subperm
import GraphicScore.Proofs.Reading.Statement
import GraphicScore.Proofs.Source.Equality
import GraphicScore.Proofs.Source.Regular

/-!
# Normal forms

A normal form has no zero with a sign, and the options of a statement in the order of their names. What has
finite constants only is equal to what has the same normal form, and to nothing else.
-/

namespace GraphicScore

/-- The sign of a zero is dropped. -/
def Constant.normal : Constant → Constant
  | .float (.finite negative rank) => .float (.finite (negative && rank.val != 0) rank)
  | c => c

def Expr.normal : Expr → Expr
  | .constant value => .constant value.normal
  | .pField number converters => .pField number converters
  | .binary operator left right converters => .binary operator left.normal right.normal converters

namespace Options

def normalEntries (o : Options) : List (String × Expr) := o.entries.map fun entry => (entry.1, entry.2.normal)

def inOrder (a b : String × Expr) : Bool := decide (a.1 ≤ b.1)

theorem names_normalEntries (o : Options) : o.normalEntries.map Prod.fst = o.entries.map Prod.fst := by
  rw [normalEntries, List.map_map]
  rfl

def normal (o : Options) : Options where
  entries := o.normalEntries.mergeSort inOrder
  distinct := by
    have hperm := (List.mergeSort_perm o.normalEntries inOrder).map Prod.fst
    rw [hperm.nodup_iff, names_normalEntries]
    exact o.distinct

end Options

def Line.normal (l : Line) : Line :=
  ⟨l.xstart.normal, l.xend.normal, l.ystart.normal, l.yend.normal, l.options.normal⟩

def Feature.normal : Feature → Feature
  | .line l => .line l.normal

def Instrument.normal (i : Instrument) : Instrument := ⟨i.features.map Feature.normal⟩

/-! ## expressions -/

section
variable {a b : Expr}

theorem beq_float_iff {x y : Binary64} (hx : x.isFinite = true) (hy : y.isFinite = true) :
    (x == y) = true ↔ (Constant.float x).normal = (Constant.float y).normal := by
  cases x with
  | finite negative rank =>
    cases y with
    | finite negative' rank' =>
      show (rank == rank' && (negative == negative' || rank.val == 0)) = true ↔
        Constant.float (.finite (negative && rank.val != 0) rank) =
          .float (.finite (negative' && rank'.val != 0) rank')
      rw [Bool.and_eq_true, beq_iff_eq, Constant.float.injEq, Binary64.finite.injEq, and_comm]
      refine and_congr_left fun hrank => ?_
      rw [hrank]
      cases negative <;> cases negative' <;> simp
    | _ => contradiction
  | _ => contradiction

theorem int_normal_ne_float_normal (value : Int64) (x : Binary64) :
    (Constant.int value).normal ≠ (Constant.float x).normal := by
  intro h
  cases x <;> contradiction

theorem beq_constant_iff {c d : Constant} (hc : c.isFinite = true) (hd : d.isFinite = true) :
    (c == d) = true ↔ c.normal = d.normal := by
  cases c with
  | int value =>
    cases d with
    | int value' =>
      show (value == value') = true ↔ Constant.int value = .int value'
      rw [beq_iff_eq, Constant.int.injEq]
    | float x => exact iff_of_false (fun h : false = true => by contradiction) (int_normal_ne_float_normal value x)
  | float x =>
    cases d with
    | int value =>
      exact iff_of_false (fun h : false = true => by contradiction) (int_normal_ne_float_normal value x).symm
    | float y => exact beq_float_iff hc hd

theorem beq_expr_iff (ha : a.all Expr.isFinite = true) (hb : b.all Expr.isFinite = true) :
    (a == b) = true ↔ a.normal = b.normal := by
  induction a generalizing b with
  | constant value =>
    cases b with
    | constant value' =>
      rw [Expr.normal, Expr.normal, Expr.constant.injEq]
      exact beq_constant_iff ha hb
    | _ => exact iff_of_false (fun h : false = true => by contradiction) fun h => by contradiction
  | pField number converters =>
    cases b with
    | pField number' converters' =>
      rw [beq_pField, Expr.normal, Expr.normal, Expr.pField.injEq]
    | _ => exact iff_of_false (fun h : false = true => by contradiction) fun h => by contradiction
  | binary op left right converters ihl ihr =>
    cases b with
    | binary op' left' right' converters' =>
      simp only [Expr.all, Bool.and_eq_true] at ha hb
      rw [beq_binary, ihl ha.1.2 hb.1.2, ihr ha.2 hb.2, Expr.normal, Expr.normal, Expr.binary.injEq]
    | _ => exact iff_of_false (fun h : false = true => by contradiction) fun h => by contradiction

end

/-! ## options -/

namespace Options

variable {a b : Options}

theorem nodup_normalEntries (o : Options) : o.normalEntries.Nodup := by
  refine List.Nodup.of_map Prod.fst ?_
  rw [names_normalEntries]
  exact o.distinct

theorem mem_normalEntries {o : Options} {entry : String × Expr} :
    entry ∈ o.normalEntries ↔ ∃ e, (entry.1, e) ∈ o.entries ∧ e.normal = entry.2 := by
  obtain ⟨name, e⟩ := entry
  simp [normalEntries, Prod.ext_iff, and_left_comm]

theorem subset_normalEntries (ha : ∀ entry ∈ a.entries, entry.2.all Expr.isFinite = true)
    (hb : ∀ entry ∈ b.entries, entry.2.all Expr.isFinite = true) :
    (a.entries.all fun entry => b.get? entry.1 == some entry.2) = true ↔ a.normalEntries ⊆ b.normalEntries := by
  rw [List.all_eq_true]
  constructor
  · intro h entry hentry
    obtain ⟨e, he, hnormal⟩ := mem_normalEntries.mp hentry
    have hfound : (b.get? entry.1 == some e) = true := h _ he
    cases hget : b.get? entry.1 with
    | none => simp [hget] at hfound
    | some e' =>
      obtain ⟨front, back, hentries, -⟩ := List.lookup_eq_some_iff.mp hget
      have hmem : (entry.1, e') ∈ b.entries := by simp [hentries]
      rw [hget, Option.some_beq_some, beq_expr_iff (hb _ hmem) (ha _ he)] at hfound
      exact mem_normalEntries.mpr ⟨e', hmem, hfound.trans hnormal⟩
  · intro h entry hentry
    have hentry' : (entry.1, entry.2.normal) ∈ a.normalEntries := List.mem_map_of_mem hentry
    obtain ⟨e', hmem, hnormal⟩ := mem_normalEntries.mp (h hentry')
    have hget : b.get? entry.1 = some e' := lookup_eq_some_of_mem b.distinct hmem
    rw [hget, Option.some_beq_some]
    exact (beq_expr_iff (hb _ hmem) (ha _ hentry)).mpr hnormal

theorem normal_eq_iff : a.normal = b.normal ↔ a.normalEntries.Perm b.normalEntries := by
  constructor
  · intro h
    have hentries : a.normalEntries.mergeSort inOrder = b.normalEntries.mergeSort inOrder :=
      congrArg Options.entries h
    have ha := List.mergeSort_perm a.normalEntries inOrder
    rw [hentries] at ha
    exact ha.symm.trans (List.mergeSort_perm ..)
  · intro h
    have hsorted (o : Options) : (o.normalEntries.mergeSort inOrder).Pairwise fun x y => inOrder x y = true := by
      refine List.pairwise_mergeSort (fun x y z hxy hyz => ?_) (fun x y => ?_) _
      · rw [inOrder, decide_eq_true_iff] at hxy hyz ⊢
        exact String.le_trans hxy hyz
      · simpa [inOrder] using String.le_total x.1 y.1
    have ha := List.mergeSort_perm a.normalEntries inOrder
    have hb := List.mergeSort_perm b.normalEntries inOrder
    have hperm := (ha.trans h).trans hb.symm
    refine ext (hperm.eq_of_pairwise (fun x y hx hy hxy hyx => ?_) (hsorted a) (hsorted b))
    -- no two entries have one name, so those that neither precede the other are one
    rw [inOrder, decide_eq_true_iff] at hxy hyx
    exact List.inj_on_of_nodup_map b.normal.distinct (hperm.subset hx) hy (String.le_antisymm hxy hyx)

end Options

theorem beq_options_iff {a b : Options} (ha : ∀ entry ∈ a.entries, entry.2.all Expr.isFinite = true)
    (hb : ∀ entry ∈ b.entries, entry.2.all Expr.isFinite = true) : (a == b) = true ↔ a.normal = b.normal := by
  show (a.entries.length == b.entries.length && a.entries.all fun entry => b.get? entry.1 == some entry.2) = true ↔ _
  rw [Bool.and_eq_true, beq_iff_eq, Options.subset_normalEntries ha hb, Options.normal_eq_iff]
  have hlength (o : Options) : o.normalEntries.length = o.entries.length := List.length_map ..
  rw [← hlength a, ← hlength b]
  constructor
  · intro h
    exact (List.subperm_of_subset a.nodup_normalEntries h.2).perm_of_length_le h.1.ge
  · intro h
    exact ⟨h.length_eq, h.subset⟩

/-! ## instruments -/

theorem beq_feature_iff {f g : Feature} (hf : f.isFinite = true) (hg : g.isFinite = true) :
    (f == g) = true ↔ f.normal = g.normal := by
  obtain ⟨l⟩ := f
  obtain ⟨m⟩ := g
  obtain ⟨⟨hxstart, hxend, hystart, hyend⟩, hoptions⟩ := Feature.isFinite_line.mp hf
  obtain ⟨⟨hxstart', hxend', hystart', hyend'⟩, hoptions'⟩ := Feature.isFinite_line.mp hg
  show (l.xstart == m.xstart && (l.xend == m.xend && (l.ystart == m.ystart && (l.yend == m.yend &&
    l.options == m.options)))) = true ↔ Feature.line l.normal = Feature.line m.normal
  rw [Bool.and_eq_true, Bool.and_eq_true, Bool.and_eq_true, Bool.and_eq_true, beq_expr_iff hxstart hxstart',
    beq_expr_iff hxend hxend', beq_expr_iff hystart hystart', beq_expr_iff hyend hyend',
    beq_options_iff hoptions hoptions', Feature.line.injEq, Line.normal, Line.normal, Line.mk.injEq]

theorem beq_list_iff {α β : Type} [BEq α] {f : α → β} {as bs : List α}
    (h : ∀ a ∈ as, ∀ b ∈ bs, (a == b) = true ↔ f a = f b) : (as == bs) = true ↔ as.map f = bs.map f := by
  induction as generalizing bs with
  | nil => cases bs <;> simp
  | cons a as ih =>
    cases bs with
    | nil => simp
    | cons b bs =>
      have hrest := ih fun a ha b hb => h a (List.mem_cons_of_mem _ ha) b (List.mem_cons_of_mem _ hb)
      rw [List.cons_beq_cons, Bool.and_eq_true, h a (List.mem_cons_self ..) b (List.mem_cons_self ..), hrest,
        List.map_cons, List.map_cons, List.cons.injEq]

theorem beq_instrument_iff {i j : Instrument} (hi : ∀ f ∈ i.features, f.isFinite = true)
    (hj : ∀ f ∈ j.features, f.isFinite = true) : (i == j) = true ↔ i.normal = j.normal := by
  show (i.features == j.features) = true ↔ Instrument.mk _ = Instrument.mk _
  rw [Instrument.mk.injEq]
  exact beq_list_iff fun f hf g hg => beq_feature_iff (hi f hf) (hj g hg)

/-! ## regular normal forms -/

theorem isFinite_normal_constant {c : Constant} (h : c.isFinite = true) : c.normal.isFinite = true := by
  cases c with
  | int value => rfl
  | float value => cases value <;> first | rfl | contradiction

theorem isRegular_normal_expr {e : Expr} (h : e.all Expr.isRegular = true) : e.normal.all Expr.isRegular = true := by
  induction e with
  | constant value => exact isFinite_normal_constant h
  | pField number converters => exact h
  | binary op left right converters ihl ihr =>
    simp only [Expr.all, Bool.and_eq_true, Expr.isRegular_binary, Expr.normal] at h ⊢
    exact ⟨⟨h.1.1, ihl h.1.2⟩, ihr h.2⟩

theorem Line.perm_arguments_normal (l : Line) :
    l.normal.arguments.Perm (l.arguments.map (Sum.map Expr.normal (Prod.map id Expr.normal))) := by
  have hentries : l.options.normal.entries.Perm (l.options.entries.map (Prod.map id Expr.normal)) :=
    List.mergeSort_perm l.options.normalEntries Options.inOrder
  have := hentries.map (Sum.inr (α := Expr))
  simpa [arguments, normal, Function.comp_def] using this

theorem isRegular_normal_feature {f : Feature} (h : f.isRegular = true) : f.normal.isRegular = true := by
  obtain ⟨l⟩ := f
  have hl := Feature.isRegular_line.mp h
  refine Feature.isRegular_line.mpr fun arg harg => ?_
  obtain ⟨arg', harg', rfl⟩ := List.mem_map.mp (l.perm_arguments_normal.subset harg)
  obtain ⟨he, hname⟩ := hl arg' harg'
  cases arg' with
  | inl e => exact ⟨isRegular_normal_expr he, fun name e' h => by contradiction⟩
  | inr entry =>
    refine ⟨isRegular_normal_expr he, fun name e' h => ?_⟩
    cases h
    exact hname entry.1 entry.2 rfl

theorem isRegular_normal_instrument {i : Instrument} (h : ∀ f ∈ i.features, f.isRegular = true) :
    ∀ f ∈ i.normal.features, f.isRegular = true :=
  List.forall_mem_map.mpr fun f hf => isRegular_normal_feature (h f hf)

end GraphicScore
