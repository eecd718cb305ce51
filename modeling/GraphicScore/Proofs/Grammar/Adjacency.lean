import GraphicScore.Proofs.Grammar.Score

/-!
# Adjacent tokens

What stands directly behind a name in a word of the grammar, and what every block has. A list of tokens
that breaks one of these rules is no score.
-/

namespace GraphicScore

/-- Behind every token of one kind stands one of the other. -/
def Followed (p q : Token → Bool) : List Token → Prop
  | [] => True
  | t :: w => (p t = true → ∃ t' ∈ w.head?, q t' = true) ∧ Followed p q w

section
variable {p q : Token → Bool} {t t' : Token} {u v w : List Token}

theorem Followed.append (hu : Followed p q u) (hv : Followed p q v) : Followed p q (u ++ v) := by
  induction u with
  | nil => exact hv
  | cons t u ih =>
    refine ⟨fun ht => ?_, ih hu.2⟩
    obtain ⟨t', ht', hq⟩ := hu.1 ht
    exact ⟨t', by simp [List.head?_append, Option.mem_def.mp ht'], hq⟩

theorem followed_of_forall (h : ∀ t ∈ w, p t = false) : Followed p q w := by
  induction w with
  | nil => trivial
  | cons t w ih =>
    rw [List.forall_mem_cons] at h
    refine ⟨fun ht => ?_, ih h.2⟩
    rw [h.1] at ht
    contradiction

theorem followed_cons (h : p t = false) (hw : Followed p q w) : Followed p q (t :: w) := by
  refine ⟨fun ht => ?_, hw⟩
  rw [h] at ht
  contradiction

theorem not_followed (ht : p t = true) (hq : q t' = false) : ¬ Followed p q (u ++ t :: t' :: v) := by
  intro h
  induction u with
  | nil =>
    obtain ⟨t'', ht'', hq'⟩ := h.1 ht
    cases ht''
    rw [hq] at hq'
    contradiction
  | cons _ u ih => exact ih h.2

end

/-- Names behind which the grammar has tokens of the other kind only. -/
structure Linked (p q : Token → Bool) : Prop where
  name : ∀ t, p t = true → ∃ name, t = .identifier name
  pField : ∀ name digits, pFieldDigits? name = some digits → Nat.ofDigitChars 10 digits 0 ≠ 0 →
    p (.identifier name) = false
  call : ∀ name, pFieldDigits? name = none → p (.identifier name) = true → q .openParen = true
  option : q .arrow = true
  line : p (.identifier "line") = true → ∀ t, t ≠ .identifier "end" → q t = true
  keyword : ∀ name ∈ ["instr", "do", "end"], p (.identifier name) = false

section
variable {config : Config} {p q : Token → Bool} (h : Linked p q) {w : List Token}
include h

theorem Linked.eq_false {t : Token} (ht : ∀ name, t ≠ .identifier name) : p t = false := by
  cases hp : p t with
  | false => rfl
  | true =>
    obtain ⟨name, hname⟩ := h.name t hp
    exact absurd hname (ht name)

theorem Newlines.followed (hw : Newlines w) : Followed p q w :=
  followed_of_forall fun t ht => hw t ht ▸ h.eq_false (by simp)

theorem Separators.followed (hw : Separators w) : Followed p q w := by
  refine followed_of_forall fun t ht => h.eq_false ?_
  intro name hname
  have := hw t ht
  rw [hname] at this
  contradiction

theorem Comma.followed (hw : Comma w) : Followed p q w := by
  obtain ⟨n, hn, rfl⟩ := hw
  exact followed_cons (h.eq_false (by simp)) (hn.followed h)

theorem Derives.followed {level : Level} {inside : Bool} {e : Expr} (hw : Derives config level inside w e) :
    Followed p q w := by
  have hparens {n w n' : List Token} (hn : Newlines n) (hw : Followed p q w) (hn' : Newlines n') :
      Followed p q (n ++ w ++ n' ++ [.closeParen]) := by
    have hclose : Followed p q [.closeParen] := followed_cons (h.eq_false (by simp)) trivial
    exact (((hn.followed h).append hw).append (hn'.followed h)).append hclose
  induction hw with
  | tighter _ ih => exact ih
  | chain op _ gap hn _ ih ih' =>
    have hop : p op.token = false := h.eq_false (by cases op <;> simp [Operator.token])
    exact (ih.append (gap.1.followed h)).append (followed_cons hop ((hn.followed h).append ih'))
  | group hn _ hn' ih => exact followed_cons (h.eq_false (by simp)) (hparens hn ih hn')
  | call hname _ _ hn _ hn' ih =>
    refine ⟨fun hp => ⟨.openParen, rfl, h.call _ hname hp⟩, ?_⟩
    exact followed_cons (h.eq_false (by simp)) (hparens hn ih hn')
  | pField hdigits hvalue hne =>
    refine followed_cons (h.pField _ _ hdigits fun hzero => hne ?_) trivial
    rw [hzero] at hvalue
    exact UInt32.toNat_inj.mp hvalue
  | _ => exact followed_of_forall fun t ht => h.eq_false (by rintro _ rfl; simp at ht)

theorem ArgumentWord.followed {arg : Expr ⊕ String × Expr} (hw : ArgumentWord config w arg) :
    Followed p q w := by
  cases hw with
  | coordinate he => exact he.followed h
  | option _ hn he =>
    refine ⟨fun _ => ⟨.arrow, rfl, h.option⟩, ?_⟩
    exact followed_cons (h.eq_false (by simp)) ((hn.followed h).append (he.followed h))

theorem FeatureWord.followed {f : Feature} (hw : FeatureWord config w f) : Followed p q w := by
  obtain ⟨hargs, hend⟩ := hw
  refine ⟨fun hline => ?_, ?_⟩
  · obtain ⟨v, v', arg, rfl, harg⟩ := hargs.exists_head
    obtain ⟨t, v, rfl, -⟩ := harg.exists_cons
    refine ⟨t, rfl, h.line hline t fun ht => hend ?_⟩
    rw [ht]
    rfl
  · exact hargs.closed (fun _ _ => .append) (fun _ => Comma.followed h) fun _ _ => ArgumentWord.followed h

theorem NumberWord.followed {number : UInt32} (hw : NumberWord w number) : Followed p q w := by
  obtain ⟨-⟩ := hw
  exact followed_cons (h.eq_false (by simp)) trivial

theorem BlockWord.followed {b : Block} (hw : BlockWord config w b) : Followed p q w := by
  obtain ⟨closer, hnumbers, hfeatures, -⟩ := hw
  have hopening : p closer.opening = false := by
    cases closer with
    | keyword => exact h.keyword _ (by decide)
    | brace => exact h.eq_false (by simp [Closer.opening])
  have hclosing : p closer.token = false := by
    cases closer with
    | keyword => exact h.keyword _ (by decide)
    | brace => exact h.eq_false (by simp [Closer.token])
  have hnumbers := hnumbers.closed (fun _ _ => .append) (fun _ => Comma.followed h)
    fun _ _ => NumberWord.followed h
  have hfeatures := hfeatures.closed (fun _ _ => .append) (fun _ => Separators.followed h)
    fun _ _ => FeatureWord.followed h
  refine followed_cons (h.keyword _ (by decide)) (hnumbers.append (followed_cons hopening ?_))
  exact hfeatures.append (followed_cons hclosing trivial)

theorem ScoreWord.followed {d : Definitions} (hw : ScoreWord config w d) : Followed p q w := by
  obtain ⟨hblocks, -⟩ := hw
  have hblocks := hblocks.closed (fun _ _ => .append) (fun _ => Separators.followed h)
    fun _ _ => BlockWord.followed h
  exact hblocks.append (followed_cons (h.eq_false (by simp)) trivial)

end

/-! ## what a score has -/

def Token.isZeroField : Token → Bool
  | .identifier name => (pFieldDigits? name).any fun digits => Nat.ofDigitChars 10 digits 0 == 0
  | _ => false

theorem linked_line : Linked (· == .identifier "line") (· != .identifier "end") where
  name t ht := ⟨"line", beq_iff_eq.mp ht⟩
  pField name digits hname _ := by
    refine beq_eq_false_iff_ne.mpr fun hline => ?_
    rw [Token.identifier.inj hline] at hname
    contradiction
  call _ _ _ := by decide
  option := by decide
  line _ t ht := bne_iff_ne.mpr ht
  keyword := by decide

/-- A p-field that there is not can only be the name of an option. -/
theorem linked_zeroField : Linked Token.isZeroField (· == .arrow) where
  name t ht := by
    cases t with
    | identifier name => exact ⟨name, rfl⟩
    | _ => contradiction
  pField name digits hname hne := by simp [Token.isZeroField, hname, hne]
  call name hname hzero := by simp [Token.isZeroField, hname] at hzero
  option := by decide
  line hline := by contradiction
  keyword := by decide

section
variable {config : Config} {w : List Token}

theorem FeatureWord.mem_comma {f : Feature} (h : FeatureWord config w f) : .comma ∈ w := by
  obtain ⟨hargs, -⟩ := h
  cases hargs with
  | more _ hcomma _ =>
    obtain ⟨n, -, rfl⟩ := hcomma
    simp

theorem BlockWord.mem_comma {b : Block} (h : BlockWord config w b) : .comma ∈ w := by
  obtain ⟨closer, -, hfeatures, hne⟩ := h
  cases hfeatures with
  | none => contradiction
  | some _ hitems _ =>
    obtain ⟨v, v', f, rfl, hf⟩ := hitems.exists_head
    simp [hf.mem_comma]

theorem ScoreWord.separators_of_no_comma {d : Definitions} (h : ScoreWord config (w ++ [.endOfInput]) d)
    (hw : .comma ∉ w) : Separators w := by
  generalize hu : w ++ [.endOfInput] = u at h
  obtain ⟨hblocks, -⟩ := h
  rw [← List.append_cancel_right hu] at hblocks
  generalize d.blocks = bs at hblocks
  cases hblocks with
  | none hs => exact hs
  | some _ hitems _ =>
    obtain ⟨v, v', b, rfl, hb⟩ := hitems.exists_head
    simp [hb.mem_comma] at hw

end

end GraphicScore
