import Mathlib.Algebra.Ring.Int.Defs
import GraphicScore.Proofs.Grammar.Score

/-!
# Parentheses

Every word of the grammar closes the parentheses it opens. A place of a score with a parenthesis open is a
place of an expression, and what can stand there in the expression can stand there in the score.
-/

namespace GraphicScore

/-! ## nesting -/

def Token.nesting : Token → Int
  | .openParen => 1
  | .closeParen => -1
  | _ => 0

/-- How many parentheses a word opens and does not close. -/
def nesting (w : List Token) : Int := (w.map Token.nesting).sum

def Flat (w : List Token) : Prop := ∀ t ∈ w, t.nesting = 0

structure Balanced (w : List Token) : Prop where
  nesting_nonneg : ∀ {u v}, w = u ++ v → 0 ≤ nesting u
  nesting_eq : nesting w = 0

section
variable {t : Token} {u v w x y : List Token}

@[simp] theorem nesting_nil : nesting [] = 0 := rfl

@[simp] theorem nesting_cons : nesting (t :: w) = t.nesting + nesting w := by
  simp [nesting]

@[simp] theorem nesting_append : nesting (u ++ v) = nesting u + nesting v := by
  simp [nesting]

theorem Flat.nesting_eq (h : Flat w) : nesting w = 0 := by
  induction w with
  | nil => rfl
  | cons t w ih =>
    obtain ⟨ht, hw⟩ := List.forall_mem_cons.mp h
    rw [nesting_cons, ht, ih hw]
    rfl

theorem flat_append : Flat (u ++ v) ↔ Flat u ∧ Flat v := List.forall_mem_append

theorem flat_cons : Flat (t :: w) ↔ t.nesting = 0 ∧ Flat w := List.forall_mem_cons

theorem flat_singleton (h : t.nesting = 0) : Flat [t] := List.forall_mem_singleton.mpr h

theorem Flat.balanced (h : Flat w) : Balanced w where
  nesting_nonneg {u v} huv := by
    rw [huv, flat_append] at h
    exact Int.le_of_eq h.1.nesting_eq.symm
  nesting_eq := h.nesting_eq

theorem Balanced.append (hu : Balanced u) (hv : Balanced v) : Balanced (u ++ v) where
  nesting_nonneg {x y} hxy := by
    rcases List.append_eq_append_iff.mp hxy with ⟨z, rfl, hz⟩ | ⟨z, hz, -⟩
    · rw [nesting_append, hu.nesting_eq, Int.zero_add]
      exact hv.nesting_nonneg hz
    · exact hu.nesting_nonneg hz
  nesting_eq := by rw [nesting_append, hu.nesting_eq, hv.nesting_eq, Int.zero_add]

theorem Balanced.parenthesized (h : Balanced w) : Balanced (.openParen :: (w ++ [.closeParen])) where
  nesting_nonneg {x y} hxy := by
    cases x with
    | nil => exact Int.le_refl 0
    | cons t x =>
      rw [List.cons_append, List.cons.injEq] at hxy
      obtain ⟨rfl, hxy⟩ := hxy
      have hopen : Token.openParen.nesting = 1 := rfl
      rcases List.append_eq_append_iff.mp hxy with ⟨z, rfl, hz⟩ | ⟨z, hz, -⟩
      · -- the parenthesis may be closed already
        have hclose : nesting z = 0 ∨ nesting z = -1 := by
          rcases List.append_eq_singleton_iff.mp hz.symm with ⟨rfl, -⟩ | ⟨rfl, -⟩
          · exact .inl rfl
          · exact .inr rfl
        rw [nesting_cons, nesting_append, h.nesting_eq]
        omega
      · have := h.nesting_nonneg hz
        rw [nesting_cons]
        omega
  nesting_eq := by
    rw [nesting_cons, nesting_append, h.nesting_eq]
    rfl

end

/-! ## words of the grammar -/

section
variable {config : Config} {t : Token} {w : List Token}

theorem Token.nesting_of_isSeparator (h : t.isSeparator = true) : t.nesting = 0 := by
  obtain rfl | rfl := Token.isSeparator_iff.mp h <;> rfl

theorem Newlines.flat (h : Newlines w) : Flat w := by
  intro t ht
  rw [h t ht]
  rfl

theorem Separators.flat (h : Separators w) : Flat w := fun t ht => Token.nesting_of_isSeparator (h t ht)

theorem Comma.flat (h : Comma w) : Flat w := by
  obtain ⟨n, newlines, rfl⟩ := h
  exact flat_cons.mpr ⟨rfl, newlines.flat⟩

theorem NumberWord.flat {number : UInt32} (h : NumberWord w number) : Flat w := by
  obtain ⟨-⟩ := h
  exact flat_singleton rfl

theorem Operator.nesting_token (op : Operator) : op.token.nesting = 0 := by cases op <;> rfl

theorem Closer.nesting_opening (closer : Closer) : closer.opening.nesting = 0 := by cases closer <;> rfl

theorem Closer.nesting_token (closer : Closer) : closer.token.nesting = 0 := by cases closer <;> rfl

theorem Derives.balanced {level : Level} {inside : Bool} {e : Expr} (h : Derives config level inside w e) :
    Balanced w := by
  induction h with
  | tighter _ ih => exact ih
  | group newlines _ newlines' ih =>
    exact ((newlines.flat.balanced.append ih).append newlines'.flat.balanced).parenthesized
  | @call _ name _ _ _ _ _ _ _ _ newlines _ newlines' ih =>
    have hname : Balanced [.identifier name] := (flat_singleton rfl).balanced
    exact hname.append ((newlines.flat.balanced.append ih).append newlines'.flat.balanced).parenthesized
  | chain op _ gap newlines _ ih ih' =>
    have hop : Balanced [op.token] := (flat_singleton op.nesting_token).balanced
    exact (ih.append gap.1.flat.balanced).append (hop.append (newlines.flat.balanced.append ih'))
  | _ => exact Flat.balanced (by simp [Flat, Token.nesting])

theorem ArgumentWord.balanced {arg : Expr ⊕ String × Expr} (h : ArgumentWord config w arg) : Balanced w := by
  cases h with
  | coordinate he => exact he.balanced
  | @option t n w name e ht newlines he =>
    have hname : Flat (t :: .arrow :: n) := by
      refine flat_cons.mpr ⟨?_, flat_cons.mpr ⟨rfl, newlines.flat⟩⟩
      rcases ht with rfl | rfl <;> rfl
    exact hname.balanced.append he.balanced

theorem SepBy.balanced {α : Type} {between : List Token → Prop} {Item : List Token → α → Prop} {as : List α}
    (h : SepBy between Item w as) (hb : ∀ w, between w → Flat w) (hi : ∀ w a, Item w a → Balanced w) :
    Balanced w :=
  h.closed (fun _ _ => .append) (fun w hw => (hb w hw).balanced) hi

theorem Spaced.balanced {α : Type} {Item : List Token → α → Prop} {as : List α} (h : Spaced Item w as)
    (hi : ∀ w a, Item w a → Balanced w) : Balanced w :=
  h.closed (fun _ _ => .append) (fun _ hw => Flat.balanced (Separators.flat hw)) hi

theorem FeatureWord.balanced {f : Feature} (h : FeatureWord config w f) : Balanced w := by
  obtain ⟨hargs, -⟩ := h
  have hline : Balanced [.identifier "line"] := (flat_singleton rfl).balanced
  exact hline.append (hargs.balanced (fun _ => Comma.flat) fun _ _ => ArgumentWord.balanced)

end

/-! ## places with a parenthesis open -/

section
variable {u v w x y : List Token}

/-- A place with a parenthesis open is not in front of a balanced word's end, or is in it. -/
theorem Balanced.split (hu : Balanced u) (h : u ++ v = x ++ y) :
    (∃ z, u = x ++ z ∧ y = z ++ v) ∨ ∃ z, x = u ++ z ∧ v = z ++ y ∧ nesting z = nesting x := by
  rcases List.append_eq_append_iff.mp h with ⟨z, rfl, rfl⟩ | ⟨z, rfl, rfl⟩
  · exact .inr ⟨z, rfl, rfl, by rw [nesting_append, hu.nesting_eq, Int.zero_add]⟩
  · exact .inl ⟨z, rfl, rfl⟩

theorem Flat.split (hu : Flat u) (h : u ++ v = x ++ y) (hx : 0 < nesting x) :
    ∃ z, x = u ++ z ∧ v = z ++ y ∧ nesting z = nesting x := by
  rcases hu.balanced.split h with ⟨z, rfl, rfl⟩ | hz
  · rw [(flat_append.mp hu).1.nesting_eq] at hx
    exact absurd hx (by decide)
  · exact hz

theorem Balanced.split_flat (hu : Balanced u) (hv : Flat v) (h : u ++ v = x ++ y) (hx : 0 < nesting x) :
    ∃ z, u = x ++ z ∧ y = z ++ v := by
  rcases hu.split h with hz | ⟨z, -, rfl, hz⟩
  · exact hz
  · rw [← hz, (flat_append.mp hv).1.nesting_eq] at hx
    exact absurd hx (by decide)

end

/--
The place between two parts of a word is a place of an item, and the word stays what it is when something
is put there that leaves the item what it is.
-/
def Within {α : Type} (Item : List Token → α → Prop) (Word : List Token → Prop) (x y : List Token) : Prop :=
  ∃ u x' y' v a, x = u ++ x' ∧ y = y' ++ v ∧ nesting x' = nesting x ∧ Item (x' ++ y') a ∧
    ∀ z, Item (x' ++ z ++ y') a → Word (x ++ z ++ y)

section
variable {α β : Type} {Item : List Token → α → Prop} {Part : List Token → β → Prop} {Word : List Token → Prop}
  {x y : List Token}

theorem Within.trans (h : Within Item Word x y)
    (hpart : ∀ {x y a}, 0 < nesting x → Item (x ++ y) a → Within Part (Item · a) x y) (hx : 0 < nesting x) :
    Within Part Word x y := by
  obtain ⟨u, x', y', v, a, rfl, rfl, hx', ha, hput⟩ := h
  obtain ⟨u', x'', y'', v', b, rfl, rfl, hx'', hb, hput'⟩ := hpart (hx' ▸ hx) ha
  exact ⟨u ++ u', x'', y'', v' ++ v, b, by simp, by simp, hx''.trans hx', hb, fun z hz => hput z (hput' z hz)⟩

/-- A place of a word between flat ones. -/
theorem within_middle {u w v : List Token} {a : α} (hu : Flat u) (hw : Item w a) (hb : Balanced w) (hv : Flat v)
    (h : u ++ w ++ v = x ++ y) (hx : 0 < nesting x)
    (hput : ∀ w', w'.head? = w.head? → Item w' a → Word (u ++ w' ++ v)) : Within Item Word x y := by
  rw [List.append_assoc] at h
  obtain ⟨z, rfl, hz, hx'⟩ := hu.split h hx
  obtain ⟨z', rfl, rfl⟩ := hb.split_flat hv hz (hx' ▸ hx)
  refine ⟨u, z, z', v, a, rfl, rfl, hx', hw, fun w' hw' => ?_⟩
  have hhead : (z ++ w' ++ z').head? = (z ++ z').head? := by
    cases z with
    | nil => exact absurd (hx' ▸ hx) (by decide)
    | cons t z => rfl
  have := hput (z ++ w' ++ z') hhead hw'
  simpa [List.append_assoc] using this

theorem SepBy.within {between : List Token → Prop} {as : List α} (h : SepBy between Item (x ++ y) as)
    (hx : 0 < nesting x) (hb : ∀ w, between w → Flat w) (hi : ∀ w a, Item w a → Balanced w) :
    Within Item (SepBy between Item · as) x y := by
  generalize hw : x ++ y = w at h
  induction h generalizing x with
  | @one w a ha => exact ⟨[], x, y, [], a, rfl, by simp, rfl, hw ▸ ha, fun z hz => .one hz⟩
  | @more w s v a as ha hs has ih =>
    rw [List.append_assoc] at hw
    rcases (hi _ _ ha).split hw.symm with ⟨z, rfl, rfl⟩ | ⟨z, rfl, hz, hz'⟩
    · refine ⟨[], x, z, s ++ v, a, rfl, rfl, rfl, ha, fun z' hz' => ?_⟩
      have := SepBy.more hz' hs has
      simpa [List.append_assoc] using this
    · obtain ⟨z', rfl, rfl, hz''⟩ := (hb _ hs).split hz (hz' ▸ hx)
      obtain ⟨u, x', y', v', a', rfl, rfl, hx', ha', hput⟩ := ih (by omega) rfl
      refine ⟨w ++ (s ++ u), x', y', v', a', by simp, rfl, by omega, ha', fun z hz => ?_⟩
      have := SepBy.more ha hs (hput z hz)
      simpa [List.append_assoc] using this

theorem Spaced.within {as : List α} (h : Spaced Item (x ++ y) as) (hx : 0 < nesting x)
    (hi : ∀ w a, Item w a → Balanced w) : Within Item (Spaced Item · as) x y := by
  generalize hw : x ++ y = w at h
  cases h with
  | none hs =>
    subst hw
    rw [(flat_append.mp (Separators.flat hs)).1.nesting_eq] at hx
    exact absurd hx (by decide)
  | some hs has hs' =>
    have hbreak : ∀ w, Break w → Flat w := fun _ hw => Separators.flat hw.1
    have hmiddle : Within (SepBy Break Item) (Spaced Item · as) x y :=
      within_middle (Separators.flat hs) has (has.balanced hbreak hi) (Separators.flat hs') hw.symm hx
        fun _ _ h => .some hs h hs'
    exact hmiddle.trans (fun hx h => h.within hx hbreak hi) hx

end

/-! ## places of expressions -/

section
variable {config : Config} {x y : List Token}

theorem ArgumentWord.within {arg : Expr ⊕ String × Expr} (h : ArgumentWord config (x ++ y) arg)
    (hx : 0 < nesting x) : Within (Derives config .sum false) (ArgumentWord config · arg) x y := by
  generalize hw : x ++ y = w at h
  cases h with
  | coordinate he => exact ⟨[], x, y, [], _, rfl, by simp, rfl, hw ▸ he, fun z hz => .coordinate hz⟩
  | @option t n w name e ht newlines he =>
    have hname : Flat (t :: .arrow :: n) := by
      refine flat_cons.mpr ⟨?_, flat_cons.mpr ⟨rfl, newlines.flat⟩⟩
      rcases ht with rfl | rfl <;> rfl
    refine within_middle (v := []) hname he he.balanced (List.forall_mem_nil _) ?_ hx fun w' _ h => ?_
    · simpa using hw.symm
    · simpa using ArgumentWord.option ht newlines h

theorem FeatureWord.within {f : Feature} (h : FeatureWord config (x ++ y) f) (hx : 0 < nesting x) :
    Within (ArgumentWord config) (FeatureWord config · f) x y := by
  generalize hw : x ++ y = w at h
  obtain @⟨w, l, hargs, hend⟩ := h
  have hcomma : ∀ w, Comma w → Flat w := fun _ => Comma.flat
  have hbalanced : ∀ w arg, ArgumentWord config w arg → Balanced w := fun _ _ => ArgumentWord.balanced
  have hmiddle : Within (SepBy Comma (ArgumentWord config)) (FeatureWord config · (.line l)) x y := by
    refine within_middle (u := [.identifier "line"]) (v := []) (flat_singleton rfl) hargs
      (hargs.balanced hcomma hbalanced) (List.forall_mem_nil _) ?_ hx fun w' hw' h => ?_
    · simpa using hw.symm
    · simpa using FeatureWord.line h (hw' ▸ hend)
  exact hmiddle.trans (fun hx h => h.within hx hcomma hbalanced) hx

theorem BlockWord.within {b : Block} (h : BlockWord config (x ++ y) b) (hx : 0 < nesting x) :
    Within (FeatureWord config) (BlockWord config · b) x y := by
  generalize hw : x ++ y = w at h
  obtain @⟨w, v, numbers, features, closer, hnumbers, hfeatures, hne⟩ := h
  have hbalanced : ∀ w f, FeatureWord config w f → Balanced w := fun _ _ => FeatureWord.balanced
  have hhead : Flat (.identifier "instr" :: (w ++ [closer.opening])) := by
    have hnumbers : Flat w := hnumbers.closed (P := Flat) (fun _ _ hu hv => flat_append.mpr ⟨hu, hv⟩)
      (fun _ => Comma.flat) fun _ _ => NumberWord.flat
    exact flat_cons.mpr ⟨rfl, flat_append.mpr ⟨hnumbers, flat_singleton closer.nesting_opening⟩⟩
  have hmiddle : Within (Spaced (FeatureWord config)) (BlockWord config · ⟨numbers, ⟨features⟩⟩) x y := by
    refine within_middle hhead hfeatures (hfeatures.balanced hbalanced)
      (flat_singleton closer.nesting_token) ?_ hx fun w' _ h => ?_
    · simpa using hw.symm
    · simpa using BlockWord.block closer hnumbers h hne
  exact hmiddle.trans (fun hx h => h.within hx hbalanced) hx

theorem BlockWord.balanced {w : List Token} {b : Block} (h : BlockWord config w b) : Balanced w := by
  obtain ⟨closer, hnumbers, hfeatures, -⟩ := h
  have hnumbers := hnumbers.balanced (fun _ => Comma.flat) fun _ _ h => (NumberWord.flat h).balanced
  have hfeatures := hfeatures.balanced fun _ _ => FeatureWord.balanced
  have hinstr : Balanced [.identifier "instr"] := (flat_singleton rfl).balanced
  have hopening : Balanced [closer.opening] := (flat_singleton closer.nesting_opening).balanced
  have hclosing : Balanced [closer.token] := (flat_singleton closer.nesting_token).balanced
  exact hinstr.append (hnumbers.append (hopening.append (hfeatures.append hclosing)))

theorem ScoreWord.balanced {w : List Token} {d : Definitions} (h : ScoreWord config w d) : Balanced w := by
  obtain ⟨hblocks, -⟩ := h
  have hend : Balanced [.endOfInput] := (flat_singleton rfl).balanced
  exact (hblocks.balanced fun _ _ => BlockWord.balanced).append hend

theorem ScoreWord.within {d : Definitions} (h : ScoreWord config (x ++ y) d) (hx : 0 < nesting x) :
    Within (Derives config .sum false) (ScoreWord config · d) x y := by
  generalize hw : x ++ y = w at h
  obtain @⟨w, d, hblocks, hd⟩ := h
  have hbalanced : ∀ w b, BlockWord config w b → Balanced w := fun _ _ => BlockWord.balanced
  have hmiddle : Within (Spaced (BlockWord config)) (ScoreWord config · d) x y := by
    refine within_middle (u := []) (v := [.endOfInput]) (List.forall_mem_nil _) hblocks (hblocks.balanced hbalanced)
      (flat_singleton rfl) ?_ hx fun w' _ h => ?_
    · simpa using hw.symm
    · simpa using ScoreWord.score h hd
  have hblock : Within (BlockWord config) (ScoreWord config · d) x y :=
    hmiddle.trans (fun hx h => h.within hx hbalanced) hx
  have hfeature : Within (FeatureWord config) (ScoreWord config · d) x y :=
    hblock.trans (fun hx h => h.within hx) hx
  have hargument : Within (ArgumentWord config) (ScoreWord config · d) x y :=
    hfeature.trans (fun hx h => h.within hx) hx
  exact hargument.trans (fun hx h => h.within hx) hx

end

/-- Between an opening parenthesis and the one that closes it, either of them included. -/
def Parenthesized (x y : List Token) : Prop :=
  ∃ u v v' z, x = u ++ .openParen :: v ∧ y = v' ++ .closeParen :: z ∧ Balanced (v ++ v')

theorem Parenthesized.nesting_pos {x y w : List Token} (h : Parenthesized x y) (hb : Balanced (x ++ w)) :
    0 < nesting x := by
  obtain ⟨u, v, v', z, rfl, -, hv⟩ := h
  have hfront : 0 ≤ nesting u := hb.nesting_nonneg (List.append_assoc ..)
  have hopen : Token.openParen.nesting = 1 := rfl
  have := hv.nesting_nonneg rfl
  rw [nesting_append, nesting_cons]
  omega

end GraphicScore
