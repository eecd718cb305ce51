import GraphicScore.Proofs.Grammar.Expression
import GraphicScore.Reading.Score

/-!
# The grammar of scores

Which words of tokens are statements, blocks and scores, and what each of them declares. Expressions
stand outside parentheses here.
-/

namespace GraphicScore

/-! ## lists and sequences -/

theorem Token.isSeparator_iff {t : Token} : t.isSeparator = true ↔ t = .newline ∨ t = .semicolon := by
  simp [isSeparator]

def Separators (w : List Token) : Prop := ∀ t ∈ w, t.isSeparator = true

inductive SepBy {α : Type} (between : List Token → Prop) (Item : List Token → α → Prop) :
    List Token → List α → Prop
  | one {w : List Token} {a : α} : Item w a → SepBy between Item w [a]
  | more {w s v : List Token} {a : α} {as : List α} :
    Item w a → between s → SepBy between Item v as → SepBy between Item (w ++ s ++ v) (a :: as)

def Comma (w : List Token) : Prop := ∃ n, Newlines n ∧ w = .comma :: n

def Break (w : List Token) : Prop := Separators w ∧ w ≠ []

/-- Items with breaks between them and separators around them, or separators alone. -/
inductive Spaced {α : Type} (Item : List Token → α → Prop) : List Token → List α → Prop
  | none {s : List Token} : Separators s → Spaced Item s []
  | some {s w s' : List Token} {as : List α} :
    Separators s → SepBy Break Item w as → Separators s' → Spaced Item (s ++ w ++ s') as

/-- A place of two lists put together is in front of the end of the first, or one of the second. -/
theorem split_append {α : Type} {u v x y : List α} (h : u ++ v = x ++ y) :
    (∃ z, z ≠ [] ∧ u = x ++ z ∧ y = z ++ v) ∨ ∃ z, x = u ++ z ∧ v = z ++ y := by
  rcases List.append_eq_append_iff.mp h with ⟨z, rfl, rfl⟩ | ⟨z, rfl, rfl⟩
  · exact .inr ⟨z, rfl, rfl⟩
  · cases z with
    | nil => exact .inr ⟨[], by simp, by simp⟩
    | cons t z => exact .inl ⟨t :: z, List.cons_ne_nil _ _, rfl, rfl⟩

section
variable {α : Type} {between P : List Token → Prop} {Item : List Token → α → Prop} {w : List Token}
  {as : List α}

theorem SepBy.exists_head (h : SepBy between Item w as) : ∃ v v' a, w = v ++ v' ∧ Item v a := by
  cases h with
  | one h => exact ⟨_, [], _, (List.append_nil _).symm, h⟩
  | more h _ _ => exact ⟨_, _, _, List.append_assoc .., h⟩

theorem SepBy.closed (h : SepBy between Item w as) (append : ∀ u v, P u → P v → P (u ++ v))
    (hb : ∀ w, between w → P w) (hi : ∀ w a, Item w a → P w) : P w := by
  induction h with
  | one ha => exact hi _ _ ha
  | more ha hs _ ih => exact append _ _ (append _ _ (hi _ _ ha) (hb _ hs)) ih

theorem Spaced.closed (h : Spaced Item w as) (append : ∀ u v, P u → P v → P (u ++ v))
    (hs : ∀ w, Separators w → P w) (hi : ∀ w a, Item w a → P w) : P w := by
  cases h with
  | none hw => exact hs _ hw
  | some hg hw hg' =>
    exact append _ _ (append _ _ (hs _ hg) (hw.closed append (fun _ hb => hs _ hb.1) hi)) (hs _ hg')

/-! ## going over lists -/

variable {σ β : Type} {R : σ → σ → List Token → List β → Prop} {p q : σ} {findings : α → List β}

/-- What going over a list finds, from one state to another, is what it finds in the items. -/
theorem SepBy.found (h : SepBy between Item w as)
    (append : ∀ {p q s u v bs cs}, R p q u bs → R q s v cs → R p s (u ++ v) (bs ++ cs))
    (item : ∀ w a, Item w a → R p q w (findings a)) (separator : ∀ w, between w → R q p w []) :
    R p q w (as.flatMap findings) := by
  induction h with
  | one ha => simpa using item _ _ ha
  | more ha hs _ ih =>
    have h := append (append (item _ _ ha) (separator _ hs)) ih
    rwa [List.append_nil] at h

theorem Spaced.found (h : Spaced Item w as)
    (append : ∀ {p q s u v bs cs}, R p q u bs → R q s v cs → R p s (u ++ v) (bs ++ cs))
    (item : ∀ w a, Item w a → R p p w (findings a)) (separator : ∀ w, Separators w → R p p w []) :
    R p p w (as.flatMap findings) := by
  cases h with
  | none hs => exact separator _ hs
  | some hs hw hs' =>
    have hitems := hw.found append item fun w hb => separator w hb.1
    have h := append (append (separator _ hs) hitems) (separator _ hs')
    rwa [List.nil_append, List.append_nil] at h

end

/-! ## statements -/

section
variable (config : Config)

inductive ArgumentWord : List Token → Expr ⊕ String × Expr → Prop
  | coordinate {w : List Token} {e : Expr} : Derives config .sum false w e → ArgumentWord w (.inl e)
  | option {t : Token} {n w : List Token} {name : String} {e : Expr} :
    t = .symbol name ∨ t = .identifier name → Newlines n → Derives config .sum false w e →
    ArgumentWord (t :: .arrow :: (n ++ w)) (.inr (name, e))

/-- The coordinates come first. Options carry the proof that their names are different. -/
inductive FeatureWord : List Token → Feature → Prop
  | line {w : List Token} {l : Line} :
    SepBy Comma (ArgumentWord config) w
      ([l.xstart, l.xend, l.ystart, l.yend].map .inl ++ l.options.entries.map .inr) →
    w.head? ≠ some (.identifier "end") → FeatureWord (.identifier "line" :: w) (.line l)

end

theorem ArgumentWord.exists_cons {config : Config} {w : List Token} {arg : Expr ⊕ String × Expr}
    (h : ArgumentWord config w arg) :
    ∃ t v, w = t :: v ∧ (t.startsExpression = true ∨ ∃ name, t = .symbol name) := by
  cases h with
  | coordinate he =>
    obtain ⟨t, v, rfl, ht⟩ := he.exists_cons
    exact ⟨t, v, rfl, .inl ht⟩
  | @option t _ _ name _ ht =>
    refine ⟨t, _, rfl, ?_⟩
    rcases ht with rfl | rfl
    · exact .inr ⟨name, rfl⟩
    · exact .inl rfl

/-! ## blocks and scores -/

inductive NumberWord : List Token → UInt32 → Prop
  | integer {digits : String} {number : UInt32} :
    number.toNat = Nat.ofDigitChars 10 digits.toList 0 → NumberWord [.integer digits] number

def Closer.opening : Closer → Token
  | .keyword => .identifier "do"
  | .brace => .openBrace

section
variable (config : Config)

inductive BlockWord : List Token → Block → Prop
  | block {w v : List Token} {numbers : List UInt32} {features : List Feature} (closer : Closer) :
    SepBy Comma NumberWord w numbers → Spaced (FeatureWord config) v features → features ≠ [] →
    BlockWord (.identifier "instr" :: (w ++ closer.opening :: (v ++ [closer.token]))) ⟨numbers, ⟨features⟩⟩

/-- No two instruments of a score have the same number. -/
inductive ScoreWord : List Token → Definitions → Prop
  | score {w : List Token} {d : Definitions} :
    Spaced (BlockWord config) w d.blocks → d.numbers.Nodup → ScoreWord (w ++ [.endOfInput]) d

end

end GraphicScore
