import GraphicScore.Proofs.Grammar.Calls

/-!
# Integers of scores

The integers that are written in a score are found by going over its tokens once. A minus belongs to the digits
behind it where an operand is due. They are the instruments' numbers and the integer constants that the score
declares, in the same order.
-/

namespace GraphicScore

/-! ## integers among tokens -/

/-- What tokens lead up to: an operator or a mark, an operand, or the digits behind a minus. -/
inductive Ahead where
  | mark
  | operand
  | negative
deriving DecidableEq

namespace Ahead

def behind (t : Token) : Ahead := if t.asksOperand then .operand else .mark

def after : Ahead → Token → Ahead
  | .operand, .newline => .operand
  | .operand, .minus => .negative
  | _, t => .behind t

def written : Ahead → Token → List Int
  | .negative, .integer digits => [-(Nat.ofDigitChars 10 digits.toList 0 : Int)]
  | _, .integer digits => [(Nat.ofDigitChars 10 digits.toList 0 : Int)]
  | _, _ => []

def integersFrom : Ahead → List Token → List Int
  | _, [] => []
  | p, t :: w => p.written t ++ (p.after t).integersFrom w

variable {p : Ahead} {t : Token} {u v w : List Token}

theorem integersFrom_append : p.integersFrom (u ++ v) = p.integersFrom u ++ (u.foldl after p).integersFrom v := by
  induction u generalizing p with
  | nil => rfl
  | cons t u ih => simp [integersFrom, ih]

theorem after_of_asksOperand (h : t.asksOperand = true) (ht : t ≠ .minus) : p.after t = .operand := by
  have hbehind : behind t = .operand := if_pos h
  fun_cases p.after t with
  | case1 => rfl
  | case2 => contradiction
  | case3 => exact hbehind

end Ahead

/-- The integers in their order in the source. -/
def integers (ts : List (Located Token)) : List Int := Ahead.integersFrom .mark (ts.map Located.value)

/-! ## integers of what is declared -/

def Expr.integers : Expr → List Int
  | .constant (.int value) => [value.toInt]
  | .constant (.float _) => []
  | .pField _ _ => []
  | .binary _ left right _ => left.integers ++ right.integers

def Feature.integers (f : Feature) : List Int := f.expressions.flatMap Expr.integers

def Block.integers (b : Block) : List Int :=
  b.numbers.map (fun number => (number.toNat : Int)) ++ b.instrument.features.flatMap Feature.integers

def Definitions.integers (d : Definitions) : List Int := d.blocks.flatMap Block.integers

theorem Expr.integers_of_convert? {e e' : Expr} {c : Converter} (h : e.convert? c = some e') :
    e'.integers = e.integers := by
  obtain ⟨_, _, rfl, rfl⟩ | ⟨_, _, _, _, rfl, rfl⟩ := Expr.convert?_eq_some.mp h <;> rfl

/-! ## integers among words of the grammar -/

/-- The word leads from one place to another, and these integers are written in it. -/
structure Integers (p q : Ahead) (w : List Token) (ns : List Int) : Prop where
  along : w.foldl Ahead.after p = q
  written : p.integersFrom w = ns

section
variable {config : Config} {p q s : Ahead} {t : Token} {u v w n n' : List Token} {ns ms : List Int}

theorem Integers.append (hu : Integers p q u ns) (hv : Integers q s v ms) : Integers p s (u ++ v) (ns ++ ms) where
  along := by rw [List.foldl_append, hu.along, hv.along]
  written := by rw [Ahead.integersFrom_append, hu.written, hu.along, hv.written]

theorem Integers.one (hq : p.after t = q) (hn : p.written t = ns) : Integers p q [t] ns :=
  ⟨hq, by simp [Ahead.integersFrom, hn]⟩

theorem Integers.cons (hq : p.after t = q) (ht : p.written t = []) (hw : Integers q s w ns) :
    Integers p s (t :: w) ns :=
  (Integers.one hq ht).append hw

theorem Newlines.integers (h : Newlines w) (hp : p.after .newline = p) : Integers p p w [] := by
  induction w with
  | nil => exact ⟨rfl, rfl⟩
  | cons t w ih =>
    obtain ⟨rfl, hw⟩ := List.forall_mem_cons.mp h
    have hnone : p.written .newline = [] := by cases p <;> rfl
    exact .cons hp hnone (ih hw)

theorem integers_parenthesized (hn : Newlines n) (hw : Integers .operand .mark w ns) (hn' : Newlines n') :
    Integers .operand .mark (n ++ w ++ n' ++ [.closeParen]) ns := by
  have hclosing : Integers .mark .mark [.closeParen] [] := .one rfl rfl
  have h := (((hn.integers rfl).append hw).append (hn'.integers rfl)).append hclosing
  rwa [List.nil_append, List.append_nil, List.append_nil] at h

theorem asksOperand_pField {name : String} {digits : List Char} (h : pFieldDigits? name = some digits) :
    (Token.identifier name).asksOperand = false := by
  have hinstr : name ≠ "instr" := by
    rintro rfl
    rw [show pFieldDigits? "instr" = none by decide] at h
    contradiction
  have hkeyword : FeatureKind.ofKeyword? name = none := by
    fun_cases FeatureKind.ofKeyword? name with
    | case1 =>
      rw [show pFieldDigits? "line" = none by decide] at h
      contradiction
    | case2 => rfl
  simp [Token.asksOperand, hinstr, hkeyword]

theorem Derives.integers {level : Level} {inside : Bool} {e : Expr} (h : Derives config level inside w e) :
    Integers .operand .mark w e.integers := by
  induction h with
  | integer hvalue => exact .one rfl (by rw [Expr.integers, hvalue]; rfl)
  | float _ _ => exact .one rfl rfl
  | negInteger hvalue => exact .cons rfl rfl (.one rfl (by rw [Expr.integers, hvalue]; rfl))
  | negFloat _ _ => exact .cons rfl rfl (.one rfl rfl)
  | pField hname _ _ =>
    refine .one ?_ rfl
    rw [Ahead.after, Ahead.behind, asksOperand_pField hname]
    all_goals simp
  | group hn _ hn' ih => exact .cons rfl rfl (integers_parenthesized hn ih hn')
  | @call _ name _ _ _ _ _ _ _ hconvert hn _ hn' ih =>
    have hopening (p : Ahead) : p.after .openParen = .operand :=
      Ahead.after_of_asksOperand rfl (by simp)
    have hnone (p : Ahead) : p.written .openParen = [] := by cases p <;> rfl
    rw [Expr.integers_of_convert? hconvert]
    exact .cons rfl rfl (.cons (hopening _) (hnone _) (integers_parenthesized hn ih hn'))
  | tighter _ ih => exact ih
  | chain op _ gap hn _ ih ih' =>
    have hop : Ahead.mark.after op.token = .operand := by cases op <;> rfl
    have hnone : Ahead.mark.written op.token = [] := by cases op <;> rfl
    have hright := (hn.integers rfl).append ih'
    have h := (ih.append (gap.1.integers rfl)).append (hright.cons hop hnone)
    rwa [List.append_nil] at h

/-! ## statements and scores -/

theorem ArgumentWord.integers {arg : Expr ⊕ String × Expr} (h : ArgumentWord config w arg) :
    Integers .operand .mark w (argumentExpr arg).integers := by
  cases h with
  | coordinate he => exact he.integers
  | @option t n w name e ht hn he =>
    have harrow (p : Ahead) : p.after .arrow = .operand := Ahead.after_of_asksOperand rfl (by simp)
    have hnone (p : Ahead) : p.written .arrow = [] := by cases p <;> rfl
    have hname : Ahead.operand.written t = [] := by rcases ht with rfl | rfl <;> rfl
    exact .cons rfl hname (.cons (harrow _) (hnone _) ((hn.integers rfl).append he.integers))

theorem Comma.integers (h : Comma w) : Integers .mark .operand w [] := by
  obtain ⟨n, hn, rfl⟩ := h
  exact .cons rfl rfl (hn.integers rfl)

theorem Separators.integers (h : Separators w) : Integers .mark .mark w [] := by
  induction w with
  | nil => exact ⟨rfl, rfl⟩
  | cons t w ih =>
    obtain ⟨ht, hw⟩ := List.forall_mem_cons.mp h
    have hafter : Ahead.mark.after t = .mark := by cases t <;> first | rfl | contradiction
    have hnone : Ahead.mark.written t = [] := by cases t <;> first | rfl | contradiction
    exact .cons hafter hnone (ih hw)

theorem FeatureWord.integers {f : Feature} (h : FeatureWord config w f) : Integers .mark .mark w f.integers := by
  obtain @⟨w, l, hargs, -⟩ := h
  have h : Integers .operand .mark w (l.arguments.flatMap fun arg => (argumentExpr arg).integers) :=
    hargs.found .append (fun _ _ ha => ha.integers) fun _ hs => hs.integers
  rw [← List.flatMap_map, ← Line.expressions_eq] at h
  exact .cons rfl rfl h

theorem NumberWord.integers {number : UInt32} (h : NumberWord w number) :
    Integers .operand .mark w [(number.toNat : Int)] := by
  cases h with
  | integer hvalue => exact .one rfl (by rw [hvalue]; rfl)

theorem BlockWord.integers {b : Block} (h : BlockWord config w b) : Integers .mark .mark w b.integers := by
  obtain @⟨w, v, numbers, features, closer, hnumbers, hfeatures, -⟩ := h
  have hopening : Ahead.mark.after closer.opening = .mark := by cases closer <;> rfl
  have hopened : Ahead.mark.written closer.opening = [] := by cases closer <;> rfl
  have hclosing : Ahead.mark.after closer.token = .mark := by cases closer <;> rfl
  have hclosed : Ahead.mark.written closer.token = [] := by cases closer <;> rfl
  have hnumbers : Integers .operand .mark w (numbers.map fun number => (number.toNat : Int)) := by
    have h := hnumbers.found .append (fun _ _ hn => hn.integers) fun _ hs => hs.integers
    rwa [← List.map_eq_flatMap] at h
  have hbody := (hfeatures.found .append (fun _ _ hf => hf.integers) fun _ hs => hs.integers).append
    (Integers.one hclosing hclosed)
  rw [List.append_nil] at hbody
  exact .cons rfl rfl (hnumbers.append (hbody.cons hopening hopened))

theorem ScoreWord.integers {d : Definitions} (h : ScoreWord config w d) : Integers .mark .mark w d.integers := by
  obtain ⟨hblocks, -⟩ := h
  have hend : Integers .mark .mark [.endOfInput] [] := .one rfl rfl
  have h := (hblocks.found .append (fun _ _ hb => hb.integers) fun _ hs => hs.integers).append hend
  rwa [List.append_nil] at h

end

end GraphicScore
