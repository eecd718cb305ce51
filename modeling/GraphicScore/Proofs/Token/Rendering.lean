import GraphicScore.Proofs.Token.Decomposition
import GraphicScore.Proofs.Token.Writing
import Mathlib.Data.List.Chain

/-!
# Rendering

Tokens can be put into a text with any trivia between them. The text has these tokens again, as long as a
name or a number is kept from another one in front of it.
-/

namespace GraphicScore

/-! ## tokens -/

namespace Token

/-- The token's text follows the grammar of its kind. -/
def IsWritten : Token → Prop
  | .identifier name =>
    ∃ c cs, name.toList = c :: cs ∧ Character.startsName c = true ∧ ∀ d ∈ cs, Character.continuesName d = true
  | .symbol name => name.toList ≠ [] ∧ ∀ c ∈ name.toList, Character.continuesName c = true
  | .integer digits => Numeral.IsDigits digits.toList
  | .float text => ∃ n : Numeral, n.IsWritten ∧ n.isFloat = true ∧ text.toList = n.spelling
  | .endOfInput => False
  | _ => True

/-- Whether the token could be taken for more of a name or a number in front of it. -/
def joins : Token → Bool
  | .identifier _ => true
  | .integer _ => true
  | .float _ => true
  | _ => false

section
variable {t : Token} {rest : List Char}

theorem IsWritten.isLexical (h : t.IsWritten) : t.isLexical = true := by
  cases t with
  | identifier name =>
    obtain ⟨c, cs, hname, hstart, hcs⟩ := h
    refine isIdentifier_iff.mpr ⟨c, cs, hname, hstart, ?_⟩
    rw [hname]
    exact List.forall_mem_cons.mpr ⟨Character.continuesName_of_startsName hstart, hcs⟩
  | symbol name => exact isWord_iff.mpr h
  | integer digits =>
    simp only [Token.isLexical, Bool.and_eq_true, Bool.not_eq_true', List.isEmpty_eq_false_iff, List.all_eq_true]
    exact h
  | float text =>
    obtain ⟨n, hn, hfloat, htext⟩ := h
    have hhead : text.toList.head?.any Char.isDigit = true := by
      rw [htext, Numeral.spelling, List.append_assoc, hn.whole.head?_append, hn.whole.head?_any]
    simp only [Token.isLexical, htext, Numeral.scan_spelling hn, hfloat] at hhead ⊢
    simp [hhead]
  | endOfInput => exact h.elim
  | _ => rfl

theorem spelling_ne_nil (h : t.isLexical = true) : t.spelling ≠ [] := by
  have ht : Lexeme.settles (.ok t) = false := by cases t <;> first | rfl | contradiction
  have htaken := Lexeme.taken_ne_nil (t.spelling ++ [])
  rw [read_spelling h fun _ => breaks_nil] at htaken
  exact htaken ht

theorem head?_spelling_append (h : t.isLexical = true) : (t.spelling ++ rest).head? = t.spelling.head? := by
  obtain ⟨c, cs, hcs⟩ := List.exists_cons_of_ne_nil (spelling_ne_nil h)
  rw [hcs]
  rfl

theorem breaks_spelling (h : t.isLexical = true) (hj : t.joins = false) : Breaks (t.spelling ++ rest) := by
  cases t with
  | identifier | integer | float => contradiction
  | endOfInput => contradiction
  | _ => exact breaks_cons (by decide) (by decide)

end

end Token

/-! ## trivia -/

section
variable {gap rest rest' : List Char}

theorem Trivia.of_head? (h : Trivia gap rest) (hr : rest'.head? = rest.head?) : Trivia gap rest' := by
  induction h with
  | nil => exact .nil
  | blank hpiece _ ih => exact .blank hpiece (ih hr)
  | comment hcs hrest => exact .comment hcs (hr ▸ hrest)

theorem Trivia.breaks (h : Trivia gap rest) (hne : gap ≠ []) : Breaks (gap ++ rest) := by
  cases h with
  | nil => contradiction
  | @blank piece cs rest hp _ =>
    simp only [blanks, List.mem_cons, List.not_mem_nil, or_false] at hp
    rcases hp with rfl | rfl | rfl | rfl | rfl <;> exact breaks_cons (by decide) (by decide)
  | comment => exact breaks_cons (by decide) (by decide)

theorem Trivia.words_append (h : Trivia gap rest) : words (gap ++ rest) = words rest := by
  induction h with
  | nil => rfl
  | @blank piece cs rest hp _ ih =>
    rw [← ih, List.append_assoc]
    simp only [blanks, List.mem_cons, List.not_mem_nil, or_false] at hp
    rcases hp with rfl | rfl | rfl | rfl | rfl <;> exact words_congr rfl
  | @comment cs rest hcs hrest =>
    refine words_congr ?_
    have hstop : ∀ c ∈ rest.head?, (c != '\n') = false := by
      intro c hc
      simp [hrest c hc]
    have hdrop : cs.dropWhile (· != '\n') = [] := by
      simp only [List.dropWhile_eq_nil_iff, bne_iff_ne]
      intro c hc e
      exact hcs (e ▸ hc)
    rw [List.cons_append, trivia, dropWhile_append_of_stop hstop, hdrop, List.nil_append]
    cases rest with
    | nil => rfl
    | cons c rest =>
      obtain rfl : c = '\n' := hrest c rfl
      rfl

end

/-! ## layouts -/

structure Placed where
  gap : List Char
  token : Token

def Placed.text (p : Placed) : List Char := p.gap ++ p.token.spelling

def render (ps : List Placed) (last : List Char) : List Char := ps.flatMap Placed.text ++ last

/-- There is something between the two if the second could be taken for more of the first. -/
def Placed.Apart (p q : Placed) : Prop := p.token.isOpen = true → q.token.joins = true → q.gap ≠ []

/-- What stands in front of the tokens and behind the last is trivia there, and keeps them apart. -/
structure IsLayout (ps : List Placed) (last : List Char) : Prop where
  written : ∀ p ∈ ps, p.token.IsWritten
  gaps : ∀ p ∈ ps, Trivia p.gap p.token.spelling
  apart : ps.IsChain Placed.Apart
  last : Trivia last []

section
variable {ps : List Placed} {p : Placed} {last : List Char}

theorem render_cons (p : Placed) (ps : List Placed) (last : List Char) :
    render (p :: ps) last = p.gap ++ (p.token.spelling ++ render ps last) := by
  simp [render, Placed.text]

theorem IsLayout.tail (h : IsLayout (p :: ps) last) : IsLayout ps last :=
  ⟨fun q hq => h.written q (List.mem_cons_of_mem _ hq), fun q hq => h.gaps q (List.mem_cons_of_mem _ hq),
    h.apart.tail, h.last⟩

theorem IsLayout.breaks (h : IsLayout (p :: ps) last) (ho : p.token.isOpen = true) : Breaks (render ps last) := by
  cases ps with
  | nil =>
    by_cases hne : last = []
    · rw [hne]
      exact breaks_nil
    · have := h.last.breaks hne
      rwa [List.append_nil] at this
  | cons q qs =>
    have hgap := h.gaps q (by simp)
    by_cases hne : q.gap = []
    · have hj : q.token.joins = false := by
        cases hj : q.token.joins with
        | false => rfl
        | true => exact absurd hne ((List.isChain_cons_cons.mp h.apart).1 ho hj)
      rw [render_cons, hne]
      exact Token.breaks_spelling (h.written q (by simp)).isLexical hj
    · rw [render_cons]
      exact (hgap.of_head? (Token.head?_spelling_append (h.written q (by simp)).isLexical)).breaks hne

theorem words_render (h : IsLayout ps last) : words (render ps last) = some (ps.map Placed.token) := by
  induction ps with
  | nil =>
    have := h.last.words_append
    rw [List.append_nil] at this
    exact this.trans words_nil
  | cons p ps ih =>
    have ht := (h.written p (List.mem_cons_self ..)).isLexical
    have hgap : Trivia p.gap (p.token.spelling ++ render ps last) :=
      (h.gaps p (List.mem_cons_self ..)).of_head? (Token.head?_spelling_append ht)
    rw [render_cons, hgap.words_append, words_spelling ht h.breaks, ih h.tail]
    rfl

end

/-- The text of a layout has its tokens, and then the end of input. -/
theorem tokenize_render {source : String} {ps : List Placed} {last : List Char} (h : IsLayout ps last)
    (hsource : source.toList = render ps last) :
    ∃ ts, tokenize source = .ok ts ∧ ts.map Located.value = ps.map Placed.token ++ [.endOfInput] := by
  unfold tokenize Feed.ofString Cursor.ofString
  rw [hsource]
  exact (words_eq_some .start).mp (words_render h)

/-- Neither a continuation nor a comment in front of a newline gets into a token. -/
theorem tokenize_render_continued :
    ∃ ts, tokenize "1\\\r\ne5:5\t1.5e-3 #\\\r\n=>#" = .ok ts ∧
      ts.map Located.value =
        [.integer "1", .identifier "e5", .symbol "5", .float "1.5e-3", .newline, .arrow, .endOfInput] := by
  have hinteger : (Token.integer "1").IsWritten := ⟨by decide, List.forall_mem_singleton.mpr rfl⟩
  have hname : (Token.identifier "e5").IsWritten :=
    ⟨'e', ['5'], by decide, by decide, List.forall_mem_singleton.mpr (by decide)⟩
  have hsymbol : (Token.symbol "5").IsWritten := ⟨by decide, List.forall_mem_singleton.mpr (by decide)⟩
  have hfloat : (Token.float "1.5e-3").IsWritten :=
    ⟨⟨['1'], some ['5'], some ⟨'e', some '-', ['3']⟩⟩, by decide, rfl, rfl⟩
  have hcontinuation : Trivia (['\\', '\r', '\n'] ++ []) ['e', '5'] := .blank (by decide) .nil
  have htab : Trivia (['\t'] ++ []) ['1', '.', '5', 'e', '-', '3'] := .blank (by decide) .nil
  have hcomment : Trivia ([' '] ++ ['#', '\\', '\r']) ['\n'] :=
    .blank (by decide) (.comment (by decide) (by simp))
  have h : IsLayout
      [⟨[], .integer "1"⟩, ⟨['\\', '\r', '\n'], .identifier "e5"⟩, ⟨[], .symbol "5"⟩, ⟨['\t'], .float "1.5e-3"⟩,
        ⟨[' ', '#', '\\', '\r'], .newline⟩, ⟨[], .arrow⟩] ['#'] :=
    { written := by
        simp only [List.forall_mem_cons]
        exact ⟨hinteger, hname, hsymbol, hfloat, trivial, trivial, List.forall_mem_nil _⟩
      gaps := by
        simp only [List.forall_mem_cons]
        exact ⟨.nil, hcontinuation, .nil, htab, hcomment, .nil, List.forall_mem_nil _⟩
      apart := by simp [Placed.Apart, Token.isOpen, Token.joins]
      last := .comment (by decide) (by simp) }
  exact tokenize_render h rfl

end GraphicScore
