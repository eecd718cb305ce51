import GraphicScore.Proofs.Number.Numeral
import GraphicScore.Proofs.Token.Words

/-!
# Spelling

Every token is read back from its spelling, if nothing behind it could go on with it. Blanks in
between make no difference.
-/

namespace GraphicScore

/-! ## names -/

def isWord (name : String) : Bool := !name.toList.isEmpty && name.toList.all Character.continuesName

def isIdentifier (name : String) : Bool := name.toList.head?.any Character.startsName && isWord name

/-! ## tokens -/

namespace Token

def spelling : Token → List Char
  | .symbol name => ':' :: name.toList
  | t => t.text.toList

/-- Whether the token is one that a text can have. -/
def isLexical : Token → Bool
  | .identifier name => isIdentifier name
  | .symbol name => isWord name
  | .integer digits => !digits.toList.isEmpty && digits.toList.all Char.isDigit
  | .float text =>
    let (numeral, rest) := Numeral.scan text.toList
    text.toList.head?.any Char.isDigit && numeral.isFloat && rest.isEmpty
  | .endOfInput => false
  | _ => true

/-- Whether what stands behind the token could go on with it. -/
def isOpen : Token → Bool
  | .identifier _ => true
  | .symbol _ => true
  | .integer _ => true
  | .float _ => true
  | _ => false

end Token

/-! ## characters of names -/

section
variable {c : Char} {cs : List Char}

theorem ofChar?_of_continuesName (h : Character.continuesName c = true) : Token.ofChar? c = none := by
  fun_cases Token.ofChar? c with
  | case12 => rfl
  | _ => exact absurd h (by decide)

theorem not_isDigit_of_startsName (h : Character.startsName c = true) : c.isDigit = false := by
  cases hd : c.isDigit with
  | false => rfl
  | true =>
    rw [Char.isDigit_iff_toNat] at hd
    have hlow : 48 ≤ c.toNat := hd.1
    have hhigh : c.toNat ≤ 57 := hd.2
    have hrange : c.toNat ∈ List.range' 48 10 := List.mem_range'_1.mpr ⟨hlow, by omega⟩
    have hall : ∀ n ∈ List.range' 48 10, Character.startsName (Char.ofNat n) = false := by decide
    have := hall _ hrange
    rw [Char.ofNat_toNat, h] at this
    contradiction

theorem trivia_of_continuesName (h : Character.continuesName c = true) : trivia (c :: cs) = ([], c :: cs) := by
  generalize hl : c :: cs = l
  fun_cases trivia l with
  | case7 => rfl
  | _ =>
    cases hl
    exact absurd h (by decide)

theorem read_of_startsName (h : Character.startsName c = true) :
    Lexeme.read (c :: cs) = Lexeme.identifier (c :: cs) := by
  have hcont := Character.continuesName_of_startsName h
  have heq : c ≠ '=' := fun e => absurd (e ▸ hcont) (by decide)
  have hcolon : c ≠ ':' := fun e => absurd (e ▸ hcont) (by decide)
  simp [Lexeme.read, ofChar?_of_continuesName hcont, heq, hcolon, not_isDigit_of_startsName h, h]

theorem read_of_isDigit (h : c.isDigit = true) : Lexeme.read (c :: cs) = Lexeme.number (c :: cs) := by
  have hcont := Character.continuesName_of_isDigit h
  have heq : c ≠ '=' := fun e => absurd (e ▸ hcont) (by decide)
  have hcolon : c ≠ ':' := fun e => absurd (e ▸ hcont) (by decide)
  simp [Lexeme.read, ofChar?_of_continuesName hcont, heq, hcolon, h]

end

theorem isWord_iff {name : String} :
    isWord name = true ↔ name.toList ≠ [] ∧ ∀ c ∈ name.toList, Character.continuesName c = true := by
  simp [isWord]

theorem isIdentifier_iff {name : String} :
    isIdentifier name = true ↔
      ∃ c cs, name.toList = c :: cs ∧ Character.startsName c = true ∧
        ∀ c ∈ name.toList, Character.continuesName c = true := by
  rw [isIdentifier, Bool.and_eq_true, isWord_iff]
  cases name.toList <;> simp

section
variable {t : Token} {rest : List Char}

theorem read_identifier {name : String} (h : isIdentifier name = true) (hb : Breaks rest) :
    Lexeme.read (name.toList ++ rest) = ⟨.ok (.identifier name), name.toList, rest⟩ := by
  obtain ⟨c, cs, hname, hstart, hall⟩ := isIdentifier_iff.mp h
  have hread : Lexeme.read (name.toList ++ rest) = Lexeme.identifier (name.toList ++ rest) := by
    rw [hname]
    exact read_of_startsName hstart
  rw [hread, Lexeme.identifier, takeWhile_append_of_stop hb.continuesName,
    dropWhile_append_of_stop hb.continuesName, List.takeWhile_eq_self_iff.mpr hall,
    List.dropWhile_eq_nil_iff.mpr hall, String.ofList_toList]
  rfl

theorem read_symbol {name : String} (h : isWord name = true) (hb : Breaks rest) :
    Lexeme.read (':' :: name.toList ++ rest) = ⟨.ok (.symbol name), ':' :: name.toList, rest⟩ := by
  obtain ⟨hne, hall⟩ := isWord_iff.mp h
  have hread : Lexeme.read (':' :: name.toList ++ rest) = Lexeme.symbol (name.toList ++ rest) := rfl
  rw [hread, Lexeme.symbol, takeWhile_append_of_stop hb.continuesName,
    dropWhile_append_of_stop hb.continuesName, List.takeWhile_eq_self_iff.mpr hall,
    List.dropWhile_eq_nil_iff.mpr hall, String.ofList_toList]
  simp [hne]

theorem read_number {text : String} (hd : text.toList.head?.any Char.isDigit = true)
    (hs : (Numeral.scan text.toList).2 = []) (hb : Breaks rest) :
    Lexeme.read (text.toList ++ rest) =
      ⟨.ok (if (Numeral.scan text.toList).1.isFloat then .float text else .integer text), text.toList,
        rest⟩ := by
  have hread : Lexeme.read (text.toList ++ rest) = Lexeme.number (text.toList ++ rest) := by
    generalize text.toList = cs at hd
    cases cs with
    | nil => contradiction
    | cons c cs => exact read_of_isDigit hd
  have hspelling : (Numeral.scan text.toList).1.spelling = text.toList := by
    have := Numeral.scan_append text.toList
    rwa [hs, List.append_nil] at this
  rw [hread, Lexeme.number, Numeral.scan_append_of_breaks hb hs]
  simp only [hspelling, String.ofList_toList]

theorem read_spelling (h : t.isLexical = true) (hb : t.isOpen = true → Breaks rest) :
    Lexeme.read (t.spelling ++ rest) = ⟨.ok t, t.spelling, rest⟩ := by
  cases t with
  | identifier name => exact read_identifier h (hb rfl)
  | integer digits =>
    simp only [Token.isLexical, Bool.and_eq_true, Bool.not_eq_true', List.all_eq_true] at h
    obtain ⟨hne, hall⟩ := h
    have hd : digits.toList.head?.any Char.isDigit = true := by
      cases hl : digits.toList with
      | nil => simp [hl] at hne
      | cons c cs => exact hall c (by simp [hl])
    have hscan := Numeral.scan_digits hall
    have := read_number hd (by rw [hscan]) (hb rfl)
    rw [hscan] at this
    exact this
  | float text =>
    simp only [Token.isLexical, Bool.and_eq_true, List.isEmpty_iff] at h
    obtain ⟨⟨hd, hfloat⟩, hs⟩ := h
    have := read_number hd hs (hb rfl)
    rw [hfloat] at this
    exact this
  | symbol name => exact read_symbol h (hb rfl)
  | endOfInput => contradiction
  | _ => rfl

theorem trivia_spelling (h : t.isLexical = true) : trivia (t.spelling ++ rest) = ([], t.spelling ++ rest) := by
  have starts {cs : List Char} {c : Char} (hc : c ∈ cs.head?) (h : Character.continuesName c = true) :
      trivia (cs ++ rest) = ([], cs ++ rest) := by
    cases cs with
    | nil => contradiction
    | cons c' cs =>
      cases hc
      exact trivia_of_continuesName h
  cases t with
  | identifier name =>
    obtain ⟨c, cs, hname, -, hall⟩ := isIdentifier_iff.mp h
    have hhead : c ∈ name.toList.head? := by rw [hname]; rfl
    exact starts hhead (hall c (List.mem_of_mem_head? hhead))
  | integer digits =>
    simp only [Token.isLexical, Bool.and_eq_true, Bool.not_eq_true', List.all_eq_true] at h
    obtain ⟨hne, hall⟩ := h
    have hhead : digits.toList.head (by simpa using hne) ∈ digits.toList.head? := List.head_mem_head? _
    exact starts hhead (Character.continuesName_of_isDigit (hall _ (List.head_mem _)))
  | float text =>
    simp only [Token.isLexical, Bool.and_eq_true, Option.any_eq_true] at h
    obtain ⟨c, hc, hd⟩ := h.1.1
    exact starts hc (Character.continuesName_of_isDigit hd)
  | symbol name => rfl
  | endOfInput => contradiction
  | _ => rfl

theorem words_space : words (' ' :: rest) = words rest := words_congr rfl

theorem words_spelling (h : t.isLexical = true) (hb : t.isOpen = true → Breaks rest) :
    words (t.spelling ++ rest) = (words rest).map (t :: ·) := by
  have hread : Lexeme.read (trivia (t.spelling ++ rest)).2 = ⟨.ok t, t.spelling, rest⟩ := by
    rw [trivia_spelling h, read_spelling h hb]
  have ht : t ≠ .endOfInput := by
    intro e
    rw [e] at h
    contradiction
  rw [words_of_token (by rw [hread]) ht, hread]

end

/-! ## tokens of texts -/

/-- Whether the token's name is one that a text can have. -/
def Token.isNamed : Token → Bool
  | .identifier name => isIdentifier name
  | .symbol name => isWord name
  | _ => true

section
variable {cs : List Char} {t : Token}

theorem isWord_takeWhile (h : cs.takeWhile Character.continuesName ≠ []) :
    isWord (String.ofList (cs.takeWhile Character.continuesName)) = true := by
  rw [isWord_iff, String.toList_ofList]
  exact ⟨h, fun c hc => List.mem_takeWhile_imp hc⟩

theorem isNamed_of_read (h : (Lexeme.read cs).outcome = .ok t) : t.isNamed = true := by
  revert h
  fun_cases Lexeme.read cs with
  | case1 =>
    intro h
    cases h
    rfl
  | case2 c cs t' ht' =>
    intro h
    cases h
    revert ht'
    fun_cases Token.ofChar? c <;> intro h <;> cases h <;> rfl
  | case3 cs =>
    fun_cases Lexeme.arrow cs <;> intro h <;> cases h
    rfl
  | case4 cs =>
    intro h
    by_cases hne : (cs.takeWhile Character.continuesName).isEmpty = true
    · simp [Lexeme.symbol, hne] at h
    · simp only [Lexeme.symbol, if_neg hne, Except.ok.injEq] at h
      rw [← h]
      exact isWord_takeWhile (by simpa using hne)
  | case5 c cs =>
    intro h
    simp only [Lexeme.number, Except.ok.injEq] at h
    rw [← h]
    split <;> rfl
  | case6 c cs _ _ _ _ hstart =>
    intro h
    simp only [Lexeme.identifier, Except.ok.injEq] at h
    have htake : (c :: cs).takeWhile Character.continuesName = c :: cs.takeWhile Character.continuesName := by
      rw [List.takeWhile_cons, if_pos (Character.continuesName_of_startsName hstart)]
    rw [← h, Token.isNamed, isIdentifier, isWord_takeWhile (by simp [htake]), String.toList_ofList, htake]
    simp [hstart]
  | case7 =>
    intro h
    contradiction

theorem forall_isNamed {w : List Token} (h : words cs = some w) : ∀ t ∈ w, t.isNamed = true := by
  induction hk : cs.length using Nat.strongRecOn generalizing cs w with
  | ind k ih =>
    cases ho : (Lexeme.read (trivia cs).2).outcome with
    | error cause =>
      rw [words_of_error ho] at h
      contradiction
    | ok t =>
      by_cases ht : t = .endOfInput
      · subst ht
        rw [words_of_end ho] at h
        cases h
        exact List.forall_mem_nil _
      · rw [words_of_token ho ht, Option.map_eq_some_iff] at h
        obtain ⟨w, hw, rfl⟩ := h
        exact List.forall_mem_cons.mpr ⟨isNamed_of_read ho, ih _ (hk ▸ length_rest_lt ho ht) hw rfl⟩

end

end GraphicScore
