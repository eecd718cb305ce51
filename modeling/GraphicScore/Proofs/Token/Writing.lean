import GraphicScore.Proofs.Token.Spelling

/-!
# Writing tokens

Which tokens a text has is worked out piece by piece, as the text is put together. A piece is followed
by something that breaks, or it has a fault that what follows cannot mend.
-/

namespace GraphicScore

section
variable {c : Char} {t : Token} {rest : List Char}

theorem breaks_nil : Breaks [] := by
  intro c hc
  contradiction

theorem breaks_cons (h : Character.continuesName c = false) (hc : c ≠ '.') : Breaks (c :: rest) := by
  intro c' hc'
  cases hc'
  exact ⟨h, hc⟩

theorem words_nil : words [] = some [] := words_of_end rfl

theorem words_ofChar (h : Token.ofChar? c = some t) : words (c :: rest) = (words rest).map (t :: ·) := by
  have hread : Lexeme.read (trivia (c :: rest)).2 = ⟨.ok t, [c], rest⟩ := by
    revert h
    fun_cases Token.ofChar? c <;> intro h <;> cases h <;> rfl
  have ht : t ≠ .endOfInput := by
    revert h
    fun_cases Token.ofChar? c <;> intro h <;> cases h <;> decide
  rw [words_of_token (by rw [hread]) ht, hread]

end

/--
The text has the tokens, or a fault if it is not sound. An open text has them where what follows breaks,
and any other wherever it stands.
-/
def Writes (isOpen sound : Bool) (text : String) (ts : List Token) : Prop :=
  ∀ rest, (isOpen = true → Breaks rest) →
    words (text.toList ++ rest) = if sound then (words rest).map (ts ++ ·) else none

section
variable {isOpen isOpen' sound sound' : Bool} {a b : String} {ts us : List Token} {t : Token}
  {α : Type} {f : α → String} {g : α → List Token} {p : α → Bool} {xs : List α}

theorem writes_token (h : t.isLexical = true) (ha : a.toList = t.spelling) : Writes t.isOpen true a [t] := by
  intro rest hb
  rw [ha, words_spelling h hb]
  rfl

theorem writes_closed (h : t.isLexical = true) (ho : t.isOpen = false) (ha : a.toList = t.spelling) :
    Writes false true a [t] := by
  rw [← ho]
  exact writes_token h ha

theorem writes_identifier (h : isIdentifier a = true) : Writes true true a [.identifier a] := by
  have : Writes (Token.identifier a).isOpen true a [.identifier a] := writes_token h rfl
  exact this

theorem writes_empty : Writes false true "" [] := by
  intro rest _
  simp

theorem writes_space : Writes false true " " [] := by
  intro rest _
  show words (' ' :: rest) = _
  rw [words_space]
  simp

theorem Writes.words_eq (h : Writes isOpen sound a ts) : words a.toList = if sound then some ts else none := by
  have := h [] fun _ => breaks_nil
  simpa [words_nil] using this

theorem Writes.opened (h : Writes false sound a ts) : Writes isOpen sound a ts := by
  intro rest _
  exact h rest fun h => absurd h (by decide)

/-- A text behind another one, which it does not go on with. -/
theorem Writes.append (ha : Writes isOpen sound a ts) (hb : Writes isOpen' sound' b us)
    (hbreak : isOpen = true → ∀ rest, Breaks (b.toList ++ rest)) :
    Writes isOpen' (sound && sound') (a ++ b) (ts ++ us) := by
  intro rest hrest
  rw [String.toList_append, List.append_assoc, ha _ (fun h => hbreak h rest), hb _ hrest]
  cases sound <;> cases sound' <;> simp [Function.comp_def]

theorem Writes.append_closed (ha : Writes false sound a ts) (hb : Writes isOpen' sound' b us) :
    Writes isOpen' (sound && sound') (a ++ b) (ts ++ us) :=
  ha.append hb fun h => absurd h (by decide)

theorem writes_join (hxs : ∀ x ∈ xs, Writes false (p x) (f x) (g x)) :
    Writes false (xs.all p) (String.join (xs.map f)) (xs.flatMap g) := by
  induction xs with
  | nil => exact writes_empty
  | cons x xs ih =>
    rw [List.forall_mem_cons] at hxs
    have := hxs.1.append_closed (ih hxs.2)
    simpa using this

/-- Texts with a text in between, which breaks with each of them. -/
theorem writes_intercalate (hxs : ∀ x ∈ xs, Writes isOpen (p x) (f x) (g x)) (hb : Writes false true b us)
    (hbreak : isOpen = true → ∀ rest, Breaks (b.toList ++ rest)) :
    Writes isOpen (xs.all p) (b.intercalate (xs.map f)) (us.intercalate (xs.map g)) := by
  induction xs with
  | nil => exact writes_empty.opened
  | cons x xs ih =>
    rw [List.forall_mem_cons] at hxs
    cases xs with
    | nil => simpa using hxs.1
    | cons y ys =>
      have hfirst := hxs.1.append hb hbreak
      have := hfirst.append_closed (ih hxs.2)
      simpa [List.intercalate_cons_cons] using this

end

end GraphicScore
