import GraphicScore.Token.Feed

/-!
# Tokens of feeds

A feed has tokens if none of its answers is a fault, and then the end of input is the last of them.
-/

namespace GraphicScore

theorem Answer.settled_ok {found : Located Token} :
    Answer.settled (.ok found) = true ↔ found.value = .endOfInput := by
  obtain ⟨position, t⟩ := found
  cases t <;> simp [settled, Lexeme.settles]

section
variable {answer ending : Answer} {later : List Answer} {unsettled settled} {ts : List (Located Token)}

theorem mapM_cons_eq_ok :
    (answer :: later).mapM id = .ok ts ↔
      ∃ found ts', answer = .ok found ∧ later.mapM id = .ok ts' ∧ ts = found :: ts' := by
  rw [List.mapM_cons]
  cases answer with
  | error fault =>
    show Except.error fault = _ ↔ _
    simp
  | ok found =>
    cases later.mapM id with
    | error fault =>
      show Except.error fault = _ ↔ _
      simp
    | ok ts' =>
      show Except.ok (found :: ts') = _ ↔ _
      simp [eq_comm]

/-- The answers of a feed that has tokens are these. -/
theorem Feed.tokens_eq_ok {f : Feed} : f.tokens = .ok ts ↔ f.upcoming ++ [f.ending] = ts.map .ok := by
  unfold tokens
  generalize f.upcoming ++ [f.ending] = answers
  induction answers generalizing ts with
  | nil =>
    show Except.ok [] = _ ↔ _
    simp [eq_comm]
  | cons answer later ih =>
    simp only [mapM_cons_eq_ok, ih]
    cases ts <;> simp

theorem Feed.tokens_nil :
    (Feed.mk [] ending unsettled settled).tokens = .ok ts ↔ ∃ last, ending = .ok last ∧ ts = [last] := by
  rw [tokens, List.nil_append, mapM_cons_eq_ok]
  constructor
  · intro ⟨last, rest, h, hrest, hts⟩
    cases hrest
    exact ⟨last, h, hts⟩
  · intro ⟨last, h, hts⟩
    exact ⟨last, [], h, rfl, hts⟩

theorem Feed.tokens_cons :
    (Feed.mk (answer :: later) ending unsettled settled).tokens = .ok ts ↔
      ∃ found ts', answer = .ok found ∧
        (Feed.mk later ending (List.forall_mem_cons.mp unsettled).2 settled).tokens = .ok ts' ∧
        ts = found :: ts' := by
  rw [tokens, List.cons_append, mapM_cons_eq_ok, tokens]

/-! ## by what comes next -/

variable {f f' : Feed} {found : Located Token} {fault : Fault}

theorem Answer.not_settled (ht : found.value ≠ .endOfInput) : Answer.settled (.ok found) = false :=
  Bool.of_not_eq_true fun hs => ht (settled_ok.mp hs)

theorem Feed.head?_answers (f : Feed) : (f.upcoming ++ [f.ending]).head? = some f.next.1 := by
  obtain ⟨_ | ⟨answer, later⟩, ending, unsettled, settled⟩ := f <;> rfl

theorem Feed.mem_upcoming {f : Feed} (h : answer ∈ f.upcoming ++ [f.ending]) (hn : answer.settled = false) :
    answer ∈ f.upcoming := by
  rcases List.mem_append.mp h with hmem | hmem
  · exact hmem
  · obtain rfl := List.mem_singleton.mp hmem
    rw [f.settled] at hn
    contradiction

theorem Feed.next_mem_answers (f : Feed) : f.next.1 ∈ f.upcoming ++ [f.ending] := by
  obtain ⟨_ | ⟨answer, later⟩, ending, unsettled, settled⟩ := f <;> exact List.mem_cons_self

theorem Feed.answers_next (f : Feed) : f.next.2.upcoming ++ [f.next.2.ending] ⊆ f.upcoming ++ [f.ending] := by
  obtain ⟨_ | ⟨answer, later⟩, ending, unsettled, settled⟩ := f
  · exact fun _ => id
  · exact List.subset_cons_self _ _

theorem Feed.answers_of_next (h : f.next = (answer, f')) (hn : answer.settled = false) :
    f.upcoming ++ [f.ending] = answer :: (f'.upcoming ++ [f'.ending]) := by
  obtain ⟨_ | ⟨answer, later⟩, ending, unsettled, settled⟩ := f
  · cases h
    rw [hn] at settled
    contradiction
  · cases h
    rfl

theorem Feed.tokens_of_next (h : f.next = (.ok found, f')) (ht : found.value ≠ .endOfInput) :
    f.tokens = f'.tokens.map (found :: ·) := by
  rw [tokens, answers_of_next h (Answer.not_settled ht), List.mapM_cons, tokens]
  cases (f'.upcoming ++ [f'.ending]).mapM id <;> rfl

theorem Feed.tokens_of_error (h : f.next.1 = .error fault) : f.tokens = .error fault := by
  obtain ⟨_ | ⟨answer, later⟩, ending, unsettled, settled⟩ := f
  · obtain rfl : ending = .error fault := h
    rfl
  · obtain rfl : answer = .error fault := h
    rfl

theorem Feed.tokens_of_end (h : f.next.1 = .ok found) (ht : found.value = .endOfInput) :
    f.tokens = .ok [found] := by
  obtain ⟨_ | ⟨answer, later⟩, ending, unsettled, settled⟩ := f
  · obtain rfl : ending = .ok found := h
    rfl
  · obtain rfl : answer = .ok found := h
    have := unsettled _ List.mem_cons_self
    rw [Answer.settled_ok.mpr ht] at this
    contradiction

end

theorem Feed.take_succ (f : Feed) (n : Nat) :
    f.take (n + 1) = (f.next.1 :: (f.next.2.take n).1, (f.next.2.take n).2) := rfl

theorem Feed.take_add (f : Feed) (m n : Nat) :
    f.take (m + n) = ((f.take m).1 ++ ((f.take m).2.take n).1, ((f.take m).2.take n).2) := by
  induction m generalizing f with
  | zero => simp [take]
  | succ m ih => rw [Nat.succ_add, take_succ, ih, take_succ f m, List.cons_append]

/-- The feed answers with the tokens in turn, and is the other feed from then on. -/
inductive Feed.Answers : Feed → List (Located Token) → Feed → Prop
  | nil (f : Feed) : Answers f [] f
  | cons {f f' f'' : Feed} {t : Located Token} {w : List (Located Token)} :
    f.next = (.ok t, f') → Answers f' w f'' → Answers f (t :: w) f''

section
variable {f f' f'' : Feed} {t : Located Token} {w ts : List (Located Token)}

theorem Feed.Answers.concat (h : f.Answers w f') (hnext : f'.next = (.ok t, f'')) : f.Answers (w ++ [t]) f'' := by
  induction h with
  | nil f => exact .cons hnext (.nil _)
  | cons hu _ ih => exact .cons hu (ih hnext)

theorem Feed.exists_tokens_of_next (h : f.next = (.ok t, f')) (hts : f.tokens = .ok ts) :
    ∃ us, f'.tokens = .ok us := by
  obtain ⟨_ | ⟨answer, later⟩, ending, unsettled, settled⟩ := f
  · cases h
    exact ⟨ts, hts⟩
  · cases h
    obtain ⟨_, us, -, hus, -⟩ := tokens_cons.mp hts
    exact ⟨us, hus⟩

theorem Feed.Answers.exists_tokens (h : f.Answers w f') (hts : f.tokens = .ok ts) : ∃ us, f'.tokens = .ok us := by
  induction h generalizing ts with
  | nil f => exact ⟨ts, hts⟩
  | cons hu _ ih =>
    obtain ⟨us, hus⟩ := exists_tokens_of_next hu hts
    exact ih hus

theorem Feed.Answers.value_eq_of_settled {ending : Answer} {unsettled settled}
    (h : Answers ⟨[], ending, unsettled, settled⟩ (w ++ [t]) f') : t.value = .endOfInput := by
  induction w with
  | nil =>
    cases h with
    | cons hnext _ =>
      cases hnext
      exact Answer.settled_ok.mp settled
  | cons u w ih =>
    cases h with
    | cons hnext hw =>
      cases hnext
      exact ih hw

/-- What a feed answers with up to a token that is no end of input is where its tokens begin. -/
theorem Feed.Answers.exists_eq_append (h : f.Answers (w ++ [t]) f') (ht : t.value ≠ .endOfInput)
    (hts : f.tokens = .ok ts) : ∃ us, ts = w ++ t :: us := by
  induction w generalizing f ts with
  | nil =>
    obtain ⟨_ | ⟨answer, later⟩, ending, unsettled, settled⟩ := f
    · exact absurd (value_eq_of_settled (w := []) h) ht
    · cases h with
      | cons hnext _ =>
        cases hnext
        obtain ⟨_, us, ⟨⟩, -, rfl⟩ := tokens_cons.mp hts
        exact ⟨us, rfl⟩
  | cons u w ih =>
    obtain ⟨_ | ⟨answer, later⟩, ending, unsettled, settled⟩ := f
    · exact absurd h.value_eq_of_settled ht
    · cases h with
      | cons hnext hw =>
        cases hnext
        obtain ⟨_, _, ⟨⟩, hlater, rfl⟩ := tokens_cons.mp hts
        obtain ⟨us, rfl⟩ := ih hw hlater
        exact ⟨us, rfl⟩

end

@[ext] theorem Feed.ext {f f' : Feed} (hupcoming : f.upcoming = f'.upcoming) (hending : f.ending = f'.ending) :
    f = f' := by
  obtain ⟨upcoming, ending, unsettled, settled⟩ := f
  obtain rfl : upcoming = _ := hupcoming
  obtain rfl : ending = _ := hending
  rfl

section
variable {c : Cursor}

theorem Feed.ofCursor_of_unsettled (h : c.next.1.settled = false) :
    (ofCursor c).upcoming = c.next.1 :: (ofCursor c.next.2).upcoming ∧
      (ofCursor c).ending = (ofCursor c.next.2).ending := by
  rw [ofCursor, dif_pos h]
  exact ⟨rfl, rfl⟩

theorem Feed.ofCursor_of_settled (h : ¬ c.next.1.settled = false) :
    (ofCursor c).upcoming = [] ∧ (ofCursor c).ending = c.next.1 := by
  rw [ofCursor, dif_neg h]
  exact ⟨rfl, rfl⟩

end

/-- The tokens from a cursor on are the next one and, unless that is the end of input, those behind it. -/
theorem Feed.tokens_ofCursor {c : Cursor} {ts : List (Located Token)} :
    (ofCursor c).tokens = .ok ts ↔
      ∃ found, c.next.1 = .ok found ∧
        (found.value = .endOfInput ∧ ts = [found] ∨
          found.value ≠ .endOfInput ∧ ∃ ts', (ofCursor c.next.2).tokens = .ok ts' ∧ ts = found :: ts') := by
  rw [ofCursor]
  by_cases hn : c.next.1.settled = false
  · rw [dif_pos hn, tokens_cons]
    have hne {found : Located Token} (h : c.next.1 = .ok found) : found.value ≠ .endOfInput := by
      intro he
      rw [h, Answer.settled_ok.mpr he] at hn
      contradiction
    constructor
    · intro ⟨found, ts', hfound, hts', hts⟩
      exact ⟨found, hfound, .inr ⟨hne hfound, ts', hts', hts⟩⟩
    · intro ⟨found, hfound, h⟩
      obtain ⟨-, ts', hts', hts⟩ := h.resolve_left fun h => hne hfound h.1
      exact ⟨found, ts', hfound, hts', hts⟩
  · rw [dif_neg hn, tokens_nil]
    rw [Bool.not_eq_false] at hn
    constructor
    · intro ⟨last, hlast, hts⟩
      exact ⟨last, hlast, .inl ⟨Answer.settled_ok.mp (hlast ▸ hn), hts⟩⟩
    · intro ⟨found, hfound, h⟩
      rw [hfound, Answer.settled_ok] at hn
      exact ⟨found, hfound, (h.resolve_right fun h => h.1 hn).2⟩

end GraphicScore
