import GraphicScore.Proofs.Reading.Passing

/-!
# Walks of a reader

A reader asks its feed for a token when it goes on from one with none ahead, or looks ahead. The log of its
actions accounts for every answer: a token has become the current one, or it is ahead.
-/

namespace GraphicScore

/-! ## actions -/

namespace Action

def answer? : Action → Option Answer
  | .drawn found => some (.ok found)
  | .moved _ => none
  | .peeked found => some (.ok found)
  | .refused fault => some (.error fault)

def arrival? : Action → Option (Located Token)
  | .drawn found => some found
  | .moved found => some found
  | .peeked _ => none
  | .refused _ => none

def succeeds : Action → Bool
  | .refused _ => false
  | _ => true

def answers (log : List Action) : List Answer := log.filterMap answer?

def arrivals (log : List Action) : List (Located Token) := log.filterMap arrival?

section
variable (log log' : List Action) (a : Action)

theorem answers_append : answers (log ++ log') = answers log ++ answers log' := List.filterMap_append

theorem answers_concat : answers (log ++ [a]) = answers log ++ a.answer?.toList := by
  rw [answers, answers, List.filterMap_append]
  cases a <;> rfl

theorem arrivals_concat : arrivals (log ++ [a]) = arrivals log ++ a.arrival?.toList := by
  rw [arrivals, arrivals, List.filterMap_append]
  cases a <;> rfl

end

theorem exists_token_of_succeeds {log : List Action} (h : ∀ a ∈ log, a.succeeds = true) :
    ∀ answer ∈ answers log, ∃ t, answer = .ok t := by
  intro answer hanswer
  obtain ⟨a, ha, hsome⟩ := List.mem_filterMap.mp hanswer
  have hsucceeds := h a ha
  cases a with
  | drawn t => exact ⟨t, (Option.some.inj hsome).symm⟩
  | moved t => contradiction
  | peeked t => exact ⟨t, (Option.some.inj hsome).symm⟩
  | refused fault => contradiction

end Action

def Answer.tokens (answers : List Answer) : List (Located Token) := answers.filterMap Except.toOption

theorem Answer.tokens_append (as bs : List Answer) : tokens (as ++ bs) = tokens as ++ tokens bs :=
  List.filterMap_append

/-! ## what goes wrong in moving -/

namespace Reading

section
variable {r r' : Reader} {fault : Fault} {action : Located Token → Action}

theorem draw_eq_error :
    draw action r = .error fault r' ↔ r.feed.next.1 = .error fault ∧ r' = { r with feed := r.feed.next.2 } := by
  unfold draw
  generalize r.feed.next = step
  obtain ⟨answer, feed⟩ := step
  cases answer <;> simp [eq_comm]

theorem advance_eq_error : advance r = .error fault r' ↔ r.ahead = none ∧ draw .drawn r = .error fault r' := by
  rw [advance, get_bind]
  cases h : r.ahead with
  | some found =>
    simp only [reduceCtorEq, false_and, iff_false]
    intro h
    cases h
  | none =>
    cases hdraw : draw .drawn r with
    | ok found r₁ =>
      simp only [bind_of_ok hdraw, reduceCtorEq, and_false, iff_false]
      intro h
      cases h
    | error fault' r₁ => simp [bind_of_error hdraw]

theorem peek_eq_error : peek r = .error fault r' ↔ r.ahead = none ∧ draw .peeked r = .error fault r' := by
  rw [peek, get_bind]
  cases h : r.ahead with
  | some found => simp
  | none =>
    cases hdraw : draw .peeked r with
    | ok found r₁ =>
      simp only [bind_of_ok hdraw, reduceCtorEq, and_false, iff_false]
      intro h
      cases h
    | error fault' r₁ => simp [bind_of_error hdraw]

theorem draw_error_eq (h : draw action r = .error fault r') :
    r'.current = r.current ∧ r'.ahead = r.ahead ∧ r'.depth = r.depth := by
  obtain ⟨-, rfl⟩ := draw_eq_error.mp h
  exact ⟨rfl, rfl, rfl⟩

end

end Reading

/-! ## steps -/

namespace Reader

/-- An action of a reader. It goes on from any token but the end of input, and looks ahead from identifiers. -/
inductive Step : Reader → Action → Reader → Prop
  | drawn {r r' : Reader} :
    r.current.value ≠ .endOfInput → r.ahead = none → Reading.advance r = .ok () r' → Step r (.drawn r'.current) r'
  | moved {r r' : Reader} {t : Located Token} :
    r.current.value ≠ .endOfInput → r.ahead = some t → Reading.advance r = .ok () r' → Step r (.moved t) r'
  | peeked {r r' : Reader} {name : String} {t : Located Token} :
    r.current.value = .identifier name → r.ahead = none → Reading.peek r = .ok t.value r' → r'.ahead = some t →
    Step r (.peeked t) r'
  | refused {r r' : Reader} {fault : Fault} :
    r.current.value ≠ .endOfInput → Reading.advance r = .error fault r' → Step r (.refused fault) r'
  | refusedAhead {r r' : Reader} {name : String} {fault : Fault} :
    r.current.value = .identifier name → Reading.peek r = .error fault r' → Step r (.refused fault) r'

/-- A way from one reader to another: its actions in turn, whatever the depth is in between. -/
inductive Walk : Reader → List Action → Reader → Prop
  | nil (r : Reader) : Walk r [] r
  | cons {r r' r'' : Reader} {a : Action} {log : List Action} :
    Step r a r' → Walk r' log r'' → Walk r (a :: log) r''
  | atDepth {r r' : Reader} {log : List Action} (d : Nat) : Walk (r.atDepth d) log r' → Walk r log r'

def Finished (r : Reader) : Prop :=
  r.current.value = .endOfInput ∨ ∃ found ∈ r.ahead, found.value = .endOfInput

/-- What the log of a reader of the feed says of where the reader is. -/
structure Accounts (f : Feed) (log : List Action) (r : Reader) : Prop where
  /-- Every token of the feed has become the current one in turn, or it is ahead. -/
  tokens : Action.arrivals log ++ r.ahead.toList = Answer.tokens (Action.answers log)
  current : (⟨.start, .newline⟩ :: Action.arrivals log).getLast? = some r.current
  feed : f.take (Action.answers log).length = (Action.answers log, r.feed)
  ahead : r.ahead ≠ none → ∃ name, r.current.value = .identifier name
  finished : ∀ p, .ok ⟨p, .endOfInput⟩ ∈ Action.answers log → r.Finished
  /-- Nothing is asked behind the end of input. -/
  ended : ∀ p before behind, Action.answers log = before ++ .ok ⟨p, .endOfInput⟩ :: behind → behind = []

section
variable {r r' r'' : Reader} {a : Action} {log log' : List Action} {f : Feed} {fault : Fault}

theorem Step.cases (h : r.Step a r') : r.current.value ≠ .endOfInput ∧
    ((∃ t, a = .moved t ∧ r.ahead = some t ∧ r' = { r with current := t, ahead := none }) ∨
      r.ahead = none ∧
        ((∃ t, a = .drawn t ∧ r.feed.next.1 = .ok t ∧ r' = { r with current := t, feed := r.feed.next.2 }) ∨
          (∃ t name, a = .peeked t ∧ r.feed.next.1 = .ok t ∧ r.current.value = .identifier name ∧
            r' = { r with ahead := some t, feed := r.feed.next.2 }) ∨
          ∃ fault, a = .refused fault ∧ r.feed.next.1 = .error fault ∧ r' = { r with feed := r.feed.next.2 })) := by
  cases h with
  | drawn ht hahead hadvance =>
    obtain ⟨t, h, -⟩ | ⟨-, t, hnext, rfl⟩ := Reading.advance_eq_ok.mp hadvance
    · rw [hahead] at h
      cases h
    · exact ⟨ht, .inr ⟨hahead, .inl ⟨t, rfl, hnext, rfl⟩⟩⟩
  | moved ht hahead hadvance =>
    obtain ⟨t, h, rfl⟩ | ⟨h, -⟩ := Reading.advance_eq_ok.mp hadvance
    · cases hahead.symm.trans h
      exact ⟨ht, .inl ⟨_, rfl, h, rfl⟩⟩
    · cases hahead.symm.trans h
  | peeked hname hahead hpeek hfound =>
    obtain ⟨r₁, hadvance, -, rfl⟩ := Reading.peek_eq_ok.mp hpeek
    obtain ⟨t, h, -⟩ | ⟨-, t, hnext, rfl⟩ := Reading.advance_eq_ok.mp hadvance
    · cases hahead.symm.trans h
    · cases hfound
      exact ⟨by simp [hname], .inr ⟨hahead, .inr (.inl ⟨t, _, rfl, hnext, hname, rfl⟩)⟩⟩
  | refused ht hadvance =>
    obtain ⟨hahead, hdraw⟩ := Reading.advance_eq_error.mp hadvance
    obtain ⟨hnext, rfl⟩ := Reading.draw_eq_error.mp hdraw
    exact ⟨ht, .inr ⟨hahead, .inr (.inr ⟨_, rfl, hnext, rfl⟩)⟩⟩
  | refusedAhead hname hpeek =>
    obtain ⟨hahead, hdraw⟩ := Reading.peek_eq_error.mp hpeek
    obtain ⟨hnext, rfl⟩ := Reading.draw_eq_error.mp hdraw
    exact ⟨by simp [hname], .inr ⟨hahead, .inr (.inr ⟨_, rfl, hnext, rfl⟩)⟩⟩

theorem Walk.append (h : r.Walk log r') (h' : r'.Walk log' r'') : r.Walk (log ++ log') r'' := by
  induction h with
  | nil r => exact h'
  | cons hstep _ ih => exact .cons hstep (ih h')
  | atDepth d _ ih => exact .atDepth d (ih h')

theorem Walk.split (h : r.Walk (log ++ log') r'') : ∃ r', r.Walk log r' ∧ r'.Walk log' r'' := by
  generalize hwhole : log ++ log' = whole at h
  induction h generalizing log with
  | nil r =>
    obtain ⟨rfl, rfl⟩ := List.append_eq_nil_iff.mp hwhole
    exact ⟨r, .nil r, .nil r⟩
  | @cons r r₁ r'' a whole hstep hwalk ih =>
    cases log with
    | nil =>
      obtain rfl : log' = a :: whole := hwhole
      exact ⟨r, .nil r, .cons hstep hwalk⟩
    | cons b log =>
      obtain ⟨rfl, rfl⟩ := List.cons.inj hwhole
      obtain ⟨r', hfront, hback⟩ := ih rfl
      exact ⟨r', .cons hstep hfront, hback⟩
  | atDepth d _ ih =>
    obtain ⟨r', hfront, hback⟩ := ih hwhole
    exact ⟨r', .atDepth d hfront, hback⟩

theorem Walk.leave (h : r.Walk log r') (d : Nat) : r.Walk log (r'.atDepth d) := by
  have := h.append (.atDepth d (.nil (r'.atDepth d)))
  rwa [List.append_nil] at this

theorem Step.walk (h : r.Step a r') : r.Walk [a] r' := .cons h (.nil r')

theorem Accounts.nil (f : Feed) : (ofFeed f).Accounts f [] where
  tokens := rfl
  current := rfl
  feed := rfl
  ahead h := absurd rfl h
  finished p h := by simp [Action.answers] at h
  ended p before behind h := by simp [Action.answers] at h

theorem Accounts.current_concat (h : r.Accounts f log) (hcurrent : a.arrival?.getD r.current = r'.current) :
    (⟨.start, .newline⟩ :: Action.arrivals (log ++ [a])).getLast? = some r'.current := by
  rw [Action.arrivals_concat, ← hcurrent]
  cases a.arrival? with
  | none => simpa using h.current
  | some t =>
    rw [← List.cons_append]
    exact List.getLast?_concat

theorem Accounts.asked (h : r.Accounts f log) (ht : r.current.value ≠ .endOfInput) (ha : r.ahead = none)
    (hanswer : a.answer? = some r.feed.next.1) (hfeed : r'.feed = r.feed.next.2)
    (htokens : a.arrival?.toList ++ r'.ahead.toList = Answer.tokens [r.feed.next.1])
    (hcurrent : a.arrival?.getD r.current = r'.current)
    (hahead : r'.ahead ≠ none → ∃ name, r'.current.value = .identifier name)
    (hfinished : ∀ p, r.feed.next.1 = .ok ⟨p, .endOfInput⟩ → r'.Finished) : r'.Accounts f (log ++ [a]) := by
  have hanswers : Action.answers (log ++ [a]) = Action.answers log ++ [r.feed.next.1] := by
    rw [Action.answers_concat, hanswer]
    rfl
  have hbefore (p : Position) : .ok ⟨p, .endOfInput⟩ ∉ Action.answers log := by
    intro hp
    rcases h.finished p hp with hend | ⟨t, hmem, -⟩
    · exact ht hend
    · rw [ha] at hmem
      contradiction
  refine ⟨?_, h.current_concat hcurrent, ?_, hahead, ?_, ?_⟩
  · rw [hanswers, Action.arrivals_concat, Answer.tokens_append, ← h.tokens, ha, List.append_assoc, htokens]
    simp
  · rw [hanswers, List.length_append, List.length_singleton, Feed.take_add, h.feed, hfeed]
    rfl
  · intro p hp
    rw [hanswers, List.mem_append, List.mem_singleton] at hp
    exact hfinished p (hp.resolve_left (hbefore p)).symm
  · intro p before behind hsplit
    rcases List.eq_nil_or_concat behind with hnil | ⟨front, last, rfl⟩
    · exact hnil
    · rw [hanswers, List.concat_eq_append, ← List.cons_append, ← List.append_assoc] at hsplit
      have hlog := (List.append_inj' hsplit rfl).1
      exact absurd (hlog ▸ by simp) (hbefore p)

theorem Accounts.step (h : r.Accounts f log) (hstep : r.Step a r') : r'.Accounts f (log ++ [a]) := by
  obtain ⟨ht, ⟨t, rfl, ha, rfl⟩ | ⟨ha, hasked⟩⟩ := hstep.cases
  · have hanswers : Action.answers (log ++ [.moved t]) = Action.answers log := by
      rw [Action.answers_concat]
      exact List.append_nil _
    refine ⟨?_, h.current_concat rfl, by rw [hanswers, h.feed], fun hne => absurd rfl hne, ?_, hanswers ▸ h.ended⟩
    · rw [hanswers, Action.arrivals_concat, ← h.tokens, ha]
      exact List.append_nil _
    · intro p hp
      rw [hanswers] at hp
      rcases h.finished p hp with hend | ⟨t', hmem, hend⟩
      · exact absurd hend ht
      · cases ha.symm.trans hmem
        exact .inl hend
  · rcases hasked with ⟨t, rfl, hnext, rfl⟩ | ⟨t, name, rfl, hnext, hname, rfl⟩ | ⟨fault, rfl, hnext, rfl⟩
    · refine h.asked ht ha (congrArg some hnext.symm) rfl ?_ rfl (fun hne => absurd ha hne) fun p hp => ?_
      · rw [hnext, ha]
        rfl
      · cases hnext.symm.trans hp
        exact .inl rfl
    · refine h.asked ht ha (congrArg some hnext.symm) rfl ?_ rfl (fun _ => ⟨name, hname⟩) fun p hp => ?_
      · rw [hnext]
        rfl
      · cases hnext.symm.trans hp
        exact .inr ⟨_, rfl, rfl⟩
    · refine h.asked ht ha (congrArg some hnext.symm) rfl ?_ rfl h.ahead fun p hp => ?_
      · rw [hnext, ha]
        rfl
      · cases hnext.symm.trans hp

theorem Accounts.atDepth (h : r.Accounts f log) (d : Nat) : (r.atDepth d).Accounts f log :=
  ⟨h.tokens, h.current, h.feed, h.ahead, h.finished, h.ended⟩

theorem Accounts.walk (h : r.Accounts f log) (hwalk : r.Walk log' r') : r'.Accounts f (log ++ log') := by
  induction hwalk generalizing log with
  | nil r =>
    rw [List.append_nil]
    exact h
  | @cons r r₁ r' a log' hstep _ ih =>
    have := ih (h.step hstep)
    rwa [List.append_assoc] at this
  | atDepth d _ ih => exact ih (h.atDepth d)

end

end Reader

end GraphicScore
