import GraphicScore.Proofs.Reading.Simulation

/-!
# Where faults are

A fault of a score is one that the feed answers with, or it blames the place of a token that the feed has
answered with before. So it is enough to follow one run, which is simulated by itself.
-/

namespace GraphicScore

/-- The feed answers with some of the tokens, and if with a fault behind them, then with an expected one. -/
def Feed.Leads (ts : List (Located Token)) (expected : Fault → Prop) (f : Feed) : Prop :=
  ∃ (us : List (Located Token)) (rest : List Answer),
    f.upcoming ++ [f.ending] = us.map .ok ++ rest ∧ (∀ t ∈ us, t ∈ ts) ∧
      ∀ answer ∈ rest.head?, ∃ fault, answer = .error fault ∧ expected fault

/-- The fault is an expected one, or a reading has found it and blames one of the tokens. -/
def Fault.IsLocated (ts : List (Located Token)) (expected : Fault → Prop) (fault : Fault) : Prop :=
  expected fault ∨ fault.value.isLexical = false ∧ ∃ t ∈ ts, fault.position = t.position

section
variable {ts : List (Located Token)} {expected : Fault → Prop} {f : Feed} {fault : Fault}

theorem Feed.Leads.next (h : f.Leads ts expected) :
    (∃ t, f.next.1 = .ok t ∧ t ∈ ts ∧ f.next.2.Leads ts expected) ∨
      ∃ fault, f.next.1 = .error fault ∧ expected fault := by
  obtain ⟨upcoming, ending, unsettled, settled⟩ := f
  obtain ⟨us, rest, hanswers, hus, hrest⟩ := h
  cases us with
  | nil =>
    obtain ⟨answer, later, hlater⟩ := List.exists_cons_of_ne_nil (show rest ≠ [] by rintro rfl; simp at hanswers)
    subst hlater
    obtain ⟨fault, rfl, hfault⟩ := hrest _ rfl
    refine .inr ⟨fault, ?_, hfault⟩
    cases upcoming with
    | nil => exact (List.cons.inj hanswers).1
    | cons => exact (List.cons.inj hanswers).1
  | cons t us =>
    obtain ⟨ht, hus⟩ := List.forall_mem_cons.mp hus
    cases upcoming with
    | nil =>
      have hending : ending = .ok t := (List.cons.inj hanswers).1
      exact .inl ⟨t, hending, ht, [t], [], by simp [next, hending], by simpa using ht, by simp⟩
    | cons answer later =>
      obtain ⟨rfl, hlater⟩ := List.cons.inj hanswers
      exact .inl ⟨t, rfl, ht, us, rest, hlater, hus, hrest⟩

end

section
variable (config : Config) (ts : List (Located Token)) (expected : Fault → Prop)

def Simulation.located : Simulation config config where
  toStricter := .same config
  tokens t t' := t = t' ∧ t ∈ ts
  feeds f f' := f = f' ∧ f.Leads ts expected
  faults fault fault' := fault = fault' ∧ fault.IsLocated ts expected
  value_eq h := congrArg _ h.1
  length_eq h := congrArg (·.upcoming.length) h.1
  next := by
    rintro f _ ⟨rfl, h⟩
    have hnext := h.next
    generalize f.next = step at hnext
    obtain ⟨answer, later⟩ := step
    rcases hnext with ⟨t, rfl, ht, hlater⟩ | ⟨fault, rfl, hfault⟩
    · exact .ok ⟨rfl, ht⟩ ⟨rfl, hlater⟩
    · exact .error ⟨rfl, .inl hfault⟩
  found := by
    rintro t _ cause ⟨rfl, ht⟩ hcause -
    exact ⟨rfl, .inr ⟨hcause, t, ht, rfl⟩⟩
  unterminated := by
    rintro t _ o _ ⟨rfl, ht⟩ ⟨rfl, -⟩ -
    exact ⟨rfl, .inr ⟨rfl, t, ht, rfl⟩⟩

variable {config ts expected} {f : Feed} {fault : Fault}

theorem isLocated_of_score {r : Reader} (h : f.Leads ts expected)
    (hscore : Reading.score config (.ofFeed f) = .error fault r) : fault.IsLocated ts expected := by
  have houtcome := Reading.score_of_feeds (S := Simulation.located config ts expected) ⟨rfl, h⟩
  rw [hscore] at houtcome
  cases houtcome with
  | error hfault => exact hfault.2
  | refused hrefused => exact hrefused.elim

end

end GraphicScore
