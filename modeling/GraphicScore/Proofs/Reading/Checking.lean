import GraphicScore.Proofs.Grammar.Calls
import GraphicScore.Proofs.Reading.Agreement

/-!
# Calls that have been checked

A reader that has got somewhere has been admitted every converter on the way. A run that is refused a converter
stands in front of the first call that is not admitted, and it is enough to follow this run beside itself.
-/

namespace GraphicScore

/-- The tokens lead up to the place, and the converters that they call are admitted. -/
structure Cleared (config : Config) (w : List (Located Token)) (p : Place (Located Token)) : Prop where
  along : Place.idle.along Located.value w = p
  admitted : ∀ t ∈ calls w, config.admits t.value.text = true

/-- The feed answers with a call that is not admitted behind tokens with none of that kind. -/
structure Feed.Refuses (config : Config) (f : Feed) (position : Position) (name : String) : Prop where
  callee : pFieldDigits? name = none
  refused : config.admits name = false
  answers : ∃ w opening f', f.Answers (w ++ [⟨position, .identifier name⟩, opening]) f' ∧
    opening.value = .openParen ∧ Cleared config w .due

def Cause.isRefusal : Cause → Bool
  | .unknownConverter _ => true
  | _ => false

theorem Cause.isRefusal_of_isPlain {cause : Cause} (h : cause.isPlain = true) : cause.isRefusal = false := by
  cases cause <;> first | rfl | contradiction

/-- Why a reading fails: the feed's fault, one that is no refusal, or the first call that is not admitted. -/
inductive Feed.Explains (config : Config) (f : Feed) : Fault → Prop
  | answered {fault : Fault} {w : List (Located Token)} {f' : Feed} :
    f.Answers w f' → f'.next.1 = .error fault → Explains config f fault
  | other {position : Position} {cause : Cause} : cause.isRefusal = false → Explains config f ⟨position, cause⟩
  | refused {position : Position} {name : String} :
    f.Refuses config position name → Explains config f ⟨position, .unknownConverter name⟩

section
variable (config : Config) (f : Feed)

def Reader.At (p : Place (Located Token)) (r : Reader) : Prop :=
  ∃ w, Cleared config w p ∧ f.Answers (w ++ r.current :: r.ahead.toList) r.feed

structure Checked (p : Place (Located Token)) (r r' : Reader) : Prop where
  eq : r = r'
  at_right : r'.At config f p

abbrev Checks {α : Type} (Q : α → Reader → Reader → Prop) :
    EStateM.Result Fault Reader α → EStateM.Result Fault Reader α → Prop :=
  Outcomes (fun fault _ fault' _ => fault = fault' ∧ f.Explains config fault') (fun _ => False) Q

end

section
variable {config : Config} {f : Feed} {w : List (Located Token)} {p : Place (Located Token)} {t : Located Token}
  {r : Reader}

theorem Cleared.nil : Cleared config [] .idle := ⟨rfl, List.forall_mem_nil _⟩

theorem Cleared.concat (h : Cleared config w p)
    (hcalled : ∀ name ∈ p.called Located.value t, config.admits name.value.text = true) :
    Cleared config (w ++ [t]) (p.after Located.value t) where
  along := by rw [Place.along_append, h.along]; rfl
  admitted := by
    rw [calls, Place.callsFrom_append, h.along, Place.callsFrom_cons, Place.callsFrom_nil, List.append_nil]
    exact List.forall_mem_append.mpr ⟨h.admitted, hcalled⟩

/-! ## moving on -/

namespace Reading

theorem draw_of_answers (config : Config) (action : Located Token → Action) (h : f.Answers w r.feed) :
    (∃ t f', draw action r = .ok t { r with feed := f' } ∧ f.Answers (w ++ [t]) f') ∨
      ∃ fault r', draw action r = .error fault r' ∧ f.Explains config fault := by
  unfold draw
  cases hnext : r.feed.next with
  | mk answer later =>
    cases answer with
    | ok t => exact .inl ⟨t, later, rfl, h.concat hnext⟩
    | error fault => exact .inr ⟨fault, _, rfl, .answered h (congrArg Prod.fst hnext)⟩

theorem checks_advance (h : r.At config f p)
    (hcalled : ∀ name ∈ p.called Located.value r.current, config.admits name.value.text = true) :
    Checks config f (fun _ => Checked config f (p.after Located.value r.current)) (advance r) (advance r) := by
  obtain ⟨current, ahead, feed, depth, notes⟩ := r
  obtain ⟨w, hw, hanswers⟩ := h
  rw [advance, get_bind]
  cases ahead with
  | some found => exact .ok ⟨rfl, w ++ [current], hw.concat hcalled, by simpa using hanswers⟩
  | none =>
    rcases draw_of_answers config .drawn hanswers with ⟨t, f', hdraw, hanswers⟩ | ⟨fault, r', hdraw, hfault⟩
    · simp only [bind_of_ok hdraw]
      exact .ok ⟨rfl, w ++ [current], hw.concat hcalled, by simpa using hanswers⟩
    · simp only [bind_of_error hdraw]
      exact .error ⟨rfl, hfault⟩

theorem checks_peek (h : r.At config f p) : Checks config f (fun _ => Checked config f p) (peek r) (peek r) := by
  obtain ⟨current, ahead, feed, depth, notes⟩ := r
  obtain ⟨w, hw, hanswers⟩ := h
  rw [peek, get_bind]
  cases ahead with
  | some found => exact .ok ⟨rfl, w, hw, hanswers⟩
  | none =>
    rcases draw_of_answers config .peeked hanswers with ⟨found, f', hdraw, hanswers⟩ | ⟨fault, r', hdraw, hfault⟩
    · simp only [bind_of_ok hdraw]
      exact .ok ⟨rfl, w, hw, by simpa using hanswers⟩
    · simp only [bind_of_error hdraw]
      exact .error ⟨rfl, hfault⟩

end Reading

theorem Place.called_of_ne (h : t.value ≠ .openParen) : p.called Located.value t = [] := by
  cases p <;> simp [Place.called, h]

theorem checks_opening (h : r.At config f p) (hdue : p.after Located.value r.current = .due)
    (hcalled : ∀ name ∈ p.called Located.value r.current, config.admits name.value.text = true) :
    Checks config f (fun _ => Checked config f .due)
      ((Reading.advance >>= fun _ => Reading.enter >>= fun _ => Reading.skipNewlines) r)
      ((Reading.advance >>= fun _ => Reading.enter >>= fun _ => Reading.skipNewlines) r) := by
  refine (Reading.checks_advance h hcalled).bind fun _ s s' hs => ?_
  obtain ⟨rfl, hs⟩ := hs
  rw [hdue] at hs
  have hdeeper : Checked config f .due (s.atDepth (s.depth + 1)) (s.atDepth (s.depth + 1)) := ⟨rfl, hs⟩
  have hnewline (t t' : Reader) (ht : Checked config f .due t t') (hvalue : t'.current.value = .newline) :
      Checks config f (fun _ => Checked config f .due) (Reading.advance t) (Reading.advance t') := by
    obtain ⟨rfl, ht⟩ := ht
    have hafter : Place.due.after Located.value t.current = .due := by simp [Place.after, hvalue]
    have hadvance := Reading.checks_advance ht (by simp [Place.called])
    rwa [hafter] at hadvance
  refine (Outcomes.skipNewlines ?_ ?_ hnewline hdeeper).imp fun _ _ _ _ ht => ht.1
  · exact fun _ _ ht => by rw [ht.eq]
  · exact fun _ _ ht => by rw [ht.eq]

variable (config f)

/-- One run beside itself, with what it has been admitted. -/
def Lockstep.checking : Lockstep Unit config config where
  toStricter := .same config
  tokens := Eq
  readers _ := Eq
  At := Reader.At config f
  faults _ fault _ fault' _ := fault = fault' ∧ f.Explains config fault'
  value_eq := @Located.value_congr
  current h := congrArg _ h
  length_eq h := congrArg (·.remaining.length) h
  depth_eq h := congrArg _ h
  plain := by
    rintro _ r _ t _ cause rfl rfl hcause
    exact ⟨rfl, .other (Cause.isRefusal_of_isPlain hcause)⟩
  unterminated := by
    rintro _ r _ o _ rfl rfl -
    exact ⟨rfl, .other rfl⟩
  unknown := by
    rintro _ r _ name found rfl ⟨w, hw, hanswers⟩ hcurrent hname hahead hfound hrefused
    refine ⟨rfl, .refused ⟨hname, hrefused, ?_⟩⟩
    have htoken : r.current = ⟨r.current.position, .identifier name⟩ := by rw [← hcurrent]
    rw [htoken, Option.mem_def.mp hahead] at hanswers
    exact ⟨w, found, r.feed, hanswers, hfound, hw⟩
  advance := by
    rintro _ p r _ rfl hp - hopen
    refine (Reading.checks_advance hp ?_).imp fun _ _ _ _ hs => ⟨hs.eq, hs.at_right⟩
    simp [Place.called_of_ne hopen]
  peek := by
    rintro _ p r _ name rfl hp -
    exact (Reading.checks_peek hp).imp fun _ _ _ _ hs => ⟨hs.eq, hs.at_right⟩
  opening := by
    rintro _ p r _ rfl hp - hdue hcalled
    exact (checks_opening hp hdue hcalled).imp fun _ _ _ _ hs => ⟨hs.eq, hs.at_right⟩
  readers_leave := by
    rintro _ r _ rfl
    rfl
  at_leave h := h
  faults_leave h := h

variable {config f} {r' : Reader} {fault : Fault}

theorem explains_of_score (hr : r.At config f .idle) (h : Reading.score config r = .error fault r') :
    f.Explains config fault := by
  have hscore : (Lockstep.checking config f).Agree 0 _ (Reading.score config) (Reading.score config) _ :=
    Reading.agree_score
  have houtcome := hscore r r rfl hr
  rw [h] at houtcome
  cases houtcome with
  | error hfault => exact hfault.2
  | refused hrefused => exact hrefused.elim

end

end GraphicScore
