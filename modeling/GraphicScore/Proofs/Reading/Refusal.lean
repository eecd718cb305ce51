import GraphicScore.Proofs.Reading.Simulation

/-!
# A stricter config

Under a config that admits fewer converters a score is read as before, unless it is refused one of the
converters that are admitted no more.
-/

namespace GraphicScore

section
variable {config config' : Config}

def Stricter.admitting (h : ∀ name, config'.admits name = true → config.admits name = true) :
    Stricter config config' where
  refuses fault := ∃ name, fault.value = .unknownConverter name ∧ config.admits name = true ∧
    config'.admits name = false
  admits := h _
  refused hname hname' := ⟨_, rfl, hname, hname'⟩

/-- The same run under a config that admits no more converters. -/
def Simulation.stricter (h : ∀ name, config'.admits name = true → config.admits name = true) :
    Simulation config config' where
  toStricter := .admitting h
  tokens := Eq
  feeds := Eq
  faults := Eq
  value_eq := @Located.value_congr
  length_eq h := congrArg (·.upcoming.length) h
  next := by
    rintro f _ rfl
    generalize f.next = step
    obtain ⟨answer, later⟩ := step
    cases answer with
    | ok t => exact .ok rfl rfl
    | error fault => exact .error rfl
  found := by
    rintro t _ cause rfl - -
    rfl
  unterminated := by
    rintro t _ o _ rfl rfl -
    rfl

theorem parse_stricter (h : ∀ name, config'.admits name = true → config.admits name = true) (source : String) :
    parse source config' = parse source config ∨
      ∃ position name, config.admits name = true ∧ config'.admits name = false ∧
        parse source config' = .error ⟨position, .unknownConverter name⟩ := by
  have hfeeds : (Simulation.stricter h).feeds (.ofString source) (.ofString source) := rfl
  have houtcome := Reading.score_of_feeds hfeeds
  unfold parse Reader.parse
  generalize Reading.score config (.ofFeed (.ofString source)) = x,
    Reading.score config' (.ofFeed (.ofString source)) = y at houtcome
  cases houtcome with
  | ok _ => exact .inl rfl
  | error hfault => exact .inl (congrArg Except.error (Eq.symm hfault))
  | @refused _ fault r hrefused =>
    obtain ⟨position, cause⟩ := fault
    obtain ⟨name, rfl, hname, hname'⟩ := hrefused
    exact .inr ⟨position, name, hname, hname', rfl⟩

end

end GraphicScore
