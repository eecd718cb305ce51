import GraphicScore.Proofs.Reading.Passing

/-!
# Repetition

A step that goes on has moved, so what remains is fuel enough: a loop is unfolded by its steps, and
its fuel is never seen again.
-/

namespace GraphicScore

namespace Reading

section
variable {σ : Type} {I : Reader → Prop} {step : σ → Reading (ForInStep σ)} {r r' : Reader} {s s' : σ}

/-- A step that goes on has moved, at least from where the invariant holds, and it keeps the invariant. -/
def Moves (I : Reader → Prop) (step : σ → Reading (ForInStep σ)) : Prop :=
  ∀ s r s' r', I r → step s r = .ok (.yield s') r' → I r' ∧ r'.size < r.size

theorem loopWithin_cons {answer : Answer} {fuel : List Answer} :
    loopWithin step (answer :: fuel) s r =
      match step s r with
      | .ok (.done s) r => .ok s r
      | .ok (.yield s) r => loopWithin step fuel s r
      | .error fault r => .error fault r := by
  show EStateM.bind _ _ r = _
  unfold EStateM.bind
  cases step s r with
  | ok next r => cases next <;> rfl
  | error fault r => rfl

theorem loopWithin_nil :
    loopWithin step [] s r =
      match step s r with
      | .ok (.done s) r => .ok s r
      | .ok (.yield s) r => .ok s r
      | .error fault r => .error fault r := by
  show EStateM.bind _ _ r = _
  unfold EStateM.bind
  cases step s r with
  | ok next r => cases next <;> rfl
  | error fault r => rfl

theorem loopWithin_congr (moves : Moves I step) {fuel fuel' : List Answer} (hi : I r)
    (h : r.size ≤ fuel.length) (h' : r.size ≤ fuel'.length) :
    loopWithin step fuel s r = loopWithin step fuel' s r := by
  induction fuel generalizing fuel' s r with
  | nil =>
    cases fuel' with
    | nil => rfl
    | cons answer fuel' =>
      rw [loopWithin_nil, loopWithin_cons]
      split
      -- a step that goes on makes the reader smaller, and there is no room for that
      case h_2 s₁ r₁ e =>
        have := (moves _ _ _ _ hi e).2
        simp only [List.length_nil] at h
        omega
      all_goals rfl
  | cons answer fuel ih =>
    cases fuel' with
    | nil =>
      rw [loopWithin_nil, loopWithin_cons]
      split
      case h_2 s₁ r₁ e =>
        have := (moves _ _ _ _ hi e).2
        simp only [List.length_nil] at h'
        omega
      all_goals rfl
    | cons answer' fuel' =>
      rw [loopWithin_cons, loopWithin_cons]
      split
      case h_2 s₁ r₁ e =>
        obtain ⟨hi₁, hm⟩ := moves _ _ _ _ hi e
        simp only [List.length_cons] at h h'
        exact ih hi₁ (by omega) (by omega)
      all_goals rfl

theorem loop_eq (moves : Moves I step) (hi : I r) :
    loop step s r =
      match step s r with
      | .ok (.done s) r => .ok s r
      | .ok (.yield s) r => loop step s r
      | .error fault r => .error fault r := by
  rw [loop, get_bind]
  cases hr : r.remaining with
  | nil => cases hr
  | cons answer later =>
    rw [loopWithin_cons]
    split
    case h_2 s₁ r₁ e =>
      obtain ⟨hi₁, hm⟩ := moves _ _ _ _ hi e
      have hl := hr ▸ r.size_le_length
      simp only [List.length_cons] at hl
      rw [loop, get_bind]
      exact loopWithin_congr moves hi₁ (by omega) r₁.size_le_length
    all_goals rfl

/-- What holds of the last step, and of a loop if it holds of the loop behind its first step. -/
theorem loop_induction (moves : Moves I step) {P : σ → Reader → Prop}
    (done : ∀ s r, I r → step s r = .ok (.done s') r' → P s r)
    (yield : ∀ s r s₁ r₁, I r → step s r = .ok (.yield s₁) r₁ → P s₁ r₁ → P s r)
    (hi : I r) (h : loop step s r = .ok s' r') : P s r := by
  induction hk : r.size using Nat.strongRecOn generalizing s r with
  | ind k ih =>
    rw [loop_eq moves hi] at h
    split at h
    case h_1 s₁ r₁ e =>
      cases h
      exact done s r hi e
    case h_2 s₁ r₁ e =>
      obtain ⟨hi₁, hm⟩ := moves _ _ _ _ hi e
      exact yield s r s₁ r₁ hi e (ih r₁.size (by omega) hi₁ h rfl)
    case h_3 => cases h

theorem loop_of_done (moves : Moves I step) (hi : I r) (h : step s r = .ok (.done s') r') :
    loop step s r = .ok s' r' := by
  rw [loop_eq moves hi, h]

theorem loop_of_yield (moves : Moves I step) (hi : I r) (h : step s r = .ok (.yield s') r') :
    loop step s r = loop step s' r' := by
  rw [loop_eq moves hi, h]

theorem loop_of_error {fault : Fault} (moves : Moves I step) (hi : I r) (h : step s r = .error fault r') :
    loop step s r = .error fault r' := by
  rw [loop_eq moves hi, h]

end

/-! ## skipping -/

section
variable {p : Token → Bool} {r r' : Reader} {u : Unit}

theorem skipStep_eq_yield {s s' : Unit} :
    skipStep p s r = .ok (.yield s') r' ↔ p r.current.value = true ∧ advance r = .ok () r' := by
  rw [skipStep, token_bind]
  cases p r.current.value with
  | false => simp
  | true =>
    rw [if_pos rfl]
    simp only [bind_eq_ok, pure_eq_ok, true_and]
    exact ⟨fun ⟨_, _, h, e⟩ => e ▸ h, fun h => ⟨(), r', h, rfl⟩⟩

theorem skipStep_eq_done {s s' : Unit} :
    skipStep p s r = .ok (.done s') r' ↔ p r.current.value = false ∧ r = r' := by
  rw [skipStep, token_bind]
  cases p r.current.value <;> simp [map_eq_ok]

theorem moves_skipStep (hp : p .endOfInput = false) : Moves (fun _ => True) (skipStep p) := by
  intro s r s' r' _ h
  obtain ⟨ht, hm⟩ := skipStep_eq_yield.mp h
  exact ⟨trivial, Reader.size_lt_of_advance hm fun e => by simp [e, hp] at ht⟩

theorem skipWhile_of_passes {w : List Token} (hp : p .endOfInput = false) (hall : ∀ t ∈ w, p t = true)
    (h : r.Passes w r') : skipWhile p r = skipWhile p r' := by
  induction h with
  | nil r => rfl
  | cons hm _ ih =>
    obtain ⟨ht, hall⟩ := List.forall_mem_cons.mp hall
    rw [← ih hall]
    exact loop_of_yield (moves_skipStep hp) trivial (skipStep_eq_yield.mpr ⟨ht, hm⟩)

theorem skipWhile_eq_ok (hp : p .endOfInput = false) :
    skipWhile p r = .ok u r' ↔
      ∃ w, r.Passes w r' ∧ (∀ t ∈ w, p t = true) ∧ p r'.current.value = false := by
  have moves := moves_skipStep hp
  constructor
  · refine loop_induction (P := fun _ r => ∃ w, r.Passes w r' ∧ (∀ t ∈ w, p t = true) ∧
      p r'.current.value = false) moves ?_ ?_ trivial
    · intro s r _ h
      obtain ⟨ht, rfl⟩ := skipStep_eq_done.mp h
      exact ⟨[], .nil r, by simp, ht⟩
    · rintro s r s₁ r₁ _ h ⟨w, hw, hall, hstop⟩
      obtain ⟨ht, hm⟩ := skipStep_eq_yield.mp h
      exact ⟨r.current.value :: w, .cons hm hw, List.forall_mem_cons.mpr ⟨ht, hall⟩, hstop⟩
  · intro h
    obtain ⟨w, hw, hall, hstop⟩ := h
    rw [skipWhile_of_passes hp hall hw]
    exact loop_of_done moves trivial (skipStep_eq_done.mpr ⟨hstop, rfl⟩)

theorem size_le_of_skipWhile (hp : p .endOfInput = false) (h : skipWhile p r = .ok u r') : r'.size ≤ r.size := by
  obtain ⟨w, hw, -, -⟩ := (skipWhile_eq_ok hp).mp h
  exact hw.size_le

end

end Reading

end GraphicScore
