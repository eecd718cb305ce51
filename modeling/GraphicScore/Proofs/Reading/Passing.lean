import GraphicScore.Proofs.Token.Feed
import GraphicScore.Reading.Basic

/-!
# Passing over tokens

What a reading that succeeds has moved over. `Passes` lists the tokens between two readers, and
`size` counts those that are left before the end of input.
-/

namespace GraphicScore

/-- A reading by itself notes nothing. -/
@[simp] theorem Reader.note_eq (r : Reader) (a : Action) : r.note a = r := rfl

/-! ## running a reading -/

namespace Reading

section
variable {ν α β : Type} {x : Recording ν α} {r r' r'' : Reader ν} {a : α} {b : β} {u : Unit}

theorem bind_eq_ok {f : α → Recording ν β} :
    (x >>= f) r = .ok b r'' ↔ ∃ a r', x r = .ok a r' ∧ f a r' = .ok b r'' := by
  show EStateM.bind x f r = _ ↔ _
  unfold EStateM.bind
  cases x r with
  | error fault r₁ => simp
  | ok a r₁ => exact ⟨fun h => ⟨a, r₁, rfl, h⟩, fun ⟨_, _, e, h⟩ => by cases e; exact h⟩

theorem bind_of_ok {f : α → Recording ν β} (h : x r = .ok a r') : (x >>= f) r = f a r' := by
  show EStateM.bind x f r = _
  simp [EStateM.bind, h]

theorem bind_of_error {f : α → Recording ν β} {fault : Fault} (h : x r = .error fault r') :
    (x >>= f) r = .error fault r' := by
  show EStateM.bind x f r = _
  simp [EStateM.bind, h]

theorem bind_congr_run {f : α → Recording ν β} (h : x r = x r') : (x >>= f) r = (x >>= f) r' := by
  show EStateM.bind x f r = EStateM.bind x f r'
  simp [EStateM.bind, h]

theorem pure_eq_ok {c : α} : (pure a : Recording ν α) r = .ok c r' ↔ a = c ∧ r = r' := by
  show EStateM.Result.ok a r = .ok c r' ↔ _
  simp

theorem map_eq_ok {g : α → β} : (g <$> x) r = .ok b r' ↔ ∃ a, x r = .ok a r' ∧ g a = b := by
  rw [← bind_pure_comp, bind_eq_ok]
  constructor
  · intro h
    obtain ⟨a, _, h, e⟩ := h
    obtain ⟨rfl, rfl⟩ := pure_eq_ok.mp e
    exact ⟨a, h, rfl⟩
  · intro h
    obtain ⟨a, h, rfl⟩ := h
    exact ⟨a, r', h, rfl⟩

@[simp] theorem get_bind {f : Reader ν → Recording ν β} : (get >>= f) r = f r r := rfl

@[simp] theorem current_bind {f : Located Token → Recording ν β} : (current >>= f) r = f r.current r := rfl

@[simp] theorem token_bind {f : Token → Recording ν β} : (token >>= f) r = f r.current.value r := rfl

@[simp] theorem pure_run : (pure a : Recording ν α) r = .ok a r := rfl

@[simp] theorem faultAt_ne_ok {position : Position} {cause : Cause} :
    (faultAt position cause : Recording ν α) r ≠ .ok a r' := by
  intro h
  cases h

@[simp] theorem fault_ne_ok {cause : Cause} : (fault cause : Recording ν α) r ≠ .ok a r' := by
  intro h
  cases h

@[simp] theorem unexpected_ne_ok {wanted : Wanted} :
    (unexpected wanted : Recording ν α) r ≠ .ok a r' := by
  intro h
  cases h

theorem require_eq_ok {holds : Bool} {cause : Cause} :
    require holds cause r = .ok u r' ↔ holds = true ∧ r = r' := by
  cases holds <;> simp [require]

theorem demand_eq_ok {wanted : Wanted} {accepts : Token → Bool} :
    demand wanted accepts r = .ok u r' ↔ accepts r.current.value = true ∧ r = r' := by
  rw [demand, token_bind]
  cases accepts r.current.value <;> simp

theorem expect_eq_ok [Record ν] {wanted : Wanted} {t : Token} :
    expect wanted t r = .ok u r' ↔ r.current.value = t ∧ advance r = .ok u r' := by
  simp only [expect, bind_eq_ok, demand_eq_ok, beq_iff_eq]
  constructor
  · intro h
    obtain ⟨_, _, ⟨ht, rfl⟩, h⟩ := h
    exact ⟨ht, h⟩
  · intro h
    obtain ⟨ht, h⟩ := h
    exact ⟨(), r, ⟨ht, rfl⟩, h⟩

theorem modify_eq_ok {g : Reader ν → Reader ν} : (modify g : Recording ν Unit) r = .ok u r' ↔ r' = g r := by
  show EStateM.Result.ok () (g r) = .ok u r' ↔ _
  simp [eq_comm]

end

section
variable {r r' : Reader} {u : Unit} {action : Located Token → Action}

theorem draw_eq_ok {found : Located Token} :
    draw action r = .ok found r' ↔ r.feed.next.1 = .ok found ∧ r' = { r with feed := r.feed.next.2 } := by
  unfold draw
  generalize r.feed.next = step
  obtain ⟨answer, feed⟩ := step
  cases answer <;> simp [eq_comm]

theorem advance_eq_ok :
    advance r = .ok u r' ↔
      (∃ found, r.ahead = some found ∧ r' = { r with current := found, ahead := none }) ∨
      (r.ahead = none ∧ ∃ found, r.feed.next.1 = .ok found ∧
        r' = { r with current := found, feed := r.feed.next.2 }) := by
  simp only [advance, get_bind]
  cases h : r.ahead with
  | some found => simp [modify_eq_ok]
  | none => simp [bind_eq_ok, draw_eq_ok, modify_eq_ok, and_assoc, h]

/-- Peeking is moving on and stepping back. -/
theorem peek_eq_ok {t : Token} :
    peek r = .ok t r' ↔
      ∃ r₁, advance r = .ok () r₁ ∧ t = r₁.current.value ∧
        r' = { r₁ with current := r.current, ahead := some r₁.current } := by
  obtain ⟨current, ahead, feed, depth, notes⟩ := r
  simp only [peek, get_bind, advance_eq_ok]
  cases ahead with
  | some found => simp [eq_comm]
  | none =>
    simp only [bind_eq_ok, draw_eq_ok, modify_eq_ok, pure_eq_ok]
    constructor
    · intro h
      obtain ⟨found, _, ⟨hn, rfl⟩, _, _, rfl, rfl, rfl⟩ := h
      exact ⟨_, .inr ⟨trivial, found, hn, rfl⟩, rfl, rfl⟩
    · intro h
      obtain ⟨_, ⟨_, e, _⟩ | ⟨_, found, hn, rfl⟩, rfl, rfl⟩ := h
      · cases e
      · exact ⟨found, _, ⟨hn, rfl⟩, (), _, rfl, rfl, rfl⟩

theorem depth_of_advance (h : advance r = .ok u r') : r'.depth = r.depth := by
  rcases advance_eq_ok.mp h with ⟨_, _, rfl⟩ | ⟨_, _, _, rfl⟩ <;> rfl

theorem advance_of_peek {t : Token} (h : peek r = .ok t r') :
    ∃ r₁, advance r = .ok () r₁ ∧ advance r' = .ok () r₁ ∧ t = r₁.current.value ∧
      r'.current = r.current ∧ r'.depth = r.depth := by
  obtain ⟨r₁, hm, ht, rfl⟩ := peek_eq_ok.mp h
  have hd := depth_of_advance hm
  refine ⟨r₁, hm, advance_eq_ok.mpr (.inl ⟨r₁.current, rfl, ?_⟩), ht, rfl, hd⟩
  rcases advance_eq_ok.mp hm with ⟨_, _, rfl⟩ | ⟨hn, _, _, rfl⟩
  · rfl
  · simp [hn]

theorem peek_of_advance (h : advance r = .ok () r') :
    ∃ r₁, peek r = .ok r'.current.value r₁ ∧ advance r₁ = .ok () r' ∧ r₁.current = r.current ∧
      r₁.depth = r.depth := by
  have hp := peek_eq_ok.mpr ⟨r', h, rfl, rfl⟩
  obtain ⟨_, hm, hm', _, hc, hd⟩ := advance_of_peek hp
  cases h.symm.trans hm
  exact ⟨_, hp, hm', hc, hd⟩

end

end Reading

/-! ## what is left -/

/-- Every answer counts but the end of input. -/
def Answer.counts : Answer → Bool
  | .ok found => found.value != .endOfInput
  | .error _ => true

namespace Reader

section
variable {ν : Type}

def atDepth (r : Reader ν) (d : Nat) : Reader ν := { r with depth := d }

def size (r : Reader ν) : Nat := r.remaining.countP Answer.counts

@[simp] theorem size_atDepth (r : Reader ν) (d : Nat) : (r.atDepth d).size = r.size := rfl

end

section
variable {r r' : Reader} {u : Unit}

theorem size_of_advance (h : Reading.advance r = .ok u r') :
    r.size = r'.size + if r.current.value = .endOfInput then 0 else 1 := by
  obtain ⟨current, ahead, feed, depth, notes⟩ := r
  rcases Reading.advance_eq_ok.mp h with ⟨found, rfl, rfl⟩ | ⟨rfl, found, hn, rfl⟩
  · simp [size, remaining, Answer.counts, List.countP_cons]
  · obtain ⟨upcoming, ending, unsettled, settled⟩ := feed
    cases upcoming with
    | nil =>
      cases hn
      simp [size, remaining, Answer.counts, Feed.next, List.countP_cons, Answer.settled_ok.mp settled]
    | cons answer later =>
      cases hn
      simp [size, remaining, Answer.counts, Feed.next, List.countP_cons]

theorem size_lt_of_advance (h : Reading.advance r = .ok u r') (ht : r.current.value ≠ .endOfInput) :
    r'.size < r.size := by
  have := size_of_advance h
  rw [if_neg ht] at this
  omega

theorem size_le_of_advance (h : Reading.advance r = .ok u r') : r'.size ≤ r.size :=
  size_of_advance h ▸ Nat.le_add_right _ _

theorem size_le_of_peek {t : Token} (h : Reading.peek r = .ok t r') : r'.size ≤ r.size := by
  obtain ⟨r₁, hadvance, -, rfl⟩ := Reading.peek_eq_ok.mp h
  have hahead : r₁.ahead = none := by
    rcases Reading.advance_eq_ok.mp hadvance with ⟨_, _, rfl⟩ | ⟨hnone, _, _, rfl⟩
    · rfl
    · exact hnone
  rw [size_of_advance hadvance]
  simp [size, remaining, hahead, Answer.counts, List.countP_cons]

theorem size_le_length (r : Reader) : r.size ≤ r.remaining.length := List.countP_le_length

end

/-- The second reader stands where the first gets to by moving over the tokens. -/
inductive Passes : Reader → List Token → Reader → Prop
  | nil (r : Reader) : Passes r [] r
  | cons {r r' r'' : Reader} {w : List Token} :
    Reading.advance r = .ok () r' → Passes r' w r'' → Passes r (r.current.value :: w) r''

section
variable {r r' r'' : Reader} {t : Token} {v w : List Token}

@[simp] theorem passes_nil : r.Passes [] r' ↔ r = r' := by
  constructor
  · intro h
    cases h
    rfl
  · rintro rfl
    exact .nil r

theorem passes_cons :
    r.Passes (t :: w) r'' ↔
      r.current.value = t ∧ ∃ r', Reading.advance r = .ok () r' ∧ r'.Passes w r'' := by
  constructor
  · intro h
    cases h
    exact ⟨rfl, _, ‹_›, ‹_›⟩
  · intro h
    obtain ⟨rfl, r', h, hw⟩ := h
    exact .cons h hw

theorem passes_append : r.Passes (v ++ w) r'' ↔ ∃ r', r.Passes v r' ∧ r'.Passes w r'' := by
  induction v generalizing r with
  | nil => simp
  | cons t v ih => simp only [List.cons_append, passes_cons, ih]; grind

theorem passes_singleton : r.Passes [t] r' ↔ r.current.value = t ∧ Reading.advance r = .ok () r' := by
  simp [passes_cons]

theorem Passes.size_le (h : r.Passes w r') : r'.size ≤ r.size := by
  induction h with
  | nil r => exact Nat.le_refl _
  | cons hm _ ih =>
    have := size_le_of_advance hm
    omega

theorem Passes.size_lt (h : r.Passes (t :: w) r') (ht : t ≠ .endOfInput) : r'.size < r.size := by
  obtain ⟨rfl, r₁, hm, hw⟩ := passes_cons.mp h
  exact Nat.lt_of_le_of_lt hw.size_le (size_lt_of_advance hm ht)

/-- Only the end of input is passed over again and again. -/
theorem Passes.eq_nil (h : r.Passes w r) (hr : r.current.value ≠ .endOfInput) : w = [] := by
  cases w with
  | nil => rfl
  | cons t w => exact absurd (h.size_lt ((passes_cons.mp h).1 ▸ hr)) (Nat.lt_irrefl _)

theorem Passes.word_unique (h : r.Passes v r') (h' : r.Passes w r') (hr : r'.current.value ≠ .endOfInput) :
    v = w := by
  induction h generalizing w with
  | nil r => exact (h'.eq_nil hr).symm
  | @cons r r₁ r' v hm hv ih =>
    cases w with
    | nil =>
      cases passes_nil.mp h'
      exact (Passes.cons hm hv).eq_nil hr
    | cons t w =>
      obtain ⟨rfl, _, hm', hw⟩ := passes_cons.mp h'
      cases hm.symm.trans hm'
      rw [ih hw hr]

theorem Passes.depth_eq (h : r.Passes w r') : r'.depth = r.depth := by
  induction h with
  | nil r => rfl
  | cons hm _ ih =>
    rw [ih, Reading.depth_of_advance hm]

theorem Passes.atDepth (h : r.Passes w r') (d : Nat) : (r.atDepth d).Passes w (r'.atDepth d) := by
  induction h with
  | nil r => exact .nil _
  | @cons r r₁ _ w hm _ ih =>
    refine .cons (r := r.atDepth d) ?_ ih
    apply Reading.advance_eq_ok.mpr
    rcases Reading.advance_eq_ok.mp hm with ⟨found, ha, rfl⟩ | ⟨ha, found, hn, rfl⟩
    · exact .inl ⟨found, ha, rfl⟩
    · exact .inr ⟨ha, found, hn, rfl⟩

end

end Reader

/-! ## depth -/

namespace Reading

section
variable {ν α : Type} {p : Recording ν α} {r r' : Reader ν} {a : α}

theorem enter_bind {f : Unit → Recording ν α} : (enter >>= f) r = f () (r.atDepth (r.depth + 1)) := rfl

theorem leaving_eq_ok : leaving p r = .ok a r' ↔ ∃ r₁, p r = .ok a r₁ ∧ r' = r₁.atDepth (r₁.depth - 1) := by
  unfold leaving
  cases p r with
  | ok b r₁ =>
    constructor
    · intro h
      cases h
      exact ⟨r₁, rfl, rfl⟩
    · intro h
      obtain ⟨_, ⟨⟩, rfl⟩ := h
      rfl
  | error fault r₁ => simp

end

end Reading

end GraphicScore
