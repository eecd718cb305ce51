import GraphicScore.Proofs.Reading.Chain
import GraphicScore.Proofs.Reading.Lockstep
import GraphicScore.Proofs.Reading.Walk

/-!
# Walks by depth

A reader that is refused a token keeps its depth, but for one place: on newlines right behind an opening
parenthesis it stays one parenthesis further in. How deep that place is makes no difference.
-/

namespace GraphicScore

/-! ## newlines behind an opening parenthesis -/

/-- The tokens end with newlines, right behind an opening parenthesis. -/
def Opening (path : List Token) : Prop :=
  ∃ front newlines, path = front ++ .openParen :: newlines ∧ newlines ≠ [] ∧ Newlines newlines

section
variable {t t' : Token} {path : List Token}

theorem not_opening_concat (ht : t ≠ .newline) : ¬ Opening (path ++ [t]) := by
  intro h
  obtain ⟨front, newlines, hpath, hne, hall⟩ := h
  obtain ⟨newlines, last, rfl⟩ := (List.eq_nil_or_concat newlines).resolve_left hne
  rw [List.concat_eq_append] at hpath hall
  rw [← List.cons_append, ← List.append_assoc] at hpath
  obtain rfl : t = last := List.singleton_inj.mp (List.append_inj' hpath rfl).2
  exact ht (hall t (by simp))

theorem not_opening_singleton : ¬ Opening [t] := by
  intro h
  obtain ⟨front, newlines, hpath, hne, -⟩ := h
  have hlength := congrArg List.length hpath
  have hpos := List.length_pos_iff.mpr hne
  simp only [List.length_append, List.length_cons, List.length_nil] at hlength
  omega

theorem not_opening_move (ht : t ≠ .openParen) (h : ¬ Opening (path ++ [t])) : ¬ Opening (path ++ [t] ++ [t']) := by
  intro hopening
  obtain ⟨front, newlines, hpath, hne, hall⟩ := hopening
  obtain ⟨newlines, last, rfl⟩ := (List.eq_nil_or_concat newlines).resolve_left hne
  rw [List.concat_eq_append] at hpath hall
  rw [← List.cons_append, ← List.append_assoc] at hpath
  have hfront := (List.append_inj' hpath rfl).1
  have newlines_of_all : Newlines newlines := fun t ht => hall t (List.mem_append_left _ ht)
  rcases List.eq_nil_or_concat newlines with rfl | ⟨_, _, rfl⟩
  · exact ht (List.singleton_inj.mp (List.append_inj' hfront rfl).2)
  · exact h ⟨front, _, hfront, by simp, newlines_of_all⟩

end

/-! ## walks -/

namespace Reader

/-- The tokens that are the current one in turn. -/
def path (r : Reader) (log : List Action) : List Token := (r.current :: Action.arrivals log).map Located.value

/-- The last action is the refusal of the fault, on newlines right behind an opening parenthesis. -/
def StopsOpening (r : Reader) (log : List Action) (fault : Fault) : Prop :=
  ∃ front, log = front ++ [.refused fault] ∧ Opening (r.path front)

/-- A way on which nothing is refused, some parentheses further in. -/
structure Proceeds (r : Reader) (d : Nat) (log : List Action) (r' : Reader) : Prop where
  walk : r.Walk log r'
  succeeds : ∀ action ∈ log, action.succeeds = true
  depth_eq : r'.depth = r.depth + d

/-- A way that does not end on newlines behind an opening parenthesis. -/
structure Reaches (r : Reader) (d : Nat) (log : List Action) (r' : Reader) : Prop extends r.Proceeds d log r' where
  closed : ¬ Opening (r.path log)

/-- A way that ends on newlines behind an opening parenthesis, which has not been counted yet. -/
structure Enters (r : Reader) (d : Nat) (log : List Action) (r' : Reader) : Prop extends r.Proceeds (d + 1) log r' where
  opened : ∃ front newlines, r.path log = front ++ .openParen :: newlines ++ [r'.current.value] ∧ Newlines newlines

/-- A way to a fault: only the last action may be refused, and is if the fault is about what is no token. -/
structure Fails (r : Reader) (d : Nat) (log : List Action) (fault : Fault) (r' : Reader) : Prop where
  walk : r.Walk log r'
  front : ∃ front, (∀ action ∈ front, action.succeeds = true) ∧ (log = front ∨ log = front ++ [.refused fault])
  lexical : fault.value.isLexical = true → ∃ front, log = front ++ [.refused fault]
  opened : r.StopsOpening log fault → r'.depth = r.depth + d + 1
  closed : ¬ r.StopsOpening log fault → r'.depth = r.depth + d

section
variable {r r₁ r' : Reader} {d : Nat} {a : Action} {log : List Action} {fault : Fault}

theorem path_concat : r.path (log ++ [a]) = r.path log ++ a.arrival?.toList.map Located.value := by
  unfold path
  rw [Action.arrivals_concat, ← List.cons_append, List.map_append]

theorem Step.current (h : r.Step a r') : r'.current = a.arrival?.getD r.current := by
  obtain ⟨-, ⟨t, rfl, -, rfl⟩ | ⟨-, ⟨t, rfl, -, rfl⟩ | ⟨t, name, rfl, -, -, rfl⟩ | ⟨fault, rfl, -, rfl⟩⟩⟩ :=
    h.cases <;> rfl

theorem Walk.exists_path (h : r.Walk log r') : ∃ front, r.path log = front ++ [r'.current.value] := by
  induction h with
  | nil r => exact ⟨[], rfl⟩
  | @cons r r₁ r' a log hstep _ ih =>
    obtain ⟨front, hfront⟩ := ih
    have hcurrent := hstep.current
    unfold path Action.arrivals at hfront ⊢
    cases ha : a.arrival? with
    | none => exact ⟨front, by simpa [ha, hcurrent] using hfront⟩
    | some t => exact ⟨r.current.value :: front, by simpa [ha, hcurrent] using hfront⟩
  | atDepth d _ ih => exact ih

theorem stopsOpening_concat : r.StopsOpening (log ++ [.refused fault]) fault ↔ Opening (r.path log) := by
  constructor
  · intro h
    obtain ⟨front, hfront, hopening⟩ := h
    rwa [List.append_cancel_right hfront]
  · intro h
    exact ⟨log, rfl, h⟩

theorem not_stopsOpening (h : ∀ action ∈ log, action.succeeds = true) : ¬ r.StopsOpening log fault := by
  rintro ⟨front, rfl, -⟩
  exact absurd (h (.refused fault) (by simp)) (by simp [Action.succeeds])

/-! ## one more action -/

theorem Proceeds.concat (h : r.Proceeds d log r₁) (hstep : r₁.Step a r') (ha : a.succeeds = true)
    (hd : r'.depth = r₁.depth) : r.Proceeds d (log ++ [a]) r' where
  walk := h.walk.append hstep.walk
  succeeds := List.forall_mem_append.mpr ⟨h.succeeds, List.forall_mem_singleton.mpr ha⟩
  depth_eq := hd.trans h.depth_eq

theorem Proceeds.atDepth (h : r.Proceeds d log r') {n d' : Nat} (hn : n = r.depth + d') :
    r.Proceeds d' log (r'.atDepth n) :=
  ⟨h.walk.leave n, h.succeeds, hn⟩

theorem Reaches.nil (r : Reader) : r.Reaches 0 [] r := ⟨⟨.nil r, List.forall_mem_nil _, rfl⟩, not_opening_singleton⟩

theorem Reaches.move (h : r.Reaches d log r₁) (hopen : r₁.current.value ≠ .openParen) (hstep : r₁.Step a r')
    (ha : a.succeeds = true) (hd : r'.depth = r₁.depth) : r.Reaches d (log ++ [a]) r' where
  toProceeds := h.toProceeds.concat hstep ha hd
  closed := by
    have hclosed := h.closed
    rw [path_concat]
    cases a.arrival? with
    | none => simpa using hclosed
    | some t =>
      obtain ⟨front, hfront⟩ := h.walk.exists_path
      rw [hfront] at hclosed ⊢
      exact not_opening_move hopen hclosed

theorem Reaches.leave (h : r.Reaches (d + 1) log r') : r.Reaches d log (r'.atDepth (r'.depth - 1)) where
  toProceeds := h.toProceeds.atDepth (by rw [h.depth_eq]; rfl)
  closed := h.closed

theorem Reaches.enter (h : r.Reaches d log r₁) (hopen : r₁.current.value = .openParen) (hstep : r₁.Step a r')
    (ha : a.succeeds = true) (harrival : a.arrival? = some r'.current) (hd : r'.depth = r₁.depth) :
    r.Enters d (log ++ [a]) (r'.atDepth (r'.depth + 1)) where
  toProceeds := (h.toProceeds.concat hstep ha hd).atDepth (by rw [hd, h.depth_eq]; rfl)
  opened := by
    obtain ⟨front, hfront⟩ := h.walk.exists_path
    refine ⟨front, [], ?_, List.forall_mem_nil _⟩
    rw [path_concat, harrival, hfront, hopen]
    rfl

theorem Enters.move (h : r.Enters d log r₁) (hnewline : r₁.current.value = .newline) (hstep : r₁.Step a r')
    (ha : a.succeeds = true) (harrival : a.arrival? = some r'.current) (hd : r'.depth = r₁.depth) :
    r.Enters d (log ++ [a]) r' where
  toProceeds := h.toProceeds.concat hstep ha hd
  opened := by
    obtain ⟨front, newlines, hpath, hall⟩ := h.opened
    refine ⟨front, newlines ++ [.newline], ?_, ?_⟩
    · rw [path_concat, harrival, hpath, hnewline]
      simp
    · exact List.forall_mem_append.mpr ⟨hall, List.forall_mem_singleton.mpr rfl⟩

theorem Enters.reaches (h : r.Enters d log r') (hne : r'.current.value ≠ .newline) : r.Reaches (d + 1) log r' where
  toProceeds := h.toProceeds
  closed := by
    obtain ⟨front, newlines, hpath, -⟩ := h.opened
    rw [hpath]
    exact not_opening_concat hne

/-! ## faults -/

theorem Reaches.fails (h : r.Reaches d log r') (hfault : fault.value.isLexical = false) :
    r.Fails d log fault r' where
  walk := h.walk
  front := ⟨log, h.succeeds, .inl rfl⟩
  lexical h := absurd (hfault.symm.trans h) Bool.noConfusion
  opened hopening := absurd hopening (not_stopsOpening h.succeeds)
  closed _ := h.depth_eq

theorem Reaches.refused (h : r.Reaches d log r₁) (hstep : r₁.Step (.refused fault) r') (hd : r'.depth = r₁.depth) :
    r.Fails d (log ++ [.refused fault]) fault r' where
  walk := h.walk.append hstep.walk
  front := ⟨log, h.succeeds, .inr rfl⟩
  lexical _ := ⟨log, rfl⟩
  opened hopening := absurd (stopsOpening_concat.mp hopening) h.closed
  closed _ := hd.trans h.depth_eq

theorem Enters.refused (h : r.Enters d log r₁) (hnewline : r₁.current.value = .newline)
    (hstep : r₁.Step (.refused fault) r') (hd : r'.depth = r₁.depth) :
    r.Fails d (log ++ [.refused fault]) fault r' where
  walk := h.walk.append hstep.walk
  front := ⟨log, h.succeeds, .inr rfl⟩
  lexical _ := ⟨log, rfl⟩
  opened _ := hd.trans h.depth_eq
  closed hclosed := by
    obtain ⟨front, newlines, hpath, hall⟩ := h.opened
    refine absurd (stopsOpening_concat.mpr ⟨front, newlines ++ [.newline], ?_, by simp, ?_⟩) hclosed
    · rw [hpath, hnewline]
      simp
    · exact List.forall_mem_append.mpr ⟨hall, List.forall_mem_singleton.mpr rfl⟩

theorem Fails.leave (h : r.Fails (d + 1) log fault r') : r.Fails d log fault (r'.atDepth (r'.depth - 1)) where
  walk := h.walk.leave _
  front := h.front
  lexical := h.lexical
  opened hopening := by
    show r'.depth - 1 = _
    rw [h.opened hopening]
    rfl
  closed hclosed := by
    show r'.depth - 1 = _
    rw [h.closed hclosed]
    rfl

end

end Reader

end GraphicScore
