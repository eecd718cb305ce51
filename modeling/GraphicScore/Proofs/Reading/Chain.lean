import GraphicScore.Proofs.Grammar.Expression
import GraphicScore.Proofs.Reading.Repetition

/-!
# Reading chains of operators

A reading of a level accepts the words of that level and gives their trees. `Reads` states it in both
directions, for readers with less than a given number of tokens left, so that the reading inside
parentheses can be put in for the one around them. A chain of operands then reads the level above.
-/

namespace GraphicScore

def Reader.inside (r : Reader) : Bool := 0 < r.depth

theorem Reader.Passes.inside_eq {r r' : Reader} {w : List Token} (h : r.Passes w r') :
    r'.inside = r.inside := by
  simp only [Reader.inside, h.depth_eq]

theorem Gap.append {inside : Bool} {g g' : List Token} (h : Gap inside g) (h' : Gap inside g') :
    Gap inside (g ++ g') :=
  ⟨fun t ht => (List.mem_append.mp ht).elim (h.1 t) (h'.1 t), fun out => by rw [h.2 out, h'.2 out]; rfl⟩

namespace Reading

/-! ## skipping newlines -/

section
variable {r r' : Reader} {u : Unit}

theorem skipNewlines_eq_ok :
    skipNewlines r = .ok u r' ↔ ∃ n, r.Passes n r' ∧ Newlines n ∧ r'.current.value ≠ .newline := by
  simp only [skipNewlines, skipWhile_eq_ok (p := (· == Token.newline)) (by decide), beq_iff_eq,
    beq_eq_false_iff_ne, Newlines]

theorem skipInsignificant_eq_ok :
    skipInsignificant r = .ok u r' ↔
      ∃ g, r.Passes g r' ∧ Gap r.inside g ∧ (r.inside = true → r'.current.value ≠ .newline) := by
  rw [skipInsignificant, get_bind]
  split
  case isTrue h => simp [skipNewlines_eq_ok, Gap, Reader.inside, h]
  case isFalse h => simp [Gap, Newlines, Reader.inside, h]

end

/-! ## what it is to read a level -/

/-- Whether an expression of the level has ended when the token follows it. -/
def EndsBefore (level : Level) (inside : Bool) (t : Token) : Prop :=
  t ≠ .openParen ∧ (inside = true → t ≠ .newline) ∧ ∀ op : Operator, t = op.token → op.level.rank < level.rank

theorem EndsBefore.tighter {level : Level} {inside : Bool} {t : Token} (h : EndsBefore level inside t) :
    EndsBefore level.tighter inside t :=
  ⟨h.1, h.2.1, fun op e => Nat.lt_of_lt_of_le (h.2.2 op e) level.rank_le_tighter⟩

theorem endsBefore_of_no_operator {level : Level} {inside : Bool} {t : Token} (ho : t ≠ .openParen)
    (hn : inside = true → t ≠ .newline) (ha : Operator.additive? t = none)
    (hm : Operator.multiplicative? t = none) : EndsBefore level inside t := by
  refine ⟨ho, hn, ?_⟩
  intro op h
  rw [h] at ha hm
  cases op <;> contradiction

theorem endsBefore_token (op : Operator) (inside : Bool) : EndsBefore op.level.tighter inside op.token := by
  refine ⟨by cases op <;> decide, fun _ => by cases op <;> decide, fun op' e => ?_⟩
  rw [← Operator.token_inj e]
  exact op.rank_level_lt

structure Reads (config : Config) (level : Level) (n : Nat) (p : Reading Expr) : Prop where
  sound : ∀ {r r' e}, r.size < n → p r = .ok e r' →
    ∃ w g, r.Passes (w ++ g) r' ∧ Derives config level r.inside w e ∧ Gap r.inside g
  /-- The reading may leave some of the newlines behind the expression to its caller. -/
  complete : ∀ {r r' w g e}, r.size < n → Derives config level r.inside w e → r.Passes (w ++ g) r' →
    Gap r.inside g → EndsBefore level r.inside r'.current.value →
    ∃ r₁ g₁, p r = .ok e r₁ ∧ r₁.Passes g₁ r' ∧ Gap r.inside g₁

/-! ## chains -/

section
variable {config : Config} {n : Nat} {operator? : Token → Option Operator} {operand : Reading Expr}
  {r r' : Reader} {e e' : Expr}

theorem chainStep_eq_done :
    chainStep operator? operand e r = .ok (.done e') r' ↔ e = e' ∧ operator? r'.current.value = none ∧
      ∃ g, r.Passes g r' ∧ Gap r.inside g ∧ (r.inside = true → r'.current.value ≠ .newline) := by
  rw [chainStep, bind_eq_ok]
  simp only [skipInsignificant_eq_ok, token_bind]
  constructor
  · intro h
    obtain ⟨_, r₁, hg, h⟩ := h
    cases hop : operator? r₁.current.value with
    | none =>
      rw [hop] at h
      obtain ⟨he, rfl⟩ := pure_eq_ok.mp h
      cases he
      exact ⟨rfl, hop, hg⟩
    | some op =>
      rw [hop] at h
      simp [bind_eq_ok, map_eq_ok] at h
  · intro h
    obtain ⟨rfl, hop, hg⟩ := h
    exact ⟨(), r', hg, by rw [hop]; rfl⟩

theorem chainStep_eq_yield :
    chainStep operator? operand e r = .ok (.yield e') r' ↔
      ∃ g n op right r₁ r₂, r.Passes g r₁ ∧ Gap r.inside g ∧ (r.inside = true → r₁.current.value ≠ .newline) ∧
        operator? r₁.current.value = some op ∧ r₁.Passes (r₁.current.value :: n) r₂ ∧ Newlines n ∧
        r₂.current.value ≠ .newline ∧ operand r₂ = .ok right r' ∧ e' = .binary op e right [] := by
  rw [chainStep, bind_eq_ok]
  simp only [skipInsignificant_eq_ok, token_bind]
  constructor
  · intro h
    obtain ⟨_, r₁, ⟨g, hg, gap, stop⟩, h⟩ := h
    cases hop : operator? r₁.current.value with
    | none => simp [hop] at h
    | some op =>
      rw [hop] at h
      simp only [bind_eq_ok, skipNewlines_eq_ok, pure_eq_ok, ForInStep.yield.injEq] at h
      obtain ⟨_, _, hm, _, r₂, ⟨n, hn, newlines, stop'⟩, right, _, hp, rfl, rfl⟩ := h
      exact ⟨g, n, op, right, r₁, r₂, hg, gap, stop, hop, .cons hm hn, newlines, stop', hp, rfl⟩
  · intro h
    obtain ⟨g, n, op, right, r₁, r₂, hg, gap, stop, hop, hn, newlines, stop', hp, rfl⟩ := h
    obtain ⟨-, _, hm, hn⟩ := Reader.passes_cons.mp hn
    refine ⟨(), r₁, ⟨g, hg, gap, stop⟩, ?_⟩
    rw [hop]
    simp only [bind_eq_ok, skipNewlines_eq_ok, pure_eq_ok]
    exact ⟨(), _, hm, (), r₂, ⟨n, hn, newlines, stop'⟩, right, r', hp, rfl, rfl⟩

end

section
variable {config : Config} {n : Nat} {operator? : Token → Option Operator} {operand : Reading Expr} {o : Operator}
  (hop : ∀ {t op}, operator? t = some op ↔ t = op.token ∧ op.level = o.level)
  (hp : Reads config o.level.tighter n operand)
include hop hp

theorem moves_chainStep : Moves (·.size < n) (chainStep operator? operand) := by
  intro e r e' r' hr h
  obtain ⟨g, m, op, right, r₁, r₂, hg, -, -, ht, hm, -, -, he, -⟩ := chainStep_eq_yield.mp h
  obtain ⟨ht, -⟩ := hop.mp ht
  have h₁ := hg.size_le
  have h₂ := hm.size_lt (by rw [ht]; cases op <;> decide)
  obtain ⟨_, _, hw', -, -⟩ := hp.sound (by omega) he
  have h₃ := hw'.size_le
  exact ⟨by omega, by omega⟩

theorem chain_sound {r r' : Reader} {e : Expr} (hr : r.size < n) (h : chain operator? operand r = .ok e r') :
    ∃ w g, r.Passes (w ++ g) r' ∧ Derives config o.level r.inside w e ∧ Gap r.inside g := by
  obtain ⟨first, r₀, hf, hl⟩ := bind_eq_ok.mp h
  obtain ⟨w₀, g₀, hw₀, he₀, gap₀⟩ := hp.sound hr hf
  -- the invariant: the tokens behind the reader spell the expression so far, up to a gap
  refine loop_induction (P := fun left r₁ => ∀ w g, r.Passes (w ++ g) r₁ →
      Derives config o.level r.inside w left → Gap r.inside g →
      ∃ w g, r.Passes (w ++ g) r' ∧ Derives config o.level r.inside w e ∧ Gap r.inside g)
    (moves_chainStep hop hp) ?_ ?_ (Nat.lt_of_le_of_lt hw₀.size_le hr) hl w₀ g₀ hw₀ (.tighter he₀) gap₀
  · intro left r₁ _ h w g hw he gap
    obtain ⟨rfl, -, g', hg', gap', -⟩ := chainStep_eq_done.mp h
    rw [hw.inside_eq] at gap'
    refine ⟨w, g ++ g', ?_, he, gap.append gap'⟩
    rw [← List.append_assoc]
    exact Reader.passes_append.mpr ⟨r₁, hw, hg'⟩
  · intro left r₁ left' r₁' hr₁ h ih w g hw he gap
    obtain ⟨g', m, op, right, r₂, r₃, hg', gap', -, ht, hm, newlines, -, hright, rfl⟩ :=
      chainStep_eq_yield.mp h
    obtain ⟨ht, hlevel⟩ := hop.mp ht
    obtain ⟨v, g'', hv, hright, gap''⟩ :=
      hp.sound (Nat.lt_of_le_of_lt (Nat.le_trans hm.size_le hg'.size_le) hr₁) hright
    rw [hm.inside_eq, hg'.inside_eq, hw.inside_eq] at hright gap''
    rw [hw.inside_eq] at gap'
    rw [← hlevel] at hright he
    rw [ht] at hm
    refine ih (w ++ (g ++ g') ++ op.token :: (m ++ v)) g'' ?_ ?_ gap''
    · simp only [List.append_assoc, List.cons_append, Reader.passes_append, Reader.passes_cons] at hw hm hv ⊢
      grind
    · rw [← hlevel]
      exact .chain op he (gap.append gap') newlines hright

theorem loop_chainStep_skip {r r' : Reader} {g : List Token} {e : Expr} (hr : r.size < n) (h : r.Passes g r')
    (gap : Gap r.inside g) (stop : r.inside = true → r'.current.value ≠ .newline) :
    loop (chainStep operator? operand) e r = loop (chainStep operator? operand) e r' := by
  have hs : skipInsignificant r = .ok () r' := skipInsignificant_eq_ok.mpr ⟨g, h, gap, stop⟩
  have hs' : skipInsignificant r' = .ok () r' :=
    skipInsignificant_eq_ok.mpr ⟨[], .nil r', .nil, h.inside_eq ▸ stop⟩
  have moves := moves_chainStep hop hp
  rw [loop_eq moves hr, loop_eq moves (Nat.lt_of_le_of_lt h.size_le hr)]
  simp only [chainStep, bind_of_ok hs, bind_of_ok hs']

/-- A chain that has read a word of its level goes on as the loop behind the word. -/
theorem chain_eq_loop {level : Level} {inside : Bool} {w : List Token} {e : Expr}
    (h : Derives config level inside w e) (hl : o.level = level) {r r' : Reader} {g : List Token}
    (hr : r.size < n) (hi : r.inside = inside) (hw : r.Passes (w ++ g) r') (gap : Gap inside g)
    (stop : EndsBefore o.level.tighter inside r'.current.value) :
    chain operator? operand r = loop (chainStep operator? operand) e r' := by
  induction h generalizing r r' g with
  | tighter he =>
    subst hl hi
    obtain ⟨r₁, g₁, hok, hg₁, gap₁⟩ := hp.complete hr he hw gap stop
    obtain ⟨_, _, hw₁, -, -⟩ := hp.sound hr hok
    rw [chain, bind_of_ok hok]
    refine loop_chainStep_skip hop hp (Nat.lt_of_le_of_lt hw₁.size_le hr) hg₁ ?_ ?_
    · exact hw₁.inside_eq ▸ gap₁
    · exact hw₁.inside_eq ▸ stop.2.1
  | @chain inside w g₀ m v left right op hleft gap₀ newlines hright ih _ =>
    subst hi
    simp only [List.append_assoc, List.cons_append, Reader.passes_append, Reader.passes_cons] at hw
    obtain ⟨r₁, hw, r₂, hg₀, ht, r₃, hm, r₄, hn, r₅, hv, hg⟩ := hw
    have hw₂ : r.Passes (w ++ g₀) r₂ := Reader.passes_append.mpr ⟨r₁, hw, hg₀⟩
    have hr₂ := Nat.lt_of_le_of_lt hw₂.size_le hr
    have hn₂ : r₂.Passes (r₂.current.value :: m) r₄ := .cons hm hn
    have hr₄ := Nat.lt_of_le_of_lt hn₂.size_le hr₂
    have hi₄ : r₄.inside = r.inside := hn₂.inside_eq.trans hw₂.inside_eq
    have stop₂ : EndsBefore o.level.tighter r.inside r₂.current.value := by
      rw [ht, hl]
      exact endsBefore_token op _
    -- the left word is a chain of its own, and the loop takes one step from behind it
    rw [ih hl hr rfl hw₂ gap₀ stop₂]
    obtain ⟨r₆, g₆, hok, hg₆, gap₆⟩ :=
      hp.complete hr₄ (by rw [hl, hi₄]; exact hright) (Reader.passes_append.mpr ⟨r₅, hv, hg⟩) (hi₄ ▸ gap)
        (hi₄ ▸ stop)
    have hstep : chainStep operator? operand left r₂ = .ok (.yield (.binary op left right [])) r₆ := by
      refine chainStep_eq_yield.mpr ⟨[], m, op, right, r₂, r₄, .nil r₂, .nil, ?_, ?_, hn₂,
        newlines, ?_, hok, rfl⟩
      · rw [hw₂.inside_eq]
        exact stop₂.2.1
      · exact hop.mpr ⟨ht, hl.symm⟩
      · obtain ⟨t, v, rfl, hstart⟩ := hright.exists_cons
        rw [(Reader.passes_cons.mp hv).1]
        rintro rfl
        cases hstart
    rw [loop_of_yield (moves_chainStep hop hp) hr₂ hstep]
    obtain ⟨_, _, hw₆, -, -⟩ := hp.sound hr₄ hok
    have hi₆ : r₆.inside = r.inside := hw₆.inside_eq.trans hi₄
    refine loop_chainStep_skip hop hp (Nat.lt_of_le_of_lt hw₆.size_le hr₄) hg₆ ?_ ?_
    · rw [hi₆, ← hi₄]
      exact gap₆
    · rw [hi₆]
      exact stop.2.1
  | _ => cases o <;> cases hl

theorem chain_reads : Reads config o.level n (chain operator? operand) where
  sound := chain_sound hop hp
  complete {r r' w g e} hr he hw gap stop := by
    refine ⟨r', [], ?_, .nil r', .nil⟩
    rw [chain_eq_loop hop hp he rfl hr rfl hw gap stop.tighter]
    refine loop_of_done (moves_chainStep hop hp) (Nat.lt_of_le_of_lt hw.size_le hr) ?_
    refine chainStep_eq_done.mpr ⟨rfl, ?_, [], .nil r', .nil, hw.inside_eq ▸ stop.2.1⟩
    cases ht : operator? r'.current.value with
    | none => rfl
    | some op =>
      obtain ⟨ht, hl⟩ := hop.mp ht
      exact absurd (stop.2.2 op ht) (by rw [hl]; exact Nat.lt_irrefl _)

end

end Reading

end GraphicScore
