import GraphicScore.Proofs.Reading.Language
import GraphicScore.Proofs.Token.Concatenation

/-!
# Reading on

A reader that has passed the blocks of a score stands in front of what follows as a new reader would, but
for the instruments that are there already. What goes wrong first from there on goes wrong in the whole.
-/

namespace GraphicScore

/-! ## up to an item -/

section
variable {α : Type} {between : List Token → Prop} {Item : List Token → α → Prop} {w : List Token} {a : α}
  {front behind : List α}

theorem SepBy.split (h : SepBy between Item w (front ++ a :: behind)) :
    ∃ v v', Item v a ∧ (front = [] ∧ w = v ++ v' ∨
      ∃ u s, SepBy between Item u front ∧ between s ∧ w = u ++ s ++ (v ++ v')) := by
  induction front generalizing w with
  | nil =>
    cases h with
    | one ha => exact ⟨w, [], ha, .inl ⟨rfl, by simp⟩⟩
    | more ha _ _ => exact ⟨_, _, ha, .inl ⟨rfl, List.append_assoc ..⟩⟩
  | cons b front ih =>
    rw [List.cons_append] at h
    generalize hrest : front ++ a :: behind = rest at h
    cases h with
    | one _ => simp at hrest
    | more hb hs h =>
      subst hrest
      obtain ⟨v, v', ha, ⟨rfl, rfl⟩ | ⟨u, s, hu, hs', rfl⟩⟩ := ih h
      · exact ⟨v, v', ha, .inr ⟨_, _, .one hb, hs, rfl⟩⟩
      · exact ⟨v, v', ha, .inr ⟨_, s, .more hb hs hu, hs', by simp⟩⟩

/-- A sequence that begins with a separator has some in front of every item. -/
theorem Spaced.split (h : Spaced Item w (front ++ a :: behind)) (hw : ∀ t ∈ w.head?, t.isSeparator = true)
    (head : ∀ {w a}, Item w a → ∃ t v, w = t :: v ∧ t.isSeparator = false) :
    ∃ u s v v', Spaced Item u front ∧ Break s ∧ Item v a ∧ w = u ++ s ++ (v ++ v') := by
  generalize has : front ++ a :: behind = as at h
  cases h with
  | none _ => simp at has
  | @some s w s' _ hs hitems _ =>
    subst has
    have hne : s ≠ [] := by
      rintro rfl
      obtain ⟨v, v', b, rfl, hb⟩ := hitems.exists_head
      obtain ⟨t, v, rfl, ht⟩ := head hb
      have := hw t rfl
      rw [ht] at this
      contradiction
    obtain ⟨v, v', ha, ⟨rfl, rfl⟩ | ⟨u, b, hu, hb, rfl⟩⟩ := hitems.split
    · exact ⟨[], s, v, v' ++ s', .none (List.forall_mem_nil _), ⟨hs, hne⟩, ha, by simp⟩
    · refine ⟨s ++ u, b, v, v' ++ s', ?_, hb, ha, by simp⟩
      simpa using Spaced.some hs hu (List.forall_mem_nil _)

end

/-! ## readers on their way -/

theorem Cursor.Runs.passes {c c' : Cursor} {last : Located Token} {ts : List (Located Token)}
    (h : c.Runs (ts ++ [last]) c') (found : Located Token) (d : Nat) :
    Reader.Passes ⟨found, none, .ofCursor c, d, ()⟩ (found.value :: ts.map Located.value)
      ⟨last, none, .ofCursor c', d, ()⟩ := by
  induction ts generalizing c found with
  | nil =>
    cases h with
    | cons hnext ht hruns =>
      cases hruns
      refine .cons ?_ (.nil _)
      exact Reading.advance_eq_ok.mpr (.inr ⟨rfl, last, by simp [Feed.next_ofCursor hnext ht]⟩)
  | cons t ts ih =>
    cases h with
    | cons hnext ht hruns =>
      refine .cons ?_ (ih hruns t)
      exact Reading.advance_eq_ok.mpr (.inr ⟨rfl, t, by simp [Feed.next_ofCursor hnext ht]⟩)

namespace Reading

/-! ## instrument numbers that are taken -/

section
variable {config : Config} {defined : Definitions} {numbers front behind : List UInt32} {number : UInt32}
  {position : Position} {digits : String} {u : List Token} {r r' r₁ : Reader}

theorem instrumentNumber_of_taken (ht : r.current = ⟨position, .integer digits⟩) (hm : advance r = .ok () r')
    (hv : number.toNat = Nat.ofDigitChars 10 digits.toList 0)
    (htaken : (numbers.contains number || defined.declares number) = true) :
    instrumentNumber defined numbers r = .error ⟨position, .duplicateInstrument number⟩ r' := by
  rw [instrumentNumber, current_bind, ht]
  show (advance >>= _) r = _
  rw [bind_of_ok hm, Literal.uint32?_eq_some.mpr hv]
  simp only [htaken, if_true]
  rfl

theorem instrumentNumbers_of_taken (hd : r.depth = 0)
    (hu : front = [] ∧ u = [] ∨ ∃ w g, SepBy Comma NumberWord w front ∧ Comma g ∧ u = w ++ g)
    (hn : front.Nodup) (hfree : ∀ number ∈ front, number ∉ defined.numbers) (hw : r.Passes u r₁)
    (ht : r₁.current = ⟨position, .integer digits⟩) (hm : advance r₁ = .ok () r')
    (hv : number.toNat = Nat.ofDigitChars 10 digits.toList 0) (htaken : number ∈ defined.numbers) :
    instrumentNumbers defined r = .error ⟨position, .duplicateInstrument number⟩ r' := by
  have hreads := reads_instrumentNumber defined
  have hskip : instrumentNumbers defined r = list (instrumentNumber defined) front r₁ := by
    rcases hu with ⟨rfl, rfl⟩ | ⟨w, g, hitems, comma, rfl⟩
    · cases Reader.passes_nil.mp hw
      rfl
    · have hadd : front.foldlM (addNumber? defined) [] = some front :=
        (foldlM_addNumber .nil).mpr ⟨rfl, hn, hfree⟩
      exact list_of_items hreads trivial hd hitems comma hadd hw (by simp [ht])
  have hdeclares : (front.contains number || defined.declares number) = true := by
    simp [Definitions.declares, htaken]
  rw [hskip]
  exact loop_of_error (moves_listStep hreads) (hw.depth_eq.trans hd)
    (bind_of_error (instrumentNumber_of_taken ht hm hv hdeclares))

theorem block_of_taken (hinstr : r.current.value = .identifier "instr") (hm₁ : advance r = .ok () r₁)
    {fault : Fault} (h : instrumentNumbers defined r₁ = .error fault r') :
    block config defined r = .error fault r' := by
  have hexpect : expect .block (.identifier "instr") r = .ok () r₁ := expect_eq_ok.mpr ⟨hinstr, hm₁⟩
  rw [block, current_bind, bind_of_ok hexpect, bind_of_error h]

/-- A score goes wrong at the first block that does. -/
theorem sequence_of_block_error {d d' : Definitions} {bs : List Block} {s : List Token} {r₂ : Reader}
    {fault : Fault} (hd : r.depth = 0) (hbs : Spaced (BlockWord config) u bs) (hadd : bs.foldlM addBlock? d = some d')
    (hs : Break s) (hw : r.Passes (u ++ s) r₂) (hinstr : r₂.current.value = .identifier "instr")
    (h : block config d' r₂ = .error fault r') :
    sequence (· == .endOfInput) .endOfLine (scoreItem config) d r = .error fault r' := by
  obtain ⟨r₁, hu, hs₁⟩ := Reader.passes_append.mp hw
  have hr₁ : (r₁.current.value.isSeparator || r₁.current.value == .endOfInput) = true := by
    obtain ⟨t, s, rfl⟩ := List.exists_cons_of_ne_nil hs.2
    simp [(Reader.passes_cons.mp hs₁).1, hs.1 t (List.mem_cons_self ..)]
  rw [sequence_of_spaced reads_block head_ne_endOfInput (fun _ _ => trivial) hd hbs hadd hu hr₁,
    sequence_of_separators reads_block (hu.depth_eq.trans hd) hs.1 hs₁]
  refine loop_of_error (moves_sequenceStep reads_block) (hw.depth_eq.trans hd) ?_
  have hskip : skipSeparators r₂ = .ok () r₂ :=
    skipSeparators_eq_ok.mpr ⟨[], .nil r₂, List.forall_mem_nil _, by rw [hinstr]; rfl⟩
  have hitem : scoreItem config d' r₂ = .error fault r' := bind_of_error h
  rw [sequenceStep, bind_of_ok hskip, token_bind, hinstr]
  exact bind_of_error hitem

end

end Reading

end GraphicScore
