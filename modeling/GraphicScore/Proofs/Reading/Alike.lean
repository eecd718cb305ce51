import Mathlib.Data.List.Forall2
import GraphicScore.Proofs.Reading.Simulation

/-!
# Readers of the same tokens

Two readers that have the same tokens in front of them, wherever these stand, read the same. What a fault
blames is the place of a token, and which token that is depends on what the tokens are alone.
-/

namespace GraphicScore

/-- The same token, at the same index of the two lists. -/
structure Corresponds (ts ts' : List (Located Token)) (t t' : Located Token) : Prop where
  value_eq : t.value = t'.value
  exists_index : ∃ i : Nat, ts[i]? = some t ∧ ts'[i]? = some t'

inductive CausesAlike (ts ts' : List (Located Token)) : Cause → Cause → Prop
  | same {cause : Cause} : cause.isPlaceless = true → CausesAlike ts ts' cause cause
  | unterminated {o o' : Located Token} :
    Corresponds ts ts' o o' → o.value = .identifier "instr" →
    CausesAlike ts ts' (.unterminatedBlock o.position.line) (.unterminatedBlock o'.position.line)

inductive FaultsAlike (ts ts' : List (Located Token)) : Fault → Fault → Prop
  | mk {t t' : Located Token} {cause cause' : Cause} :
    Corresponds ts ts' t t' → CausesAlike ts ts' cause cause' →
    FaultsAlike ts ts' ⟨t.position, cause⟩ ⟨t'.position, cause'⟩

inductive AnswersAlike (ts ts' : List (Located Token)) : Answer → Answer → Prop
  | ok {t t' : Located Token} : Corresponds ts ts' t t' → AnswersAlike ts ts' (.ok t) (.ok t')

structure FeedsAlike (ts ts' : List (Located Token)) (f f' : Feed) : Prop where
  upcoming : List.Forall₂ (AnswersAlike ts ts') f.upcoming f'.upcoming
  ending : AnswersAlike ts ts' f.ending f'.ending

section
variable {ts ts' : List (Located Token)} {f f' : Feed}

/-! ## feeds -/

theorem FeedsAlike.of_tokens (h : f.tokens = .ok ts) (h' : f'.tokens = .ok ts')
    (hts : List.Forall₂ (Corresponds ts ts') ts ts') : FeedsAlike ts ts' f f' := by
  have hanswers : List.Forall₂ (AnswersAlike ts ts') (f.upcoming ++ [f.ending]) (f'.upcoming ++ [f'.ending]) := by
    rw [Feed.tokens_eq_ok.mp h, Feed.tokens_eq_ok.mp h', List.forall₂_map_left_iff, List.forall₂_map_right_iff]
    exact hts.imp fun _ _ => .ok
  rw [← List.forall₂_reverse_iff] at hanswers
  simp only [List.reverse_append, List.reverse_singleton, List.singleton_append, List.forall₂_cons,
    List.forall₂_reverse_iff] at hanswers
  exact ⟨hanswers.2, hanswers.1⟩

theorem FeedsAlike.next (h : FeedsAlike ts ts' f f') :
    Draws (Corresponds ts ts') (FeedsAlike ts ts') (FaultsAlike ts ts') f.next f'.next := by
  obtain ⟨upcoming, ending, unsettled, settled⟩ := f
  obtain ⟨upcoming', ending', unsettled', settled'⟩ := f'
  obtain ⟨hupcoming, hending⟩ := h
  cases hupcoming with
  | nil =>
    cases hending with
    | ok ht => exact .ok ht ⟨.nil, .ok ht⟩
  | cons hanswer hlater =>
    cases hanswer with
    | ok ht => exact .ok ht ⟨hlater, hending⟩

end

/-- Readings of the same tokens, wherever these stand. -/
def Simulation.layout (config : Config) (ts ts' : List (Located Token)) : Simulation config config where
  toStricter := .same config
  tokens := Corresponds ts ts'
  feeds := FeedsAlike ts ts'
  faults := FaultsAlike ts ts'
  value_eq h := h.value_eq
  length_eq h := h.upcoming.length_eq
  next h := h.next
  found h _ hcause := .mk h (.same hcause)
  unterminated h ho hinstr := .mk h (.unterminated ho hinstr)

end GraphicScore
