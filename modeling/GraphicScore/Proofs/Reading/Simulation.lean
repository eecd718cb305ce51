import GraphicScore.Proofs.Reading.Agreement
import GraphicScore.Proofs.Reading.Score

/-!
# Readers of two feeds

The same score, of two feeds or under two configs, is read to the same as long as the tokens and the feeds
correspond. What that means is the simulation's to say: it relates what is drawn and what is blamed.
-/

namespace GraphicScore

/-- Whether a cause says nothing of places. -/
def Cause.isPlaceless : Cause → Bool
  | .unterminatedBlock _ => false
  | _ => true

theorem Cause.isPlaceless_of_isPlain {cause : Cause} (h : cause.isPlain = true) : cause.isPlaceless = true := by
  cases cause <;> first | rfl | contradiction

/-- What two feeds give correspond: tokens, with what is left of the feeds, or faults. -/
inductive Draws (tokens : Located Token → Located Token → Prop) (feeds : Feed → Feed → Prop)
    (faults : Fault → Fault → Prop) : Answer × Feed → Answer × Feed → Prop
  | ok {t t' : Located Token} {f f' : Feed} :
    tokens t t' → feeds f f' → Draws tokens feeds faults (.ok t, f) (.ok t', f')
  | error {fault fault' : Fault} {f f' : Feed} :
    faults fault fault' → Draws tokens feeds faults (.error fault, f) (.error fault', f')

/-- How two runs correspond: what their feeds answer, and what a fault blames for a given cause. -/
structure Simulation (config config' : Config) extends Stricter config config' where
  tokens : Located Token → Located Token → Prop
  feeds : Feed → Feed → Prop
  faults : Fault → Fault → Prop
  value_eq : ∀ {t t'}, tokens t t' → t.value = t'.value
  length_eq : ∀ {f f'}, feeds f f' → f.upcoming.length = f'.upcoming.length
  next : ∀ {f f'}, feeds f f' → Draws tokens feeds faults f.next f'.next
  found : ∀ {t t' cause}, tokens t t' → cause.isLexical = false → cause.isPlaceless = true →
    faults ⟨t.position, cause⟩ ⟨t'.position, cause⟩
  unterminated : ∀ {t t' o o'}, tokens t t' → tokens o o' → o.value = .identifier "instr" →
    faults ⟨t.position, .unterminatedBlock o.position.line⟩ ⟨t'.position, .unterminatedBlock o'.position.line⟩

namespace Simulation

section
variable {config config' : Config} (S : Simulation config config')

structure Readers (r r' : Reader) : Prop where
  current : S.tokens r.current r'.current
  ahead : Option.Rel S.tokens r.ahead r'.ahead
  feed : S.feeds r.feed r'.feed
  depth_eq : r.depth = r'.depth

abbrev Comes {α : Type} : EStateM.Result Fault Reader α → EStateM.Result Fault Reader α → Prop :=
  Outcomes (fun fault _ fault' _ => S.faults fault fault') S.refuses (fun _ r r' => S.Readers r r')

variable {S} {r r' : Reader}

theorem Readers.length_remaining (h : S.Readers r r') : r.remaining.length = r'.remaining.length := by
  have hahead := h.ahead
  unfold Reader.remaining
  generalize r.ahead = x, r'.ahead = y at hahead
  cases hahead <;> simp [S.length_eq h.feed]

theorem Readers.atDepth (h : S.Readers r r') {d d' : Nat} (hd : d = d') :
    S.Readers (r.atDepth d) (r'.atDepth d') :=
  ⟨h.current, h.ahead, h.feed, hd⟩

/-! ## moving on -/

theorem draw_of_feeds (action : Located Token → Action) (h : S.feeds r.feed r'.feed) :
    (∃ t t' f f', Reading.draw action r = .ok t { r with feed := f } ∧
      Reading.draw action r' = .ok t' { r' with feed := f' } ∧ S.tokens t t' ∧ S.feeds f f') ∨
    ∃ fault fault' r₁ r₁', Reading.draw action r = .error fault r₁ ∧ Reading.draw action r' = .error fault' r₁' ∧
      S.faults fault fault' := by
  have hnext := S.next h
  unfold Reading.draw
  generalize r.feed.next = step, r'.feed.next = step' at hnext
  cases hnext with
  | ok ht hlater => exact .inl ⟨_, _, _, _, rfl, rfl, ht, hlater⟩
  | error hfault => exact .inr ⟨_, _, _, _, rfl, rfl, hfault⟩

theorem comes_advance (h : S.Readers r r') : S.Comes (Reading.advance r) (Reading.advance r') := by
  obtain ⟨current, ahead, feed, depth, notes⟩ := r
  obtain ⟨current', ahead', feed', depth', notes'⟩ := r'
  obtain ⟨hcurrent, hahead, hfeed, hdepth⟩ := h
  rw [Reading.advance, Reading.get_bind, Reading.get_bind]
  cases hahead with
  | some ht => exact .ok ⟨ht, .none, hfeed, hdepth⟩
  | none =>
    rcases draw_of_feeds .drawn hfeed with
      ⟨t, t', f, f', hdraw, hdraw', ht, hfeed⟩ | ⟨_, _, _, _, hdraw, hdraw', hfault⟩
    · simp only [Reading.bind_of_ok hdraw, Reading.bind_of_ok hdraw']
      exact .ok ⟨ht, .none, hfeed, hdepth⟩
    · simp only [Reading.bind_of_error hdraw, Reading.bind_of_error hdraw']
      exact .error hfault

theorem comes_peek (h : S.Readers r r') : S.Comes (Reading.peek r) (Reading.peek r') := by
  obtain ⟨current, ahead, feed, depth, notes⟩ := r
  obtain ⟨current', ahead', feed', depth', notes'⟩ := r'
  obtain ⟨hcurrent, hahead, hfeed, hdepth⟩ := h
  rw [Reading.peek, Reading.get_bind, Reading.get_bind]
  cases hahead with
  | some ht =>
    simp only [S.value_eq ht]
    exact .ok ⟨hcurrent, .some ht, hfeed, hdepth⟩
  | none =>
    rcases draw_of_feeds .peeked hfeed with
      ⟨t, t', f, f', hdraw, hdraw', ht, hfeed⟩ | ⟨_, _, _, _, hdraw, hdraw', hfault⟩
    · simp only [Reading.bind_of_ok hdraw, Reading.bind_of_ok hdraw', S.value_eq ht]
      exact .ok ⟨hcurrent, .some ht, hfeed, hdepth⟩
    · simp only [Reading.bind_of_error hdraw, Reading.bind_of_error hdraw']
      exact .error hfault

end

variable {config config' : Config}

/-- Readers of feeds that correspond keep step, wherever they have come to. -/
def lockstep (S : Simulation config config') : Lockstep Unit config config' where
  toStricter := S.toStricter
  tokens := S.tokens
  readers _ := S.Readers
  At := Anywhere
  faults _ fault _ fault' _ := S.faults fault fault'
  value_eq := S.value_eq
  current h := h.current
  length_eq h := h.length_remaining
  depth_eq h := h.depth_eq
  plain _ ht hcause := S.found ht (Cause.isLexical_of_isPlain hcause) (Cause.isPlaceless_of_isPlain hcause)
  unterminated h := S.unterminated h.current
  unknown h _ _ _ _ _ _ := S.found h.current rfl rfl
  advance h _ _ _ := (comes_advance h).imp fun _ _ _ _ hs => ⟨hs, trivial⟩
  peek h _ _ := (comes_peek h).imp fun _ _ _ _ hs => ⟨hs, trivial⟩
  opening h _ _ _ _ := by
    refine (comes_advance h).bind fun _ s s' hs => ?_
    rw [Reading.enter_bind, Reading.enter_bind]
    refine (Outcomes.skipNewlines (P := S.Readers) (fun _ _ hs => hs.length_remaining)
      (fun _ _ hs => S.value_eq hs.current) (fun _ _ hs _ => comes_advance hs)
      (hs.atDepth (congrArg (· + 1) hs.depth_eq))).imp fun _ _ _ _ ht => ?_
    exact ⟨ht.1, trivial⟩
  readers_leave h := h.atDepth (congrArg (· - 1) h.depth_eq)
  at_leave := @Anywhere.leave
  faults_leave h := h

end Simulation

namespace Reading

variable {config config' : Config} {S : Simulation config config'} {f f' : Feed}

theorem score_of_feeds (h : S.feeds f f') : S.Comes (score config (.ofFeed f)) (score config' (.ofFeed f')) := by
  have hfeeds : S.feeds (Reader.ofFeed f).feed (Reader.ofFeed f').feed := h
  rcases Simulation.draw_of_feeds .drawn hfeeds with
    ⟨t, t', g, g', hdraw, hdraw', ht, hg⟩ | ⟨_, _, _, _, hdraw, hdraw', hfault⟩
  · have hadvance : advance (.ofFeed f) = .ok () ⟨t, none, g, 0, ()⟩ := bind_of_ok hdraw
    have hadvance' : advance (.ofFeed f') = .ok () ⟨t', none, g', 0, ()⟩ := bind_of_ok hdraw'
    rw [score_ofFeed hadvance, score_ofFeed hadvance']
    have hr : S.Readers ⟨t, none, g, 0, ()⟩ ⟨t', none, g', 0, ()⟩ := ⟨ht, .none, hg, rfl⟩
    have hscore : S.lockstep.Agree 0 (S.lockstep.Here .idle) (score config) (score config') _ := agree_score
    exact (hscore _ _ hr trivial).imp fun _ _ _ _ hs => hs.1
  · have hadvance {g : Feed} {fault : Fault} {r : Reader} (h : draw .drawn (.ofFeed g) = .error fault r) :
        advance (.ofFeed g) = .error fault r := by
      rw [advance, get_bind]
      exact bind_of_error h
    rw [score_of_fault (hadvance hdraw), score_of_fault (hadvance hdraw')]
    exact .error hfault

end Reading

end GraphicScore
