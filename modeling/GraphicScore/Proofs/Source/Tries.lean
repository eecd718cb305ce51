import GraphicScore.Proofs.Reading.Recording
import GraphicScore.Proofs.Reading.Score
import GraphicScore.Proofs.Token.Progress

/-!
# Reading again and again

A reader outlives a fault and can be made to read again from where it stands. Over all these tries it loses no
token of its feed, takes none twice, and asks for none behind the end of input.
-/

namespace GraphicScore

/-- What is left for a reader of the source behind some answers. -/
def Feed.behind (source : String) (skipped : Nat) : Feed := ((ofString source).take skipped).2

theorem Feed.take_behind (source : String) (skipped n : Nat) :
    ((behind source skipped).take n).2 = ofCursor ((Cursor.ofString source).take (skipped + n)).2 := by
  unfold behind ofString
  rw [take_ofCursor, take_ofCursor, Cursor.take_add]

def Reader.tried (config : Config) (f : Feed) : Nat → Reader
  | 0 => .ofFeed f
  | n + 1 => ((tried config f n).parse config).2

/-- What the reader has done in the first tries. -/
def history (config : Config) (f : Feed) (n : Nat) : List Action :=
  (List.range n).flatMap fun m => (Reader.tried config f m).actions config

section
variable {config : Config} {f : Feed} {r r' : Reader} {past log : List Action} {outcome : Except Fault Definitions}
  {n : Nat}

theorem history_succ : history config f (n + 1) = history config f n ++ (Reader.tried config f n).actions config := by
  simp [history, List.range_succ]

theorem attempt_tried (config : Config) (f : Feed) (n : Nat) :
    (Reader.tried config f n).Attempt config ((Reader.tried config f n).actions config)
      ((Reader.tried config f n).parse config).1 (Reader.tried config f (n + 1)) :=
  attempt config (Reader.tried config f n)

theorem parse_of_end (h : r.current.value = .endOfInput) : r.parse config = (.ok .empty, r) := by
  have hstep : Reading.sequenceStep (· == .endOfInput) .endOfLine (Reading.scoreItem config) .empty r =
      .ok (.done .empty) r :=
    Reading.sequenceStep_eq_done.mpr ⟨rfl, [], .nil r, by simp [Separators], by rw [h]; rfl, by rw [h]; rfl⟩
  have hscore : Reading.score config r = .ok .empty r := by
    rw [Reading.score, Reading.sequence, Reading.loop, Reading.get_bind, Reader.remaining, List.cons_append,
      Reading.loopWithin_cons, hstep]
  rw [Reader.parse, hscore]

theorem tried_of_end (h : (Reader.tried config f n).current.value = .endOfInput) {m : Nat} (hm : n ≤ m) :
    Reader.tried config f m = Reader.tried config f n := by
  induction m, hm using Nat.le_induction with
  | base => rfl
  | succ m _ ih =>
    rw [Reader.tried, ih, parse_of_end h]

theorem accounts_tried (config : Config) (f : Feed) (n : Nat) :
    (Reader.tried config f n).Accounts f (history config f n) := by
  induction n with
  | zero => exact .nil f
  | succ n ih =>
    rw [history_succ]
    exact ih.walk (attempt_tried config f n).walk

theorem Reader.Attempt.exists_token (h : r.Attempt config log outcome r') :
    ∀ answer ∈ (Action.answers log).dropLast, ∃ t, answer = .ok t := by
  intro answer hanswer
  obtain ⟨front, hfront, rfl | ⟨fault, rfl, -⟩⟩ := h.front
  · exact Action.exists_token_of_succeeds hfront answer (List.dropLast_subset _ hanswer)
  · have hlast : Action.answers (front ++ [.refused fault]) = Action.answers front ++ [Except.error fault] :=
      Action.answers_concat _ _
    rw [hlast, List.dropLast_concat] at hanswer
    exact Action.exists_token_of_succeeds hfront answer hanswer

theorem not_settled_of_dropLast (h : r.Accounts f past) (hlog : r.Attempt config log outcome r') :
    ∀ answer ∈ (Action.answers log).dropLast, answer.settled = false := by
  intro answer hanswer
  obtain ⟨⟨p, t⟩, rfl⟩ := hlog.exists_token answer hanswer
  refine Answer.not_settled fun ht => ?_
  obtain rfl : t = .endOfInput := ht
  -- the end of input is answered with for the last time, so it is not in front of another answer
  obtain ⟨before, behind, hsplit⟩ := List.append_of_mem hanswer
  have hne : Action.answers log ≠ [] := by
    intro hnil
    simp [hnil] at hanswer
  have hwhole := List.dropLast_concat_getLast hne
  generalize (Action.answers log).getLast hne = last at hwhole
  have hended := (h.walk hlog.walk).ended p (Action.answers past ++ before) (behind ++ [last])
  rw [Action.answers_append, ← hwhole, hsplit] at hended
  simp at hended

theorem length_answers_le {c : Cursor} (h : r.Accounts f past) (hlog : r.Attempt config log outcome r')
    (hfeed : r.feed = .ofCursor c) : (Action.answers log).length ≤ c.rest.length + 1 := by
  have htake : (c.take (Action.answers log).length).1 = Action.answers log := by
    have hwhole := (h.walk hlog.walk).feed
    rw [Action.answers_append, List.length_append, Feed.take_add, h.feed, hfeed, Feed.take_ofCursor] at hwhole
    exact List.append_cancel_left (congrArg Prod.fst hwhole)
  have hunsettled := not_settled_of_dropLast h hlog
  generalize Action.answers log = answers at htake hunsettled
  rcases List.eq_nil_or_concat answers with rfl | ⟨front, last, rfl⟩
  · simp
  · rw [List.concat_eq_append] at htake hunsettled ⊢
    rw [List.dropLast_concat] at hunsettled
    rw [List.length_append, List.length_singleton, Cursor.take_add] at htake
    have hfront : (c.take front.length).1 = front := (List.append_inj' htake rfl).1
    have := Cursor.length_take_le (hfront.symm ▸ hunsettled)
    simp only [List.length_append, List.length_singleton]
    omega

end

/--
Every try of a reader is a walk, with the actions of its recorded run. At any moment the tokens that have become
current, and the one ahead, are all that the feed has answered with so far.
-/
theorem tries_account (source : String) (skipped : Nat) (config : Config) :
    (∀ n,
      ((Reader.tried config (.behind source skipped) n).recording []).parse config =
        (((Reader.tried config (.behind source skipped) n).parse config).1,
          (Reader.tried config (.behind source skipped) (n + 1)).recording
            ((Reader.tried config (.behind source skipped) n).actions config)) ∧
      (∀ front back, (Reader.tried config (.behind source skipped) n).actions config = front ++ back →
        (∃ r, (Reader.tried config (.behind source skipped) n).Walk front r ∧
          r.Walk back (Reader.tried config (.behind source skipped) (n + 1))) ∧
        ∀ r, (Reader.tried config (.behind source skipped) n).Walk front r →
          r.Accounts (.behind source skipped) (history config (.behind source skipped) n ++ front)) ∧
      (∀ d, ((Reader.tried config (.behind source skipped) n).parse config).1 = .ok d →
        (Reader.tried config (.behind source skipped) (n + 1)).current.value = .endOfInput) ∧
      ((Reader.tried config (.behind source skipped) n).current.value = .endOfInput → ∀ m, n ≤ m →
        (Reader.tried config (.behind source skipped) m).parse config =
          (.ok .empty, Reader.tried config (.behind source skipped) n)) ∧
      (Action.answers ((Reader.tried config (.behind source skipped) n).actions config)).length ≤
        ((Cursor.ofString source).take
          (skipped + (Action.answers (history config (.behind source skipped) n)).length)).2.rest.length + 1) ∧
    ∀ (r r' : Reader) (fault : Fault), Reading.advance r = .error fault r' ∨ Reading.peek r = .error fault r' →
      r'.current = r.current ∧ r'.ahead = r.ahead := by
  constructor
  · intro n
    have hattempt := attempt_tried config (.behind source skipped) n
    have haccounts := accounts_tried config (.behind source skipped) n
    refine ⟨hattempt.recorded, fun front back hlog => ⟨?_, fun r hr => haccounts.walk hr⟩, hattempt.ended,
      fun h m hm => by rw [tried_of_end h hm, parse_of_end h], ?_⟩
    · exact (hlog ▸ hattempt.walk).split
    · have hfeed := (Feed.take_behind _ _ _).symm.trans (congrArg Prod.snd haccounts.feed)
      exact length_answers_le haccounts hattempt hfeed.symm
  · intro r r' fault h
    have hdraw : ∃ action, Reading.draw action r = .error fault r' := by
      rcases h with h | h
      · exact ⟨_, (Reading.advance_eq_error.mp h).2⟩
      · exact ⟨_, (Reading.peek_eq_error.mp h).2⟩
    obtain ⟨action, hdraw⟩ := hdraw
    obtain ⟨hcurrent, hahead, -⟩ := Reading.draw_error_eq hdraw
    exact ⟨hcurrent, hahead⟩

/-- The first try is refused a token and stays where it is, and the second one gets to the end of input for good. -/
theorem tries_account_refused :
    (∃ r, (Reader.tried {} (.behind "=" 0) 0).Walk [.refused ⟨⟨1, 1⟩, .loneEquals⟩] r ∧
      r.Accounts (.behind "=" 0) [.refused ⟨⟨1, 1⟩, .loneEquals⟩]) ∧
    (∃ fault r', Reading.advance (Reader.tried {} (.behind "=" 0) 0) = .error fault r' ∧
      r'.current = (Reader.tried {} (.behind "=" 0) 0).current) ∧
    (Reader.tried {} (.behind "=" 0) 2).current.value = .endOfInput ∧
    (Reader.tried {} (.behind "=" 0) 7).parse {} = (.ok .empty, Reader.tried {} (.behind "=" 0) 2) := by
  obtain ⟨htries, hrefused⟩ := tries_account "=" 0 {}
  have hactions : (Reader.tried {} (.behind "=" 0) 0).actions {} = [.refused ⟨⟨1, 1⟩, .loneEquals⟩] := by
    decide +kernel
  obtain ⟨hsplit, haccounts⟩ := (htries 0).2.1 _ [] (hactions.trans (List.append_nil _).symm)
  obtain ⟨r, hwalk, -⟩ := hsplit
  have hnext : (Reader.tried {} (.behind "=" 0) 0).feed.next.1 = .error ⟨⟨1, 1⟩, .loneEquals⟩ := by decide +kernel
  have hadvance := Reading.advance_eq_error.mpr ⟨rfl, Reading.draw_eq_error.mpr ⟨hnext, rfl⟩⟩
  have hend : (Reader.tried {} (.behind "=" 0) 2).current.value = .endOfInput := by decide +kernel
  have hagain := (htries 2).2.2.2.1 hend 7 (by decide)
  exact ⟨⟨r, hwalk, haccounts r hwalk⟩, ⟨_, _, hadvance, (hrefused _ _ _ (.inl hadvance)).1⟩, hend, hagain⟩

end GraphicScore
