import GraphicScore.Proofs.Reading.Agreement
import GraphicScore.Proofs.Reading.Opening

/-!
# Recorded runs

A reader that has its actions noted reads what it reads without. The actions are a walk, on which nothing is
refused if the reading succeeds, and at most the last thing if it fails.
-/

namespace GraphicScore

instance : Record (List Action) := ⟨fun log a => log ++ [a]⟩

def Reader.recording (r : Reader) (log : List Action) : Reader (List Action) := { r with notes := log }

/-- What the reader does when it is made to read. -/
def Reader.actions (config : Config) (r : Reader) : List Action := ((r.recording []).parse config).2.notes

namespace Reading

section
variable {α : Type} {r : Reader} {log : List Action}

/-! ## moving on -/

theorem draw_recording (action : Located Token → Action) (r : Reader) (log : List Action) :
    (∃ found r', draw action r = .ok found r' ∧
      draw action (r.recording log) = .ok found (r'.recording (log ++ [action found]))) ∨
    ∃ fault r', draw action r = .error fault r' ∧
      draw action (r.recording log) = .error fault (r'.recording (log ++ [.refused fault])) := by
  have hfeed : (r.recording log).feed = r.feed := rfl
  unfold draw
  rw [hfeed]
  generalize r.feed.next = step
  obtain ⟨answer, feed⟩ := step
  cases answer with
  | ok found => exact .inl ⟨_, _, rfl, rfl⟩
  | error fault => exact .inr ⟨_, _, rfl, rfl⟩

theorem advance_recording (ht : r.current.value ≠ .endOfInput) (log : List Action) :
    (∃ a r', advance r = .ok () r' ∧ advance (r.recording log) = .ok () (r'.recording (log ++ [a])) ∧ r.Step a r' ∧
      r'.depth = r.depth ∧ a.succeeds = true ∧ a.arrival? = some r'.current) ∨
    ∃ fault r', advance r = .error fault r' ∧
      advance (r.recording log) = .error fault (r'.recording (log ++ [.refused fault])) ∧
      r.Step (.refused fault) r' ∧ r'.depth = r.depth := by
  obtain ⟨current, ahead, feed, depth, notes⟩ := r
  cases ahead with
  | some found => exact .inl ⟨.moved found, _, rfl, rfl, .moved ht rfl rfl, rfl, rfl, rfl⟩
  | none =>
    rcases draw_recording .drawn ⟨current, none, feed, depth, notes⟩ log with
      ⟨found, r', hdraw, hrecording⟩ | ⟨fault, r', hdraw, hrecording⟩
    · have hadvance := bind_of_ok (f := fun found => modify ({ · with current := found })) hdraw
      have hadvance' := bind_of_ok (f := fun found => modify ({ · with current := found })) hrecording
      have hstep := Reader.Step.drawn ht rfl hadvance
      exact .inl ⟨.drawn found, _, hadvance, hadvance', hstep, depth_of_advance hadvance, rfl, rfl⟩
    · have hadvance := advance_eq_error.mpr ⟨rfl, hdraw⟩
      have hadvance' := bind_of_error (f := fun found => modify ({ · with current := found })) hrecording
      exact .inr ⟨fault, r', hadvance, hadvance', .refused ht hadvance, (draw_error_eq hdraw).2.2⟩

theorem peek_recording {name : String} (ht : r.current.value = .identifier name) (hahead : r.ahead = none)
    (log : List Action) :
    (∃ found r', peek r = .ok found.value r' ∧
      peek (r.recording log) = .ok found.value (r'.recording (log ++ [.peeked found])) ∧ r.Step (.peeked found) r' ∧
      r'.depth = r.depth) ∨
    ∃ fault r', peek r = .error fault r' ∧
      peek (r.recording log) = .error fault (r'.recording (log ++ [.refused fault])) ∧
      r.Step (.refused fault) r' ∧ r'.depth = r.depth := by
  obtain ⟨current, ahead, feed, depth, notes⟩ := r
  obtain rfl : ahead = none := hahead
  rcases draw_recording .peeked ⟨current, none, feed, depth, notes⟩ log with
    ⟨found, r', hdraw, hrecording⟩ | ⟨fault, r', hdraw, hrecording⟩
  · have hpeek := bind_of_ok (f := fun found => do modify ({ · with ahead := some found }); return found.value) hdraw
    have hpeek' :=
      bind_of_ok (f := fun found => do modify ({ · with ahead := some found }); return found.value) hrecording
    have hd : r'.depth = depth := by rw [(draw_eq_ok.mp hdraw).2]
    exact .inl ⟨found, _, hpeek, hpeek', .peeked ht rfl hpeek rfl, hd⟩
  · have hpeek := peek_eq_error.mpr ⟨rfl, hdraw⟩
    have hpeek' :=
      bind_of_error (f := fun found => do modify ({ · with ahead := some found }); return found.value) hrecording
    exact .inr ⟨fault, r', hpeek, hpeek', .refusedAhead ht hpeek, (draw_error_eq hdraw).2.2⟩

end

end Reading

/-! ## the recorded run beside the plain one -/

section
variable (r₀ : Reader) (d : Nat)

structure Watched (r : Reader (List Action)) (r' : Reader) : Prop where
  eq : r = r'.recording r.notes
  reaches : r₀.Reaches d r.notes r'

/-- The readers are on newlines behind an opening parenthesis. -/
structure WatchedEntering (r : Reader (List Action)) (r' : Reader) : Prop where
  eq : r = r'.recording r.notes
  enters : r₀.Enters d r.notes r'

structure WatchedFault (fault : Fault) (r : Reader (List Action)) (fault' : Fault) (r' : Reader) : Prop where
  fault_eq : fault = fault'
  eq : r = r'.recording r.notes
  fails : r₀.Fails d r.notes fault r'

abbrev Watches {α : Type} (Q : α → Reader (List Action) → Reader → Prop) :
    EStateM.Result Fault (Reader (List Action)) α → EStateM.Result Fault Reader α → Prop :=
  Outcomes (WatchedFault r₀ d) (fun _ => False) Q

end

section
variable {r₀ r' : Reader} {d : Nat} {r : Reader (List Action)} {log : List Action}

open Reading

theorem watches_advance (h : Watched r₀ d r r') (hend : r'.current.value ≠ .endOfInput)
    (hopen : r'.current.value ≠ .openParen) : Watches r₀ d (fun _ => Watched r₀ d) (advance r) (advance r') := by
  obtain ⟨heq, hreaches⟩ := h
  rcases advance_recording hend r.notes with
    ⟨a, s', hadvance, hrecording, hstep, hd, ha, -⟩ | ⟨fault, s', hadvance, hrecording, hstep, hd⟩
  · rw [heq, hrecording, hadvance]
    exact .ok ⟨rfl, hreaches.move hopen hstep ha hd⟩
  · rw [heq, hrecording, hadvance]
    exact .error ⟨rfl, rfl, hreaches.refused hstep hd⟩

theorem watches_peek {name : String} (h : Watched r₀ d r r') (ht : r'.current.value = .identifier name) :
    Watches r₀ d (fun _ => Watched r₀ d) (peek r) (peek r') := by
  obtain ⟨heq, hreaches⟩ := h
  cases hahead : r'.ahead with
  | some found =>
    -- the token ahead is looked at again, which is no action
    obtain ⟨current, ahead, feed, depth, notes⟩ := r'
    obtain rfl : ahead = some found := hahead
    rw [heq]
    exact .ok ⟨rfl, hreaches⟩
  | none =>
    rcases peek_recording ht hahead r.notes with
      ⟨found, s', hpeek, hrecording, hstep, hd⟩ | ⟨fault, s', hpeek, hrecording, hstep, hd⟩
    · rw [heq, hrecording, hpeek]
      exact .ok ⟨rfl, hreaches.move (by simp [ht]) hstep rfl hd⟩
    · rw [heq, hrecording, hpeek]
      exact .error ⟨rfl, rfl, hreaches.refused hstep hd⟩

theorem watches_newline (h : WatchedEntering r₀ d r r') (ht : r'.current.value = .newline) :
    Watches r₀ d (fun _ => WatchedEntering r₀ d) (advance r) (advance r') := by
  obtain ⟨heq, henters⟩ := h
  have hend : r'.current.value ≠ .endOfInput := by simp [ht]
  rcases advance_recording hend r.notes with
    ⟨a, s', hadvance, hrecording, hstep, hd, ha, harrival⟩ | ⟨fault, s', hadvance, hrecording, hstep, hd⟩
  · rw [heq, hrecording, hadvance]
    exact .ok ⟨rfl, henters.move ht hstep ha harrival hd⟩
  · rw [heq, hrecording, hadvance]
    exact .error ⟨rfl, rfl, henters.refused ht hstep hd⟩

theorem watches_opening (h : Watched r₀ d r r') (ht : r'.current.value = .openParen) :
    Watches r₀ d (fun _ => Watched r₀ (d + 1)) ((advance >>= fun _ => enter >>= fun _ => skipNewlines) r)
      ((advance >>= fun _ => enter >>= fun _ => skipNewlines) r') := by
  obtain ⟨heq, hreaches⟩ := h
  have hend : r'.current.value ≠ .endOfInput := by simp [ht]
  rcases advance_recording hend r.notes with
    ⟨a, s', hadvance, hrecording, hstep, hd, ha, harrival⟩ | ⟨fault, s', hadvance, hrecording, hstep, hd⟩
  · rw [heq, bind_of_ok hrecording, bind_of_ok hadvance, enter_bind, enter_bind]
    have henters : WatchedEntering r₀ d ((s'.recording (r.notes ++ [a])).atDepth (s'.depth + 1))
        (s'.atDepth (s'.depth + 1)) := ⟨rfl, hreaches.enter ht hstep ha harrival hd⟩
    refine (Outcomes.skipNewlines ?_ ?_ (fun _ _ => watches_newline) henters).imp fun _ _ _ _ hs => ?_
    · exact fun _ _ hs => by rw [hs.eq]; rfl
    · exact fun _ _ hs => by rw [hs.eq]; rfl
    · exact ⟨hs.1.eq, hs.1.enters.reaches hs.2⟩
  · rw [heq, bind_of_error hrecording, bind_of_error hadvance]
    exact .error ⟨rfl, rfl, hreaches.refused hstep hd⟩

end

/-- A recorded run and the plain one, which began at the reader. -/
def Lockstep.recording (config : Config) (r₀ : Reader) : Lockstep (List Action) config config where
  toStricter := .same config
  tokens := Eq
  readers := Watched r₀
  At := Anywhere
  faults := WatchedFault r₀
  value_eq := @Located.value_congr
  current h := by rw [h.eq]; rfl
  length_eq h := by rw [h.eq]; rfl
  depth_eq h := by rw [h.eq]; rfl
  plain := by
    rintro d r r' t _ cause h rfl hcause
    exact ⟨rfl, h.eq, h.reaches.fails (Cause.isLexical_of_isPlain hcause)⟩
  unterminated := by
    rintro d r r' o _ h rfl -
    exact ⟨by rw [h.eq]; rfl, h.eq, h.reaches.fails rfl⟩
  unknown h _ _ _ _ _ _ := ⟨by rw [h.eq]; rfl, h.eq, h.reaches.fails rfl⟩
  advance h _ hend hopen := (watches_advance h hend hopen).imp fun _ _ _ _ hs => ⟨hs, trivial⟩
  peek h _ ht := (watches_peek h ht).imp fun _ _ _ _ hs => ⟨hs, trivial⟩
  opening h _ ht _ _ := (watches_opening h ht).imp fun _ _ _ _ hs => ⟨hs, trivial⟩
  readers_leave h := ⟨by rw [h.eq]; rfl, h.reaches.leave⟩
  at_leave := @Anywhere.leave
  faults_leave h := ⟨h.fault_eq, by rw [h.eq]; rfl, h.fails.leave⟩

/-- What comes of making a reader read, and with which actions: those of the recorded run. -/
structure Reader.Attempt (config : Config) (r : Reader) (log : List Action) (outcome : Except Fault Definitions)
    (r' : Reader) : Prop where
  recorded : (r.recording []).parse config = (outcome, r'.recording log)
  walk : r.Walk log r'
  /-- Only the last action may be refused, and what it is refused with is reported. -/
  front : ∃ front, (∀ action ∈ front, action.succeeds = true) ∧
    (log = front ∨ ∃ fault, log = front ++ [.refused fault] ∧ outcome = .error fault)
  lexical : ∀ fault, outcome = .error fault → fault.value.isLexical = true → ∃ front, log = front ++ [.refused fault]
  ended : ∀ d, outcome = .ok d → r'.current.value = .endOfInput
  succeeded : ∀ d, outcome = .ok d → r'.depth = r.depth
  opened : ∀ fault, outcome = .error fault → r.StopsOpening log fault → r'.depth = r.depth + 1
  closed : ∀ fault, outcome = .error fault → ¬ r.StopsOpening log fault → r'.depth = r.depth

section
variable {ν : Type} [Record ν] {config : Config} {d : Definitions} {fault : Fault} {r r' : Reader ν}

theorem Reader.parse_of_ok (h : Reading.score config r = .ok d r') : r.parse config = (.ok d, r') := by
  rw [parse, h]

theorem Reader.parse_of_error (h : Reading.score config r = .error fault r') : r.parse config = (.error fault, r') := by
  rw [parse, h]

end

theorem Watched.start (r : Reader) : Watched r 0 (r.recording []) r := ⟨rfl, .nil r⟩

theorem Reader.Reaches.attempt {config : Config} {r r' : Reader} {log : List Action} {d : Definitions}
    (h : r.Reaches 0 log r') (hend : r'.current.value = .endOfInput)
    (hrecorded : (r.recording []).parse config = (.ok d, r'.recording log)) : r.Attempt config log (.ok d) r' where
  recorded := hrecorded
  walk := h.walk
  front := ⟨log, h.succeeds, .inl rfl⟩
  lexical := by rintro _ ⟨⟩
  ended _ _ := hend
  succeeded _ _ := h.depth_eq
  opened := by rintro _ ⟨⟩
  closed := by rintro _ ⟨⟩

theorem Reader.Fails.attempt {config : Config} {r r' : Reader} {log : List Action} {fault : Fault}
    (h : r.Fails 0 log fault r') (hrecorded : (r.recording []).parse config = (.error fault, r'.recording log)) :
    r.Attempt config log (.error fault) r' where
  recorded := hrecorded
  walk := h.walk
  front := by
    obtain ⟨front, hfront, hlog⟩ := h.front
    exact ⟨front, hfront, hlog.imp id fun h => ⟨fault, h, rfl⟩⟩
  lexical := by
    rintro _ ⟨⟩
    exact h.lexical
  ended := by rintro _ ⟨⟩
  succeeded := by rintro _ ⟨⟩
  opened := by
    rintro _ ⟨⟩
    exact h.opened
  closed := by
    rintro _ ⟨⟩
    exact h.closed

theorem attempt (config : Config) (r : Reader) :
    r.Attempt config (r.actions config) (r.parse config).1 (r.parse config).2 := by
  have hscore : (Lockstep.recording config r).Agree 0 _ (Reading.score config) (Reading.score config) _ :=
    Reading.agree_score
  have houtcome := hscore (r.recording []) r (.start r) trivial
  generalize hx : Reading.score config (r.recording []) = x, hy : Reading.score config r = y at houtcome
  cases houtcome with
  | @ok d s s' hs =>
    obtain ⟨⟨heq, hreaches⟩, -, -, hend⟩ := hs
    have hrecorded := Reader.parse_of_ok hx
    rw [Reader.parse_of_ok hy, Reader.actions, hrecorded]
    exact hreaches.attempt (beq_iff_eq.mp hend) (heq ▸ hrecorded)
  | @error fault fault' s s' hs =>
    obtain ⟨rfl, heq, hfails⟩ := hs
    have hrecorded := Reader.parse_of_error hx
    rw [Reader.parse_of_error hy, Reader.actions, hrecorded]
    exact hfails.attempt (heq ▸ hrecorded)
  | refused hrefused => exact hrefused.elim

end GraphicScore
