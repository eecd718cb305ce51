import GraphicScore.Token.Feed

/-!
# Reading

A reader goes through a feed of tokens, one at a time and at most one ahead. It outlives a fault:
what has been taken off the feed stays taken, and reading can start again from there. Whoever wants
to know what a reader does can have it noted; reading itself notes nothing and never looks at notes.
-/

namespace GraphicScore

/-! ## notes -/

/-- What a reader does to the tokens. -/
inductive Action where
  /-- The feed answers with a token to go on to. -/
  | drawn (found : Located Token)
  /-- The reader goes on to the token ahead. -/
  | moved (found : Located Token)
  /-- The feed answers with a token to look at ahead. -/
  | peeked (found : Located Token)
  /-- The feed answers with a fault. -/
  | refused (fault : Fault)
deriving DecidableEq

class Record (ν : Type) where
  add : ν → Action → ν

instance : Record Unit := ⟨fun _ _ => ()⟩

/-! ## readers -/

structure Reader (ν : Type := Unit) where
  current : Located Token
  ahead : Option (Located Token)
  feed : Feed
  /-- How many parentheses are open; inside them newlines carry no meaning. -/
  depth : Nat
  notes : ν

variable {ν : Type}

namespace Reader

/-- A reader starts on a separator of its own, so that the feed's first fault is met in reading. -/
def ofFeed (feed : Feed) : Reader := ⟨⟨.start, .newline⟩, none, feed, 0, ()⟩

/-- What the reader stands on and all that is left behind it. -/
def remaining (r : Reader ν) : List Answer :=
  .ok r.current :: r.ahead.toList.map .ok ++ r.feed.upcoming

def note [Record ν] (r : Reader ν) (a : Action) : Reader ν := { r with notes := Record.add r.notes a }

end Reader

abbrev Recording (ν : Type) := EStateM Fault (Reader ν)

abbrev Reading := Recording Unit

namespace Reading

def current : Recording ν (Located Token) := return (← get).current

def token : Recording ν Token := return (← current).value

/-! ## faults -/

section
variable {α : Type}

def faultAt (position : Position) (cause : Cause) : Recording ν α := throw ⟨position, cause⟩

def fault (cause : Cause) : Recording ν α := do
  faultAt (← current).position cause

def unexpected (wanted : Wanted) : Recording ν α := do
  fault (.expected wanted (← token))

end

def require (holds : Bool) (cause : Cause) : Recording ν Unit :=
  if holds then return else fault cause

def demand (wanted : Wanted) (accepts : Token → Bool) : Recording ν Unit := do
  if accepts (← token) then return else unexpected wanted

/-! ## depth -/

def enter : Recording ν Unit := modify fun r => { r with depth := r.depth + 1 }

/-- Reads something and counts one open parenthesis less afterwards, fault or not. -/
def leaving {α : Type} (p : Recording ν α) : Recording ν α := fun r =>
  match p r with
  | .ok a r => .ok a { r with depth := r.depth - 1 }
  | .error f r => .error f { r with depth := r.depth - 1 }

/-! ## repetition -/

section
variable {σ : Type} (step : σ → Recording ν (ForInStep σ))

/-- Repeats a step until it is done: once, and at most once more for each of the answers. -/
def loopWithin : List Answer → σ → Recording ν σ
  | [], s => do
    match ← step s with
    | .done s => return s
    | .yield s => return s
  | _ :: fuel, s => do
    match ← step s with
    | .done s => return s
    | .yield s => loopWithin fuel s

/-- Repeats a step until it is done. A step that goes on has moved, so what remains is fuel enough. -/
def loop (s : σ) : Recording ν σ := do
  loopWithin step (← get).remaining s

end

/-! ## moving on -/

section
variable [Record ν]

/-- Asks the feed for a token, and what for. -/
def draw (action : Located Token → Action) : Recording ν (Located Token) := fun r =>
  let (answer, feed) := r.feed.next
  match answer with
  | .ok found => .ok found ({ r with feed }.note (action found))
  | .error fault => .error fault ({ r with feed }.note (.refused fault))

/-- Moves to the next token; on a fault the current token stays. -/
def advance : Recording ν Unit := do
  match (← get).ahead with
  | some found => modify fun r => { r with current := found, ahead := none }.note (.moved found)
  | none =>
    let found ← draw .drawn
    modify ({ · with current := found })

def peek : Recording ν Token := do
  match (← get).ahead with
  | some found => return found.value
  | none =>
    let found ← draw .peeked
    modify ({ · with ahead := some found })
    return found.value

def expect (wanted : Wanted) (t : Token) : Recording ν Unit := do
  demand wanted (· == t)
  advance

def skipStep (p : Token → Bool) (_ : Unit) : Recording ν (ForInStep Unit) := do
  if p (← token) then
    advance
    return .yield ()
  else return .done ()

def skipWhile (p : Token → Bool) : Recording ν Unit := loop (skipStep p) ()

def skipNewlines : Recording ν Unit := skipWhile (· == .newline)

def skipSeparators : Recording ν Unit := skipWhile Token.isSeparator

def skipInsignificant : Recording ν Unit := do
  if 0 < (← get).depth then skipNewlines else return

/-! ## lists and sequences -/

variable {σ : Type}

/-- Goes on with a list behind a comma and the newlines after it, and ends the list anywhere else. -/
def afterComma (s : σ) : Recording ν (ForInStep σ) := do
  if (← token) = .comma then
    advance
    skipNewlines
    return .yield s
  else return .done s

def listStep (item : σ → Recording ν σ) (s : σ) : Recording ν (ForInStep σ) := do
  afterComma (← item s)

def list (item : σ → Recording ν σ) (s : σ) : Recording ν σ := loop (listStep item) s

/-- One more item, unless the next token ends the sequence. -/
def sequenceStep (ends : Token → Bool) (wanted : Wanted) (item : σ → Recording ν σ) (s : σ) :
    Recording ν (ForInStep σ) := do
  skipSeparators
  if ends (← token) then return .done s
  else
    let s ← item s
    demand wanted fun t => t.isSeparator || ends t
    return .yield s

def sequence (ends : Token → Bool) (wanted : Wanted) (item : σ → Recording ν σ) (s : σ) : Recording ν σ :=
  loop (sequenceStep ends wanted item) s

end

end Reading

end GraphicScore
