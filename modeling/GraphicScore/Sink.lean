import GraphicScore.Failure

/-!
# Sinks

A sink takes bytes call by call. It may take fewer than it is offered, and one of its calls may
fail. Writing everything offers what is left until nothing is, or until the sink gives up.
-/

namespace GraphicScore

structure Sink where
  /-- The number of the call that fails, counted from zero. -/
  failAt : Option Nat := none
  /-- The most bytes that one call takes. -/
  chunk : Option Nat := none

/-- What became of a text: how many calls it took, what was accepted, and how it ended. -/
structure Delivery where
  calls : Nat
  accepted : List UInt8
  outcome : Except Refusal Unit

namespace Sink

/-- How many of the offered bytes a call takes. -/
def write (s : Sink) (call : Nat) (offered : List UInt8) : Except Refusal Nat :=
  if s.failAt = some call then .error ⟨.brokenPipe, "closed", none⟩
  else .ok (s.chunk.elim offered.length (min offered.length))

def deliverFrom (s : Sink) (call : Nat) (bytes : List UInt8) : Delivery :=
  if bytes.isEmpty then ⟨0, [], .ok ()⟩
  else
    match s.write call bytes with
    | .error refusal => ⟨1, [], .error refusal⟩
    | .ok 0 => ⟨1, [], .error Refusal.nothingTaken⟩
    | .ok (taken + 1) =>
      let rest := s.deliverFrom (call + 1) (bytes.drop (taken + 1))
      ⟨rest.calls + 1, bytes.take (taken + 1) ++ rest.accepted, rest.outcome⟩
termination_by bytes.length
decreasing_by
  have : bytes ≠ [] := by simp_all
  have := List.length_pos_iff.mpr this
  simp only [List.length_drop]
  omega

def deliver (s : Sink) (text : String) : Delivery := s.deliverFrom 0 text.toUTF8.toList

end Sink

end GraphicScore
