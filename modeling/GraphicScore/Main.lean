import GraphicScore.CommandLine

/-!
# The program

Reads the score file of a request and prints the outcome.
-/

namespace GraphicScore

/-- The operating system's code of an error about a file; opening a file negates it. -/
def systemCode : IO.Error → Nat
  | .noFileOrDirectory _ code _ => code.toInt32.toInt.natAbs
  | .permissionDenied _ code _ => code.toInt32.toInt.natAbs
  | .inappropriateType _ code _ => code.toInt32.toInt.natAbs
  | .invalidArgument _ code _ => code.toInt32.toInt.natAbs
  | _ => 0

def refusalOf (e : IO.Error) : Refusal :=
  (Refusal.ofCode? (systemCode e)).getD ⟨.other, toString e, none⟩

def readFile (path : String) : IO (Except Refusal ByteArray) := do
  try
    return .ok (← IO.FS.readBinFile path)
  catch e => return .error (refusalOf e)

end GraphicScore

open GraphicScore in
def main (arguments : List String) : IO UInt32 := do
  match Request.ofArguments? arguments with
  | none =>
    IO.eprintln "usage: csgraph [--check] [--strict-converters] [--frame] [--width N] [--height N] FILE"
    return usageExit.toUInt32
  | some request =>
    let outcome := request.outcome (← readFile request.file)
    IO.print outcome.output
    IO.eprint outcome.complaint
    return outcome.exit.toUInt32
