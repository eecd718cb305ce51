import GraphicScore.Failure
import GraphicScore.Frame
import GraphicScore.Reading.Score
import GraphicScore.Source

/-!
# Command line

What a run prints, given its arguments and the way files are read. A run without `--frame` or
`--check` prints the canonical source of one score file.
-/

namespace GraphicScore

structure Request where
  file : String
  check : Bool := false
  strict : Bool := false
  frame : Bool := false
  width : UInt32 := 1000
  height : UInt32 := 1000

/-- What a run leaves behind; a complaint about the arguments themselves has no fixed wording. -/
structure Outcome where
  exit : UInt8
  output : String := ""
  complaint : String := ""

namespace Request

/-- The arguments seen so far; nothing may be given twice. -/
structure Given where
  file : Option String := none
  check : Bool := false
  strict : Bool := false
  frame : Bool := false
  width : Option UInt32 := none
  height : Option UInt32 := none

inductive Size where
  | width
  | height

def sizeOption? : String → Option Size
  | "--width" => some .width
  | "--height" => some .height
  | _ => none

/-- A decimal integer in the range of a size; it may have a sign, as long as it is not negative. -/
def size? (text : String) : Option UInt32 := do
  let (negative, digits) := match text.toList with
    | '-' :: digits => (true, digits)
    | '+' :: digits => (false, digits)
    | digits => (false, digits)
  if digits.isEmpty || !digits.all Char.isDigit then none
  else
    let value ← Literal.uint32? digits
    if negative && value != 0 then none else some value

namespace Given

def addFile? (g : Given) (path : String) : Option Given :=
  if g.file.isSome || path.isEmpty then none else some { g with file := some path }

def addSize? (g : Given) (size : Size) (text : String) : Option Given := do
  let value ← size? text
  match size with
  | .width => if g.width.isSome then none else some { g with width := some value }
  | .height => if g.height.isSome then none else some { g with height := some value }

def addFlag? (g : Given) : String → Option Given
  | "--check" => if g.check then none else some { g with check := true }
  | "--strict-converters" => if g.strict then none else some { g with strict := true }
  | "--frame" => if g.frame then none else some { g with frame := true }
  | _ => none

def addAssigned? (g : Given) (argument : String) : Option Given := do
  let cs := argument.toList
  let size ← sizeOption? (String.ofList (cs.takeWhile (· != '=')))
  match cs.dropWhile (· != '=') with
  | '=' :: value => g.addSize? size (String.ofList value)
  | _ => none

/-- Whether an argument is written as an option; a lone hyphen is a file. -/
def isOption (argument : String) : Bool := argument.startsWith "-" && argument != "-"

/-- Takes the arguments in turn; behind `--` all of them are files. -/
def addAll? (g : Given) : List String → Option Given
  | [] => some g
  | "--" :: files => files.foldlM addFile? g
  | argument :: others =>
    match sizeOption? argument, others with
    | some _, [] => none
    | some size, value :: others =>
      if isOption value then none
      else do
        let g ← g.addSize? size value
        g.addAll? others
    | none, others => do
      let g ← if isOption argument then g.addFlag? argument <|> g.addAssigned? argument
        else g.addFile? argument
      g.addAll? others

end Given

def ofArguments? (arguments : List String) : Option Request := do
  let g ← Given.addAll? {} arguments
  let file ← g.file
  return ⟨file, g.check, g.strict, g.frame, g.width.getD 1000, g.height.getD 1000⟩

def config (r : Request) : Config := if r.strict then { unknown := .reject } else {}

/-- The canonical source, within a document if a frame is asked for. -/
def print (r : Request) (d : Definitions) : String :=
  if r.check then ""
  else if r.frame then
    let frame : Frame := { width := r.width, height := r.height, title := some r.file }
    d.header frame ++ "<!--\n" ++ d.toSource ++ "-->\n" ++ d.trailer
  else d.toSource

def answer (r : Request) (read : Except Refusal ByteArray) : Except Failure String := do
  let bytes ← read.mapError (.unreadable r.file)
  match String.fromUTF8? bytes with
  | none => throw (.unreadable r.file Refusal.invalidText)
  | some source => return r.print (← (parse source r.config).mapError .ofFault)

def outcome (r : Request) (read : Except Refusal ByteArray) : Outcome :=
  match r.answer read with
  | .ok text => { exit := 0, output := text }
  | .error failure => { exit := 1, complaint := "Error: " ++ failure.report ++ "\n" }

end Request

def usageExit : UInt8 := 2

end GraphicScore
