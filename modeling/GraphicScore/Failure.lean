import GraphicScore.Fault
import GraphicScore.Text.Quoted

/-!
# Failures

What can go wrong around a score besides its faults: files that cannot be read, and outputs that
take no more. Each failure has a message for people and a report with all its parts.
-/

namespace GraphicScore

inductive Refusal.Kind where
  | notFound
  | permissionDenied
  | isADirectory
  | notADirectory
  | invalidFilename
  | invalidData
  | brokenPipe
  | writeZero
  | other
deriving DecidableEq, Repr

def Refusal.Kind.name : Refusal.Kind → String
  | .notFound => "NotFound"
  | .permissionDenied => "PermissionDenied"
  | .isADirectory => "IsADirectory"
  | .notADirectory => "NotADirectory"
  | .invalidFilename => "InvalidFilename"
  | .invalidData => "InvalidData"
  | .brokenPipe => "BrokenPipe"
  | .writeZero => "WriteZero"
  | .other => "Other"

/-- Why reading or writing did not go on; the code is the operating system's, if it refused. -/
structure Refusal where
  kind : Refusal.Kind
  message : String
  code : Option Nat := none
deriving DecidableEq, Repr

namespace Refusal

def notFound : Refusal := ⟨.notFound, "No such file or directory", some 2⟩

def permissionDenied : Refusal := ⟨.permissionDenied, "Permission denied", some 13⟩

def notADirectory : Refusal := ⟨.notADirectory, "Not a directory", some 20⟩

def isADirectory : Refusal := ⟨.isADirectory, "Is a directory", some 21⟩

def nameTooLong : Refusal := ⟨.invalidFilename, "File name too long", some 36⟩

def invalidText : Refusal := ⟨.invalidData, "stream did not contain valid UTF-8", none⟩

/-- The refusal that the operating system means by a code, if it is one of those above. -/
def ofCode? (code : Nat) : Option Refusal :=
  [notFound, permissionDenied, notADirectory, isADirectory, nameTooLong].find? (·.code == some code)

def nothingTaken : Refusal := ⟨.writeZero, "failed to write whole buffer", none⟩

def text (r : Refusal) : String :=
  match r.code with
  | some code => s!"{r.message} (os error {code})"
  | none => r.message

def report (r : Refusal) : String :=
  let parts := s!"kind: {r.kind.name}, message: {Quoted.quote r.message}"
  match r.code with
  | some code => s!"Os \x7b code: {code}, {parts} \x7d"
  | none => s!"Error \x7b {parts} \x7d"

end Refusal

inductive Failure where
  | malformed (line column : Nat) (message : String)
  | unreadable (path : String) (refusal : Refusal)
  | unwritable (refusal : Refusal)
deriving DecidableEq, Repr

namespace Failure

def ofFault (fault : Fault) : Failure :=
  .malformed fault.position.line fault.position.column fault.value.message

def isMalformed : Failure → Bool
  | .malformed .. => true
  | _ => false

def line? : Failure → Option Nat
  | .malformed line _ _ => some line
  | _ => none

/-- What reading or writing answered, if that is what failed. -/
def refusal? : Failure → Option Refusal
  | .malformed .. => none
  | .unreadable _ refusal => some refusal
  | .unwritable refusal => some refusal

def message : Failure → String
  | .malformed line column text => s!"Syntax error at line {line}, column {column}: {text}"
  | .unreadable path refusal => s!"Failed to read score file '{path}': {refusal.text}"
  | .unwritable refusal => s!"Output error: {refusal.text}"

def report : Failure → String
  | .malformed line column text =>
    s!"SyntaxError \x7b line: {line}, column: {column}, message: {Quoted.quote text} \x7d"
  | .unreadable path refusal =>
    s!"FileReadError \x7b path: {Quoted.quote path}, source: {refusal.report} \x7d"
  | .unwritable refusal => s!"Io({refusal.report})"

end Failure

end GraphicScore
