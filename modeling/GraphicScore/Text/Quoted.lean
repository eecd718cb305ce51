import GraphicScore.Character

/-!
# Quoted text

A text between double quotes, in which quotes, backslashes and every character that could not be
seen are written as escapes.
-/

namespace GraphicScore.Quoted

/-- The escape of a code point: its number in lower-case hexadecimal. -/
def numbered (c : Char) : List Char :=
  ['\\', 'u', '{'] ++ Nat.toDigits 16 c.toNat ++ ['}']

def escape (c : Char) : List Char :=
  match c with
  | '"' => ['\\', '"']
  | '\\' => ['\\', '\\']
  | '\n' => ['\\', 'n']
  | '\r' => ['\\', 'r']
  | '\t' => ['\\', 't']
  | '\x00' => ['\\', '0']
  | c => if Character.isHidden c then numbered c else [c]

def quote (text : String) : String :=
  String.ofList ('"' :: text.toList.flatMap escape ++ ['"'])

end GraphicScore.Quoted
