import GraphicScore.Character
import GraphicScore.Fault
import GraphicScore.Number.Numeral

/-!
# Lexemes

What stands at the front of a text: first trivia, which carries no meaning, and then a lexeme, which
is a token or cannot be one. Both are split off without losing a character.
-/

namespace GraphicScore

/-- Splits blanks, line continuations and a comment off the front of a text. -/
def trivia : List Char → List Char × List Char
  | ' ' :: cs => skip [' '] (trivia cs)
  | '\t' :: cs => skip ['\t'] (trivia cs)
  | '\r' :: cs => skip ['\r'] (trivia cs)
  | '\\' :: '\n' :: cs => skip ['\\', '\n'] (trivia cs)
  | '\\' :: '\r' :: '\n' :: cs => skip ['\\', '\r', '\n'] (trivia cs)
  | '#' :: cs => ('#' :: cs.takeWhile (· != '\n'), cs.dropWhile (· != '\n'))
  | cs => ([], cs)
where
  skip (piece : List Char) (split : List Char × List Char) : List Char × List Char :=
    (piece ++ split.1, split.2)

/-- The token or fault at the front of a text, the characters it takes, and what is left. -/
structure Lexeme where
  outcome : Except Cause Token
  taken : List Char
  rest : List Char

namespace Lexeme

def arrow : List Char → Lexeme
  | '>' :: cs => ⟨.ok .arrow, ['=', '>'], cs⟩
  | cs => ⟨.error .loneEquals, ['='], cs⟩

/-- What a colon starts; a symbol's name may begin with a numeral. -/
def symbol (cs : List Char) : Lexeme :=
  let name := cs.takeWhile Character.continuesName
  let outcome := if name.isEmpty then .error .namelessSymbol else .ok (.symbol (String.ofList name))
  ⟨outcome, ':' :: name, cs.dropWhile Character.continuesName⟩

def number (cs : List Char) : Lexeme :=
  let (numeral, rest) := Numeral.scan cs
  let text := String.ofList numeral.spelling
  ⟨.ok (if numeral.isFloat then .float text else .integer text), numeral.spelling, rest⟩

def identifier (cs : List Char) : Lexeme :=
  let name := cs.takeWhile Character.continuesName
  ⟨.ok (.identifier (String.ofList name)), name, cs.dropWhile Character.continuesName⟩

/-- The lexeme of a text without trivia in front; a character that starts no token is left there. -/
def read : List Char → Lexeme
  | [] => ⟨.ok .endOfInput, [], []⟩
  | c :: cs =>
    match Token.ofChar? c with
    | some t => ⟨.ok t, [c], cs⟩
    | none =>
      if c = '=' then arrow cs
      else if c = ':' then symbol cs
      else if c.isDigit then number (c :: cs)
      else if Character.startsName c then identifier (c :: cs)
      else ⟨.error (.unexpectedCharacter c), [], c :: cs⟩

/-- Whether the same outcome would be met again behind the lexeme. -/
def settles : Except Cause Token → Bool
  | .ok .endOfInput => true
  | .error (.unexpectedCharacter _) => true
  | _ => false

end Lexeme

/-! ## nothing is lost -/

theorem trivia_append (cs : List Char) : (trivia cs).1 ++ (trivia cs).2 = cs := by
  fun_induction trivia cs <;> simp_all [trivia.skip]

theorem length_trivia_le (cs : List Char) : (trivia cs).2.length ≤ cs.length := by
  have h := congrArg List.length (trivia_append cs)
  simp only [List.length_append] at h
  omega

namespace Lexeme

theorem taken_append_rest (cs : List Char) : (read cs).taken ++ (read cs).rest = cs := by
  fun_cases read cs
  case case3 cs _ => fun_cases arrow cs <;> simp
  all_goals simp_all [symbol, number, identifier, Numeral.scan_append]

theorem taken_ne_nil (cs : List Char) (h : settles (read cs).outcome = false) :
    (read cs).taken ≠ [] := by
  revert h
  fun_cases read cs
  case case1 => simp [settles]
  case case2 => simp
  case case3 cs _ => fun_cases arrow cs <;> simp
  case case4 => simp [symbol]
  case case5 digit => simp [number, Numeral.scan, Numeral.spelling, digit]
  case case6 starts => simp [identifier, Character.continuesName_of_startsName starts]
  case case7 => simp [settles]

end Lexeme

end GraphicScore
