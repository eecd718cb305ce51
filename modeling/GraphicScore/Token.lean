/-!
# Tokens

The words of a score. A token keeps the text that its kind leaves open: names, and numbers as they
were written.
-/

namespace GraphicScore

inductive Token.Kind where
  | identifier | integer | float | symbol
  | comma | plus | minus | star | slash
  | openParen | closeParen | openBrace | closeBrace
  | arrow | semicolon | newline | endOfInput
deriving DecidableEq, Repr

def Token.Kind.description : Token.Kind → String
  | .identifier => "identifier"
  | .integer => "integer"
  | .float => "number"
  | .symbol => "symbol"
  | .comma => "','"
  | .plus => "'+'"
  | .minus => "'-'"
  | .star => "'*'"
  | .slash => "'/'"
  | .openParen => "'('"
  | .closeParen => "')'"
  | .openBrace => "'\x7b'"
  | .closeBrace => "'\x7d'"
  | .arrow => "'=>'"
  | .semicolon => "';'"
  | .newline => "end of line"
  | .endOfInput => "end of input"

inductive Token where
  | identifier (name : String)
  | integer (digits : String)
  | float (text : String)
  | symbol (name : String)
  | comma | plus | minus | star | slash
  | openParen | closeParen | openBrace | closeBrace
  | arrow | semicolon | newline | endOfInput
deriving DecidableEq, Repr

namespace Token

def kind : Token → Kind
  | .identifier _ => .identifier
  | .integer _ => .integer
  | .float _ => .float
  | .symbol _ => .symbol
  | .comma => .comma
  | .plus => .plus
  | .minus => .minus
  | .star => .star
  | .slash => .slash
  | .openParen => .openParen
  | .closeParen => .closeParen
  | .openBrace => .openBrace
  | .closeBrace => .closeBrace
  | .arrow => .arrow
  | .semicolon => .semicolon
  | .newline => .newline
  | .endOfInput => .endOfInput

def ofChar? : Char → Option Token
  | '\n' => some .newline
  | ',' => some .comma
  | '+' => some .plus
  | '-' => some .minus
  | '*' => some .star
  | '/' => some .slash
  | '(' => some .openParen
  | ')' => some .closeParen
  | '{' => some .openBrace
  | '}' => some .closeBrace
  | ';' => some .semicolon
  | _ => none

/-- The token's text; a symbol's has no colon. -/
def text : Token → String
  | .identifier name => name
  | .integer digits => digits
  | .float text => text
  | .symbol name => name
  | .comma => ","
  | .plus => "+"
  | .minus => "-"
  | .star => "*"
  | .slash => "/"
  | .openParen => "("
  | .closeParen => ")"
  | .openBrace => "\x7b"
  | .closeBrace => "\x7d"
  | .arrow => "=>"
  | .semicolon => ";"
  | .newline => "\n"
  | .endOfInput => ""

def shown : Token → String
  | .identifier name => "'" ++ name ++ "'"
  | .integer digits => "'" ++ digits ++ "'"
  | .float text => "'" ++ text ++ "'"
  | .symbol name => "':" ++ name ++ "'"
  | t => t.kind.description

def isSeparator (t : Token) : Bool := t == .newline || t == .semicolon

end Token

end GraphicScore
