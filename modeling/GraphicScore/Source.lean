import GraphicScore.Definitions
import GraphicScore.Number.Shortest

/-!
# Canonical source

Every part of a score has one text, which reads back as an equal part. Operands get parentheses
only where the tree asks for them.
-/

namespace GraphicScore

/-- A float keeps a point, so that it is not read back as an integer. -/
def Constant.text : Constant → String
  | .int value => toString value.toInt
  | .float value =>
    let digits := value.text
    String.ofList (if digits.contains '.' then digits else digits ++ ['.', '0'])

namespace Expr

def calls (converters : List Converter) (body : String) : String :=
  converters.foldr (fun converter text => converter.name ++ "(" ++ text ++ ")") body

/--
Whether an operand must stand in parentheses under an operator of the given precedence. A call has
parentheses already, and a right operand of equal precedence would be taken by the left.
-/
def needsParens (precedence : Nat) (isRight : Bool) : Expr → Bool
  | .binary operator _ _ [] =>
    operator.precedence < precedence || isRight && operator.precedence == precedence
  | _ => false

def text : Expr → String
  | .constant value => value.text
  | .pField number converters => calls converters ("p" ++ toString number.toNat)
  | .binary operator left right converters =>
    let precedence := operator.precedence
    let first := if left.needsParens precedence false then "(" ++ left.text ++ ")" else left.text
    let second := if right.needsParens precedence true then "(" ++ right.text ++ ")" else right.text
    calls converters (first ++ " " ++ operator.symbol.toString ++ " " ++ second)

end Expr

def Options.text (o : Options) : String :=
  String.join (o.entries.map fun (name, value) => ", :" ++ name ++ " => " ++ value.text)

def Line.text (l : Line) : String :=
  "line " ++ ", ".intercalate [l.xstart.text, l.xend.text, l.ystart.text, l.yend.text] ++ l.options.text

def Feature.text : Feature → String
  | .line l => l.text

def Instrument.text (i : Instrument) : String :=
  String.join (i.features.map fun feature => "  " ++ feature.text ++ "\n")

def Block.text (b : Block) : String :=
  "instr " ++ ", ".intercalate (b.numbers.map instrumentKey) ++ " do\n" ++ b.instrument.text ++ "end\n"

def Definitions.toSource (d : Definitions) : String :=
  "\n".intercalate (d.blocks.map Block.text)

end GraphicScore
