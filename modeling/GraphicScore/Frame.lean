import GraphicScore.Definitions

/-!
# Frames

The document around a drawing: what stands in front of its body and what closes it.
-/

namespace GraphicScore

structure Frame where
  width : UInt32 := 1000
  height : UInt32 := 1000
  /-- The fill behind the drawing; without one the frame is transparent. -/
  background : Option String := some "white"
  title : Option String := none
deriving DecidableEq, Repr

namespace Frame

def escape : Char → String
  | '&' => "&amp;"
  | '<' => "&lt;"
  | '>' => "&gt;"
  | '"' => "&quot;"
  | '\'' => "&apos;"
  | c => c.toString

def escaped (text : String) : String := String.join (text.toList.map escape)

def quoted (text : String) : String := "\"" ++ text ++ "\""

def declaration : String := "<?xml version=\"1.0\" encoding=\"UTF-8\" standalone=\"no\"?>\n"

def contents (d : Definitions) : String :=
  "<!-- csgraph 0.1.0: instruments " ++ " ".intercalate d.keys ++ " -->\n"

def opening (f : Frame) : String :=
  let width := toString f.width.toNat
  let height := toString f.height.toNat
  "<svg xmlns=\"http://www.w3.org/2000/svg\" version=\"1.1\" width=" ++ quoted width ++
    " height=" ++ quoted height ++ " viewBox=" ++ quoted ("0 0 " ++ width ++ " " ++ height) ++ ">\n"

def titleElement (title : String) : String := "  <title>" ++ escaped title ++ "</title>\n"

def backgroundElement (f : Frame) (fill : String) : String :=
  "  <rect x=\"0\" y=\"0\" width=" ++ quoted (toString f.width.toNat) ++
    " height=" ++ quoted (toString f.height.toNat) ++ " fill=" ++ quoted (escaped fill) ++ "/>\n"

end Frame

def Definitions.header (d : Definitions) (f : Frame := {}) : String :=
  Frame.declaration ++ Frame.contents d ++ f.opening ++ f.title.elim "" Frame.titleElement ++
    f.background.elim "" f.backgroundElement

/-- What closes the document; it does not depend on the frame. -/
def Definitions.trailer (d : Definitions) : String :=
  "<!-- end of " ++ toString d.size ++ " instrument(s) -->\n</svg>\n"

end GraphicScore
