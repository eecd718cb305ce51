import GraphicScore.Main
import GraphicScore.FileTree
import GraphicScore.Sink
import GraphicScore.Proofs.Source.RoundTrip
import GraphicScore.Proofs.Source.Newlines
import GraphicScore.Proofs.Source.WellFormed
import GraphicScore.Proofs.Source.Concatenation
import GraphicScore.Proofs.Source.Layout
import GraphicScore.Proofs.Frame.Comments
import GraphicScore.Proofs.Frame.Prologue
import GraphicScore.Proofs.Sink
import GraphicScore.Proofs.Source.Location
import GraphicScore.Proofs.Source.Vocabulary
import GraphicScore.Proofs.Token.Rendering
import GraphicScore.Proofs.Token.LineEnds
import GraphicScore.Proofs.Source.LineEnds
import GraphicScore.Proofs.Source.Tries
import GraphicScore.Proofs.Source.Blocks
import GraphicScore.Proofs.Source.Normal
import GraphicScore.Proofs.Source.Grouping
import GraphicScore.Proofs.Source.Unambiguity
import GraphicScore.Proofs.Token.Settling
import GraphicScore.Proofs.Source.Depth
import GraphicScore.Proofs.Source.Integers
