import Sketchwork.Disk.Tree
import Sketchwork.Main
import Sketchwork.Proofs.Builtin.Errors
import Sketchwork.Proofs.Expr.Parsing
import Sketchwork.Proofs.Feature.Depth
import Sketchwork.Proofs.Outline.Reading
import Sketchwork.Proofs.Feature.Provenance
import Sketchwork.Proofs.Document.Naming
import Sketchwork.Proofs.Outline.Apostrophes
import Sketchwork.Proofs.Document.Labels
import Sketchwork.Proofs.Document.Sources
import Sketchwork.Proofs.Export.Styles
import Sketchwork.Proofs.Export.Hidden
import Sketchwork.Proofs.Draft.Locality
import Sketchwork.Proofs.Document.Names
import Sketchwork.Proofs.Feature.Pulling
import Sketchwork.Proofs.Feature.Framing
import Sketchwork.Proofs.Feature.Scenes
import Sketchwork.Proofs.Builtin.Joining
import Sketchwork.Proofs.Outline.Styles
import Sketchwork.Proofs.Outline.Bounds
import Sketchwork.Proofs.Expr.Viability
import Sketchwork.Proofs.Expr.Tiling
import Sketchwork.Proofs.Outline.LineBreaks
import Sketchwork.Proofs.Outline.Arguments
import Sketchwork.Proofs.Feature.Parameters
import Sketchwork.Proofs.Scene.Levels
import Sketchwork.Proofs.Scene.DrawingOrder
import Sketchwork.Proofs.Builtin.Places
import Sketchwork.Proofs.Builtin.Exploding
import Sketchwork.Proofs.Builtin.Rounding
import Sketchwork.Proofs.Geometry.Reversal
import Sketchwork.Proofs.Geometry.Similarities
import Sketchwork.Proofs.Geometry.Tangency
