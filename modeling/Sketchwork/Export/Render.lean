/-
  Sketchwork.Export.Render — the text of a scene in one of the formats.
-/
import Sketchwork.Export.Listing
import Sketchwork.Export.Structured
import Sketchwork.Export.Svg

namespace Sketchwork.Export

def render (root : Node) (format : Format) (options : Options) (config : Config) : Except Error String := do
  let settings ← Settings.resolve options config
  match format with
  | .svg => return Svg.render settings root
  | .json => return Structured.render settings.pretty root
  | .debug => return Listing.render root

end Sketchwork.Export
