/-
The styles in which a report can be written.
-/
import ClassAtlas.Json.Printer
import ClassAtlas.Report.Compact
import ClassAtlas.Report.Full
import ClassAtlas.Report.Markdown

namespace ClassAtlas

inductive Style where
  | compact (layout : Json.Layout)
  | full (layout : Json.Layout)
  | markdown (showExternal : Bool)
deriving DecidableEq, Repr

namespace Report

def render (r : Report) : Style → Text
  | .compact layout => r.toCompactJson.render layout
  | .full layout => r.toJson.render layout
  | .markdown showExternal => r.toMarkdown showExternal

end Report

end ClassAtlas
