import TraceViewer.Element.Identifier
import TraceViewer.Element.Label
import TraceViewer.Graph.Quoted

namespace TraceViewer

/-- An element as the graph description names it. -/
structure Entry where
  raw : String
  title : String
  label : String
  element : Element
deriving DecidableEq

namespace Entry

def ofRaw? (raw : String) : Option Entry :=
  (Element.ofIdentifier? raw).map fun e =>
    ⟨raw, displayTitle e.identifier, shortLabel e.identifier, e⟩

/-- Adds the entry of a quoted value, if it names an element that is not listed yet. -/
def addValue (entries : List Entry) (value : String) : List Entry :=
  let raw := trimBlank value
  if entries.any (·.raw == raw) then entries
  else
    match ofRaw? raw with
    | some e => entries ++ [e]
    | none => entries

/-- The elements that a graph description names, each once, in order of first appearance. -/
def scan (text : String) : List Entry :=
  (Quoted.values text).foldl addValue []

end Entry

end TraceViewer
