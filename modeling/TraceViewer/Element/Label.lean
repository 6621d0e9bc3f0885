import TraceViewer.Text.FormPairs

namespace TraceViewer

namespace FormPairs

/-- All pairs in order, each `key=value` or, with an empty value, its key alone. -/
def title (pairs : FormPairs) : String :=
  " ".intercalate (pairs.map fun p => if p.2 = "" then p.1 else p.1 ++ "=" ++ p.2)

/-- A connection by its two ends and, if known, what it carries. -/
def edgeLabel? (pairs : FormPairs) : Option String :=
  match pairs.value? "source_node", pairs.value? "target_node" with
  | some source, some target =>
    let ends := source ++ " -> " ++ target
    match pairs.value? "identifier" with
    | some topic => some (ends ++ " (" ++ topic ++ ")")
    | none => some ends
  | _, _ => none

/-- The parts that tell a node apart. -/
def nodeParts (pairs : FormPairs) : List String :=
  ["node", "interface", "topic"].filterMap pairs.value?

/-- The ends of a connection, else the parts of a node, else the whole title. -/
def label (pairs : FormPairs) : String :=
  match pairs.edgeLabel? with
  | some label => label
  | none => if pairs.nodeParts = [] then pairs.title else " ".intercalate pairs.nodeParts

end FormPairs

def displayTitle (identifier : String) : String :=
  (FormPairs.ofText identifier).title

def shortLabel (identifier : String) : String :=
  (FormPairs.ofText identifier).label

end TraceViewer
