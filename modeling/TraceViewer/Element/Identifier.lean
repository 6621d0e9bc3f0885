import TraceViewer.Element.Basic
import TraceViewer.Text.Blank

namespace TraceViewer

/-- Whether `part` stands somewhere within `whole`. -/
def occursIn (part : List Char) : List Char → Bool
  | [] => part.isEmpty
  | c :: rest => part.isPrefixOf (c :: rest) || occursIn part rest

/-- What is left of a list after a given beginning. -/
def afterStart? [BEq α] : List α → List α → Option (List α)
  | [], rest => some rest
  | _ :: _, [] => none
  | x :: xs, y :: ys => if x == y then afterStart? xs ys else none

/-- The first role in detection order whose marker stands within the body. -/
def NodeRole.detect (body : String) : Option NodeRole :=
  detectionOrder.find? fun role => occursIn role.marker.toList body.toList

/-- The scheme that opens the identifiers of a kind. -/
def ElementKind.scheme : ElementKind → String
  | node => "r2ta-node://"
  | edge => "r2ta-edge://"

/-- The body of an identifier of this kind. -/
def ElementKind.body? (kind : ElementKind) (raw : String) : Option String :=
  (afterStart? kind.scheme.toList raw.toList).map String.ofList

namespace Element

/-- The element of a body, which is kept as it is written; a blank body names none. -/
def ofBody? (kind : ElementKind) (body : String) : Option Element :=
  if isAllBlank body then none else some ⟨body, kind, NodeRole.detect body⟩

/-- The element that an identifier names. -/
def ofIdentifier? (raw : String) : Option Element :=
  match ElementKind.node.body? raw, ElementKind.edge.body? raw with
  | some body, _ => ofBody? .node body
  | none, some body => ofBody? .edge body
  | none, none => none

end Element

/-- Whether a text has the form of an identifier, whatever its body. -/
def isIdentifier (raw : String) : Bool :=
  (ElementKind.node.body? raw).isSome || (ElementKind.edge.body? raw).isSome

end TraceViewer
