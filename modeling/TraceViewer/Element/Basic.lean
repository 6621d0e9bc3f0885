import TraceViewer.Chart

namespace TraceViewer

/-- What a node of the graph does. -/
inductive NodeRole where
  | callback
  | timer
  | service
  | publisher
  | subscriber
deriving DecidableEq

namespace NodeRole

/-- The roles in the order in which a body is searched for them. -/
def detectionOrder : List NodeRole :=
  [subscriber, callback, timer, service, publisher]

/-- The text that marks the role within a body. -/
def marker : NodeRole → String
  | callback => "interface_type=Callback"
  | timer => "interface_type=Timer"
  | service => "interface_type=Service"
  | publisher => "interface_type=Publisher"
  | subscriber => "interface_type=Subscriber"

def label : NodeRole → String
  | callback => "callback"
  | timer => "timer"
  | service => "service"
  | publisher => "publisher"
  | subscriber => "subscriber"

def ofLabel? (word : String) : Option NodeRole :=
  detectionOrder.find? (·.label == word)

end NodeRole

/-- A node of the graph or a connection between two. -/
inductive ElementKind where
  | node
  | edge
deriving DecidableEq

namespace ElementKind

def label : ElementKind → String
  | node => "node"
  | edge => "edge"

def ofLabel? (word : String) : Option ElementKind :=
  [node, edge].find? (·.label == word)

end ElementKind

structure Element where
  identifier : String
  kind : ElementKind
  role : Option NodeRole
deriving DecidableEq

namespace Element

/-- The metric charted unless another is chosen. -/
def defaultMetric (e : Element) : Option Metric :=
  match e.kind, e.role with
  | .edge, _ => some .messageLatency
  | .node, some .callback => some .callbackDuration
  | .node, some .timer => some .activationDelay
  | .node, some .publisher => some .publicationDelay
  | .node, some .subscriber => some .messageDelay
  | .node, some .service => none
  | .node, none => none

/-- The metrics offered for choice; an element with a single sensible metric offers none. -/
def selectableMetrics (e : Element) : List Metric :=
  match e.kind, e.role with
  | .node, some .callback => [.callbackDuration, .activationDelay]
  | .node, some .service => Metric.all
  | .node, none => Metric.all
  | _, _ => []

def kindLabel (e : Element) : String :=
  match e.kind, e.role with
  | .edge, _ => "edge"
  | .node, some role => role.label
  | .node, none => "node"

end Element

end TraceViewer
