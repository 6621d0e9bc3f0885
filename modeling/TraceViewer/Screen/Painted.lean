import TraceViewer.Screen.App

namespace TraceViewer

structure Config where
  sourceFile : Path
  tracerProgram : Path
  dataDir : Path
  scratchDir : Path

/-- What stands behind a painted text of a chart window. -/
inductive WindowWidget where
  | button (b : Button)
  | binsField
  | text
deriving DecidableEq

/-- What stands behind a painted text outside the chart windows. -/
inductive PanelWidget where
  | reload
  | retry
  | row (k : Nat)
  | text
deriving DecidableEq

def Button.label : Button → String
  | .chartKind k => k.label
  | .metric m => m.label
  | .saveAs => "Save as"
  | .exportData => "Export data"

namespace ChartWindow

def placeholder (w : ChartWindow) : List String :=
  match w.view.artifact, w.view.metric with
  | some _, _ => []
  | none, none => [awaitingMetricText]
  | none, some _ => ["No chart rendered yet."]

/-- The text of the field for the bin count, which shows the bare number while it is edited. -/
def binsText (w : ChartWindow) (editing : Bool) : String :=
  if editing then toString w.binsInput else "bins: " ++ toString w.binsInput

/-- The texts of a window in painting order, each with what stands behind it. -/
def widgets (w : ChartWindow) (editing : Bool) : List (String × WindowWidget) :=
  let button (b : Button) := (b.label, WindowWidget.button b)
  let text (s : String) := (s, WindowWidget.text)
  buttonsBefore.map button ++ [(w.binsText editing, .binsField)] ++ w.buttonsAfter.map button ++
    w.status.toList.map text ++ w.placeholder.map text ++ [text w.title]

def imageAddress (w : ChartWindow) : Option String :=
  w.view.artifact.map fun path => "file://" ++ path.display

/-- The hint beside the field for the bin count, while it takes input. -/
def binsHint (w : ChartWindow) : List String :=
  if w.takesBins then ["Histogram bin count, 0 lets the tracer decide"] else []

end ChartWindow

namespace Model

def rowText (e : Entry) : String :=
  "[" ++ e.element.kindLabel ++ "] " ++ e.label

/-- The visible rows, or that there is no element at all. -/
def rowWidgets (m : Model) : List (String × PanelWidget) :=
  if m.entries = [] then [("The graph description names no r2ta elements.", .text)]
  else m.visible.zipIdx.map fun row => (rowText row.1, .row row.2)

/-- What stands in the middle while no chart is open. -/
def backdrop (m : Model) (config : Config) (reloading : Bool) : List String :=
  if reloading then ["Reloading ROS2 computation graph..."]
  else if m.windows = [] then
    ["Hover an element for a quick histogram, click it to open a chart.",
      "Charts are rendered into " ++ config.scratchDir.display]
  else []

def counts (m : Model) : String :=
  "elements: " ++ toString m.entries.length ++ " | open charts: " ++ toString m.windows.length

/-- The texts outside the chart windows in painting order, each with what stands behind it. -/
def widgets (m : Model) (config : Config) (reloading : Bool) : List (String × PanelWidget) :=
  let text (s : String) := (s, PanelWidget.text)
  [text "r2ta viewer",
    text ("graph: " ++ config.sourceFile.display),
    text ("tracer: " ++ config.tracerProgram.display),
    text ("data: " ++ config.dataDir.display),
    ("Reload graph", .reload),
    text m.counts,
    text "Traced elements",
    text (if m.search = "" then "Filter by node, topic or interface" else m.search)] ++
    m.rowWidgets ++ (m.backdrop config reloading).map text

/-- The hint beside a row: its title, and the error if its chart could not be drawn. -/
def rowHint (m : Model) (e : Entry) : String :=
  match m.hover.managed && m.hover.artifact.isSome, m.hoverError with
  | false, some error => e.title ++ "\n" ++ error
  | _, _ => e.title

end Model

/-- The texts outside the chart windows in painting order, each with what stands behind it. -/
def App.widgets (a : App) (config : Config) : List (String × PanelWidget) :=
  match a.phase with
  | .loading _ => [("Loading ROS2 computation graph...", .text)]
  | .failed message =>
    [("Failed to load the computation graph", .text), (message, .text), ("Retry", .retry)]
  | .ready m => m.widgets config a.reload.isSome

/-- The widgets whose texts are painted: an empty text leaves no trace. -/
def painted {α : Type} (widgets : List (String × α)) : List (String × α) :=
  widgets.filter (·.1 != "")

/-- What stands behind a painted text: the first widget with that text. -/
def findPainted {α : Type} (widgets : List (String × α)) (label : String) : Option α :=
  ((painted widgets).find? (·.1 == label)).map (·.2)

def paintedTexts {α : Type} (widgets : List (String × α)) : List String :=
  (painted widgets).map (·.1)

end TraceViewer
