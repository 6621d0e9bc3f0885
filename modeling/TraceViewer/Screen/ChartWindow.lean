import TraceViewer.Interaction.View
import TraceViewer.Screen.BinsField

namespace TraceViewer

structure ChartWindow where
  id : Nat
  title : String
  view : View
  binsInput : Nat
  status : Option String
deriving DecidableEq

inductive Button where
  | chartKind (k : ChartKind)
  | metric (m : Metric)
  | saveAs
  | exportData
deriving DecidableEq

inductive WindowAction where
  | change (c : Change)
  | saveAs
  | exportData
deriving DecidableEq

/-- What happens to a chart window within one frame. A dialog that opens gets the given answer, none
if it is cancelled. -/
structure WindowInput where
  clicked : List Button := []
  bins : BinsEdit := {}
  binsInput : Option Nat := none
  dialog : Option Path := none
  close : Bool := false

/-- What is shown and said while no metric is chosen. -/
def awaitingMetricText : String :=
  "Select a metric to render a chart."

namespace ChartWindow

/-- Whether a button reacts to clicks: saving and exporting need a metric. -/
def isEnabled (w : ChartWindow) : Button → Bool
  | .chartKind _ | .metric _ => true
  | .saveAs | .exportData => w.view.metric.isSome

/-- Whether the field for the bin count takes input: only a histogram has bins. -/
def takesBins (w : ChartWindow) : Bool :=
  w.view.chartKind == .histogram

/-- The buttons drawn before the field for the bin count. -/
def buttonsBefore : List Button :=
  [.chartKind .scatter, .chartKind .histogram]

/-- The buttons drawn after the field for the bin count. -/
def buttonsAfter (w : ChartWindow) : List Button :=
  w.view.element.selectableMetrics.map .metric ++ [.saveAs, .exportData]

def actionOf : Button → WindowAction
  | .chartKind k => .change (.chartKind k)
  | .metric m => .change (.metric m)
  | .saveAs => .saveAs
  | .exportData => .exportData

/-- The actions of those buttons, in their order, that are clicked and enabled. -/
def clickedActions (w : ChartWindow) (input : WindowInput) (buttons : List Button) :
    List WindowAction :=
  (buttons.filter fun b => input.clicked.contains b && w.isEnabled b).map actionOf

/-- The actions that the toolbar reports in one frame, in the order in which it is drawn. -/
def reported (w : ChartWindow) (input : WindowInput) : List WindowAction :=
  w.clickedActions input buttonsBefore ++
    ((input.bins.committed w.binsInput).map fun n => WindowAction.change (.bins n)).toList ++
    w.clickedActions input w.buttonsAfter

/-- The one action carried out in a frame: the last one reported. -/
def action? (w : ChartWindow) (input : WindowInput) : Option WindowAction :=
  (w.reported input).getLast?

def statusAfter (status : Option String) : Except ViewerError RenderOutcome → Option String
  | .ok (.rendered _) => none
  | .ok .unchanged => status
  | .ok .awaitingMetric => some awaitingMetricText
  | .error e => some e.message

variable {σ : Type}

/-- Changes a setting and notes what came of it. -/
def change (w : ChartWindow) (c : Change) (t : Tracer σ) (world : World σ) :
    ChartWindow × World σ :=
  let r := w.view.change c t world
  ({ w with view := r.view, status := statusAfter w.status r.outcome }, r.world)

/-- Saves the chart to a chosen path and notes what came of it. -/
def saveTo (w : ChartWindow) (chosen : Path) (t : Tracer σ) (world : World σ) :
    ChartWindow × World σ :=
  let target := ExportTarget.ofPath chosen
  let r := w.view.exportChart target.format target.path t world
  let status :=
    match r.1 with
    | .ok () => "Saved chart to " ++ target.path.display
    | .error e => e.message
  ({ w with status := some status }, r.2)

/-- Exports the measurements to a chosen path and notes what came of it. -/
def exportTo (w : ChartWindow) (chosen : Path) (t : Tracer σ) (world : World σ) :
    ChartWindow × World σ :=
  let r := w.view.exportData chosen t world
  let status :=
    match r.1 with
    | .ok () => "Exported data to " ++ chosen.display
    | .error e => e.message
  ({ w with status := some status }, r.2)

/-- Carries out an action; a cancelled dialog changes nothing. -/
def perform (w : ChartWindow) (dialog : Option Path) (t : Tracer σ) (world : World σ) :
    WindowAction → ChartWindow × World σ
  | .change c => w.change c t world
  | .saveAs =>
    match dialog with
    | some chosen => w.saveTo chosen t world
    | none => (w, world)
  | .exportData =>
    match dialog with
    | some chosen => w.exportTo chosen t world
    | none => (w, world)

def frame (w : ChartWindow) (input : WindowInput) (t : Tracer σ) (world : World σ) :
    ChartWindow × World σ :=
  let w := { w with binsInput := input.binsInput.getD w.binsInput }
  match w.action? input with
  | some action => w.perform input.dialog t world action
  | none => (w, world)

def openFor (id : Nat) (title : String) (e : Element) (t : Tracer σ) (world : World σ) :
    ChartWindow × World σ :=
  let r := View.openFor e t world
  ({ id := id
     title := title
     view := r.view
     binsInput := 0
     status := statusAfter none r.outcome }, r.world)

end ChartWindow

end TraceViewer
