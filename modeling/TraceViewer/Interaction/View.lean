import TraceViewer.Element.Identifier
import TraceViewer.Tracer.Basic

namespace TraceViewer

/-- An open chart of an element: its settings and the image shown. -/
structure View where
  element : Element
  metric : Option Metric
  chartKind : ChartKind
  binCount : Option Nat
  artifact : Option Path
deriving DecidableEq

/-- A new value for one setting of a view. -/
inductive Change where
  | metric (m : Metric)
  | chartKind (k : ChartKind)
  | bins (n : Option Nat)
deriving DecidableEq

inductive RenderOutcome where
  | rendered (artifact : Path)
  | unchanged
  | awaitingMetric
deriving DecidableEq

/-- Draws a chart and answers where it is; a tracer that prints nothing has drawn none. -/
def World.artifact {σ : Type} (w : World σ) (t : Tracer σ) (r : ChartRequest) :
    Except ViewerError Path × World σ :=
  match w.render t r with
  | (.error e, w) => (.error e, w)
  | (.ok printed, w) =>
    (if printed = "" then .error (.emptyArtifact r.elementId) else .ok (Path.ofString printed), w)

namespace View

/-- The settings with which a view of an element starts. -/
def start (e : Element) : View :=
  { element := e
    metric := e.defaultMetric
    chartKind := .histogram
    binCount := none
    artifact := none }

/-- The chart of the current settings; without a metric there is none. -/
def request? (v : View) : Option ChartRequest :=
  v.metric.map fun m =>
    { elementId := v.element.identifier
      metric := m
      chartKind := v.chartKind
      binCount := v.binCount }

def set (v : View) : Change → View
  | .metric m => { v with metric := some m }
  | .chartKind k => { v with chartKind := k }
  | .bins n => { v with binCount := n }

/-- Whether a change proposes the value that a setting already has. -/
def isSame (v : View) : Change → Bool
  | .metric m => v.metric == some m
  | .chartKind k => v.chartKind == k
  | .bins n => v.binCount == n

theorem isSame_iff (v : View) (c : Change) : v.isSame c = true ↔ v.set c = v := by
  cases v; cases c <;> simp only [isSame, set, beq_iff_eq, mk.injEq, true_and, and_true] <;>
    exact eq_comm

theorem element_set (v : View) (c : Change) : (v.set c).element = v.element := by
  cases c <;> rfl

theorem artifact_set (v : View) (c : Change) : (v.set c).artifact = v.artifact := by
  cases c <;> rfl

variable {σ : Type}

/-- A view after a step, what came of it, and the world after it. -/
structure Rendering (σ : Type) where
  view : View
  outcome : Except ViewerError RenderOutcome
  world : World σ

/-- Draws the chart of the current settings. A failure leaves the image as it was. -/
def render (v : View) (t : Tracer σ) (w : World σ) : Rendering σ :=
  match v.request? with
  | none => ⟨v, .ok .awaitingMetric, w⟩
  | some r =>
    match w.artifact t r with
    | (.error e, w) => ⟨v, .error e, w⟩
    | (.ok path, w) => ⟨{ v with artifact := some path }, .ok (.rendered path), w⟩

/-- Opens a view of an element and draws its chart, if it has a default metric. -/
def openFor (e : Element) (t : Tracer σ) (w : World σ) : Rendering σ :=
  (start e).render t w

/-- Changes one setting. Only a new value is drawn, and it stays even if drawing fails. -/
def change (v : View) (c : Change) (t : Tracer σ) (w : World σ) : Rendering σ :=
  if v.isSame c then ⟨v, .ok .unchanged, w⟩ else (v.set c).render t w

/-- The metric, or an error if none is chosen yet. -/
def requireMetric (v : View) : Except ViewerError Metric :=
  match v.metric with
  | some m => .ok m
  | none => .error (.unresolvedDefaultMetric v.element.kindLabel)

/-- The format of the image to save, or an error if the tracer cannot draw it. -/
def requireFormat (format : ExportFormat) : Except ViewerError OutputFormat :=
  match format.outputFormat? with
  | some out => .ok out
  | none => .error (.unsupportedExportFormat format)

/-- The chart of the current settings in the format of the image to save. -/
def exportRequest (v : View) (format : ExportFormat) : Except ViewerError ChartRequest := do
  let metric ← v.requireMetric
  let out ← requireFormat format
  .ok
    { elementId := v.element.identifier
      metric := metric
      chartKind := v.chartKind
      binCount := v.binCount
      format := out }

/-- Saves the chart of the current settings, drawn afresh, as a copy at the destination. -/
def exportChart (v : View) (format : ExportFormat) (destination : Path) (t : Tracer σ)
    (w : World σ) : Except ViewerError Unit × World σ :=
  match v.exportRequest format with
  | .error e => (.error e, w)
  | .ok r =>
    match w.artifact t r with
    | (.error e, w) => (.error e, w)
    | (.ok path, w) =>
      match w.files.copy path destination with
      | .error e => (.error (.artifactCopy path destination e), w)
      | .ok files => (.ok (), { w with files := files })

/-- Has the tracer extract the measurements of the current metric to the destination. -/
def exportData (v : View) (destination : Path) (t : Tracer σ) (w : World σ) :
    Except ViewerError Unit × World σ :=
  match v.requireMetric with
  | .error e => (.error e, w)
  | .ok metric => w.extract t v.element.identifier metric destination

end View

end TraceViewer
