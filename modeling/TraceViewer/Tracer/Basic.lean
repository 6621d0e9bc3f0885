import TraceViewer.Error
import TraceViewer.Files.Store

namespace TraceViewer

/-- What a tracer leaves behind: its answer, the files, and what it remembers itself. -/
structure Answer (σ α : Type) where
  result : Except ViewerError α
  files : Files
  memory : σ

/-- A program that draws charts and extracts measurements. It may change files and remember what it
did. For a chart it answers what it printed. -/
structure Tracer (σ : Type) where
  render : ChartRequest → Files → σ → Answer σ String
  extract : String → Metric → Path → Files → σ → Answer σ Unit

inductive TracerCall where
  | render (request : ChartRequest)
  | extract (elementId : String) (metric : Metric) (destination : Path)
deriving DecidableEq

/-- What surrounds the viewer: the files, the tracer's memory, and the calls made of the tracer. -/
structure World (σ : Type) where
  files : Files
  memory : σ
  calls : List TracerCall := []

namespace World

variable {σ : Type}

def after {α : Type} (w : World σ) (call : TracerCall) (a : Answer σ α) : World σ :=
  { files := a.files, memory := a.memory, calls := w.calls ++ [call] }

def render (w : World σ) (t : Tracer σ) (r : ChartRequest) : Except ViewerError String × World σ :=
  let a := t.render r w.files w.memory
  (a.result, w.after (.render r) a)

def extract (w : World σ) (t : Tracer σ) (elementId : String) (metric : Metric)
    (destination : Path) : Except ViewerError Unit × World σ :=
  let a := t.extract elementId metric destination w.files w.memory
  (a.result, w.after (.extract elementId metric destination) a)

end World

end TraceViewer
