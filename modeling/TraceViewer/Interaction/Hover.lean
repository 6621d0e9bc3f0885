import TraceViewer.Interaction.View

namespace TraceViewer

/-- What the pointer rests on, and the chart shown beside it. -/
structure Hover where
  target : Option String := none
  managed : Bool := false
  artifact : Option Path := none
deriving DecidableEq

inductive HoverOutcome where
  | unchanged
  | hidden
  | shown (artifact : Path)
deriving DecidableEq

namespace Hover

/-- The small chart of a text: that of the default metric of the element that it names. -/
def request? (target : Option String) : Option ChartRequest := do
  let e ← Element.ofIdentifier? (← target)
  let metric ← e.defaultMetric
  some
    { elementId := e.identifier
      metric := metric
      chartKind := .histogram
      size := tooltipChartSize }

variable {σ : Type}

/-- A hover state after a look at the pointer, what came of it, and the world after it. -/
structure Showing (σ : Type) where
  hover : Hover
  outcome : Except ViewerError HoverOutcome
  world : World σ

/-- Looks at what the pointer rests on. A new target clears the chart of the last one before its own
is drawn; the same target is not drawn again, whatever came of it. -/
def look (h : Hover) (target : Option String) (t : Tracer σ) (w : World σ) : Showing σ :=
  let target := target.map trimBlank
  if h.target = target then ⟨h, .ok .unchanged, w⟩
  else
    match request? target with
    | none => ⟨{ target := target }, .ok .hidden, w⟩
    | some r =>
      match w.artifact t r with
      | (.error e, w) => ⟨{ target := target }, .error e, w⟩
      | (.ok path, w) =>
        ⟨{ target := target, managed := true, artifact := some path }, .ok (.shown path), w⟩

end Hover

end TraceViewer
