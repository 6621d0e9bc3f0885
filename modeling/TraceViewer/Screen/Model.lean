import TraceViewer.Interaction.Hover
import TraceViewer.Screen.ChartWindow
import TraceViewer.Search.Filter

namespace TraceViewer

/-- What the viewer holds while a graph is shown. -/
structure Model where
  entries : List Entry
  search : String := ""
  hover : Hover := {}
  hoverError : Option String := none
  windows : List ChartWindow := []
  nextWindowId : Nat := 0

/-- What happens to the viewer within one frame while a graph is shown. Rows are counted among those
that the search leaves visible. -/
structure ModelInput where
  search : Option String := none
  hoveredRow : Option Nat := none
  clickedRow : Option Nat := none
  window : Nat → WindowInput := fun _ => {}

namespace Model

/-- The entries that the search leaves visible, in their order on screen. -/
def visible (m : Model) : List Entry :=
  (Search.filter m.entries m.search).filterMap fun i => m.entries[i]?

def row? (m : Model) (row : Option Nat) : Option Entry :=
  row.bind fun k => m.visible[k]?

/-- Puts newly loaded entries in place of the old ones and forgets what the pointer rested on. -/
def replaceEntries (m : Model) (entries : List Entry) : Model :=
  { m with entries := entries, hover := {}, hoverError := none }

variable {σ : Type}

/-- Looks at what the pointer rests on and keeps the error, if drawing its chart fails. -/
def look (m : Model) (target : Option String) (t : Tracer σ) (world : World σ) :
    Model × World σ :=
  let r := m.hover.look target t world
  let hoverError :=
    match r.outcome with
    | .ok .unchanged => m.hoverError
    | .ok _ => none
    | .error e => some e.message
  ({ m with hover := r.hover, hoverError := hoverError }, r.world)

def openWindow (m : Model) (entry : Entry) (t : Tracer σ) (world : World σ) : Model × World σ :=
  let r := ChartWindow.openFor m.nextWindowId entry.title entry.element t world
  ({ m with windows := m.windows ++ [r.1], nextWindowId := m.nextWindowId + 1 }, r.2)

/-- One frame of the list of elements. An empty list does not look at the pointer. -/
def frameElements (m : Model) (input : ModelInput) (t : Tracer σ) (world : World σ) :
    Model × World σ :=
  let m := { m with search := input.search.getD m.search }
  if m.entries = [] then (m, world)
  else
    let looked := m.look ((m.row? input.hoveredRow).map Entry.raw) t world
    match m.row? input.clickedRow with
    | some entry => looked.1.openWindow entry t looked.2
    | none => looked

/-- One frame of each window in order; closed windows are dropped. -/
def frameWindows (input : Nat → WindowInput) (t : Tracer σ) :
    List ChartWindow → World σ → List ChartWindow × World σ
  | [], world => ([], world)
  | w :: rest, world =>
    let first := w.frame (input w.id) t world
    let later := frameWindows input t rest first.2
    (if (input w.id).close then later.1 else first.1 :: later.1, later.2)

def frame (m : Model) (input : ModelInput) (t : Tracer σ) (world : World σ) : Model × World σ :=
  let shown := m.frameElements input t world
  let drawn := frameWindows input.window t shown.1.windows shown.2
  ({ shown.1 with windows := drawn.1 }, drawn.2)

end Model

end TraceViewer
