import TraceViewer.Screen.ChartWindow

namespace TraceViewer

/-- How far down a window starts. All windows start at the same distance from the left. -/
structure WindowPlace where
  id : Nat
  top : Nat
deriving DecidableEq

/-- The places given to windows so far, from the bottom of the pile to its top. A closed window keeps
its place for a later one of the same number. -/
abbrev Layout := List WindowPlace

/-- The height of a window that shows a chart. -/
def chartHeight : Nat := 948

/-- The height of a window that shows no chart, with one line of tools. -/
def bareHeight : Nat := 112

/-- What a second line of tools adds to the height. -/
def toolLineHeight : Nat := 21

def windowGap : Nat := 16

/-- How far below its top a window has its tools. -/
def toolDepth : Nat := 50

/-- The height of a window: it is only as high as its content, and a chart takes much more space than
the words in its place. -/
def ChartWindow.height (w : ChartWindow) : Nat :=
  if w.view.artifact.isSome then chartHeight
  else if w.view.element.selectableMetrics = Metric.all then bareHeight + toolLineHeight
  else bareHeight

namespace Layout

def place? (layout : Layout) (id : Nat) : Option WindowPlace :=
  layout.find? (·.id == id)

def bottomOf (layout : Layout) (w : ChartWindow) : Nat :=
  match layout.place? w.id with
  | some place => place.top + w.height
  | none => 0

/-- The first free height below some windows. -/
def freeTop (layout : Layout) (windows : List ChartWindow) : Nat :=
  windows.foldl (fun top w => max top (layout.bottomOf w + windowGap)) 0

def raise (layout : Layout) (id : Nat) : Layout :=
  match layout.place? id with
  | some place => layout.filter (·.id != id) ++ [place]
  | none => layout

/-- Finds a place for a window that was not shown before, below all that were. A window of a number
known from before takes the old place, on top. -/
def add (layout : Layout) (shown : List ChartWindow) (id : Nat) : Layout :=
  match layout.place? id with
  | some _ => layout.raise id
  | none => layout ++ [⟨id, layout.freeTop shown⟩]

/-- The layout after a frame, from the windows before it and those after it. -/
def update (layout : Layout) (before after : List ChartWindow) : Layout :=
  let stays (w : ChartWindow) := before.any (·.id == w.id)
  (after.filter (!stays ·)).foldl (fun layout w => layout.add (after.filter stays) w.id) layout

/-- Whether a window, where it lies, lies over the tools of another one. -/
def liesOver (layout : Layout) (upper lower : ChartWindow) : Bool :=
  match layout.place? upper.id, layout.place? lower.id with
  | some u, some l => u.top ≤ l.top + toolDepth && l.top + toolDepth < u.top + upper.height
  | _, _ => false

/-- The windows shown that lie above one in the pile, the lowest first. -/
def above (layout : Layout) (windows : List ChartWindow) (id : Nat) : List ChartWindow :=
  ((layout.dropWhile (·.id != id)).drop 1).filterMap fun place =>
    windows.find? (·.id == place.id)

/-- The window that a click on the tools of a window reaches: the uppermost that lies over them, else
the window itself. -/
def reached (layout : Layout) (windows : List ChartWindow) (w : ChartWindow) : ChartWindow :=
  ((layout.above windows w.id).filter (layout.liesOver · w)).getLastD w

end Layout

end TraceViewer
