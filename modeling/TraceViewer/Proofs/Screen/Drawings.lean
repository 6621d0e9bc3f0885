import TraceViewer.Screen.App

namespace TraceViewer

/-- The tracer asked for the chart that a window is to show, and what it answered. -/
structure Drawing where
  window : Nat
  request : ChartRequest
  answer : Except ViewerError String

/-- The last of some drawings that was for a window. -/
def Drawing.last? (log : List Drawing) (id : Nat) : Option Drawing :=
  (log.filter (·.window == id)).getLast?

variable {σ : Type}

/-- What the tracer answers when asked for the chart of a view that a window shows. -/
def View.drawing? (v : View) (id : Nat) (t : Tracer σ) (world : World σ) : Option Drawing :=
  v.request?.map fun r => ⟨id, r, (t.render r world.files world.memory).result⟩

namespace ChartWindow

/-- The window with what a frame puts into its field for the bin count. -/
def typed (w : ChartWindow) (input : WindowInput) : ChartWindow :=
  { w with binsInput := input.binsInput.getD w.binsInput }

/-- The drawing that a frame of a window makes for it: one of the setting changed, if it is new. -/
def drawing? (w : ChartWindow) (input : WindowInput) (t : Tracer σ) (world : World σ) :
    Option Drawing :=
  match (w.typed input).action? input with
  | some (.change c) => if w.view.isSame c then none else (w.view.set c).drawing? w.id t world
  | _ => none

end ChartWindow

namespace Model

/-- The drawing that a click on a row makes for the window that it opens. -/
def opening? (m : Model) (input : ModelInput) (t : Tracer σ) (world : World σ) : Option Drawing :=
  let m := { m with search := input.search.getD m.search }
  if m.entries = [] then none
  else
    let looked := m.look ((m.row? input.hoveredRow).map Entry.raw) t world
    (m.row? input.clickedRow).bind fun entry =>
      (View.start entry.element).drawing? m.nextWindowId t looked.2

/-- The drawings that a frame makes for some windows, in order. -/
def windowDrawings (input : Nat → WindowInput) (t : Tracer σ) :
    List ChartWindow → World σ → List Drawing
  | [], _ => []
  | w :: rest, world =>
    (w.drawing? (input w.id) t world).toList ++
      windowDrawings input t rest (w.frame (input w.id) t world).2

/-- The drawings that a frame makes for windows, in order; those for tooltips and exports are not
among them. -/
def drawings (m : Model) (input : ModelInput) (t : Tracer σ) (world : World σ) : List Drawing :=
  let shown := m.frameElements input t world
  (m.opening? input t world).toList ++ windowDrawings input.window t shown.1.windows shown.2

end Model

/-- One frame of the viewer, in whatever world it takes place: one that the frames before have left,
or one that others have changed since. -/
structure Moment (σ : Type) where
  input : AppInput
  world : World σ

/-- The viewer, and the drawings made for windows since it shows a graph. -/
structure Watched where
  app : App := .start
  drawings : List Drawing := []

namespace Watched

def frame (t : Tracer σ) (s : Watched) (f : Moment σ) : Watched :=
  { app := (s.app.frame f.input t f.world).1
    drawings :=
      match s.app.phase with
      | .ready m => s.drawings ++ m.drawings f.input.model t f.world
      | _ => [] }

/-- The viewer after some frames from its start. -/
def after (t : Tracer σ) (past : List (Moment σ)) : Watched :=
  past.foldl (frame t) {}

end Watched

namespace Drawing

variable {log more : List Drawing} {id : Nat}

theorem last?_append_of_ne (h : ∀ d ∈ more, d.window ≠ id) : last? (log ++ more) id = last? log id := by
  have hm : more.filter (·.window == id) = [] := by
    rw [List.filter_eq_nil_iff]
    intro d hd
    simpa using h d hd
  rw [last?, List.filter_append, hm, List.append_nil, last?]

theorem last?_append_self (d : Drawing) : last? (log ++ [d]) d.window = some d := by
  simp [last?]

end Drawing

theorem View.window_drawing? {v : View} {id : Nat} {t : Tracer σ} {world : World σ} {d : Drawing}
    (h : v.drawing? id t world = some d) : d.window = id := by
  obtain ⟨r, -, rfl⟩ := Option.map_eq_some_iff.mp h
  rfl

theorem ChartWindow.frame_eq (w : ChartWindow) (input : WindowInput) {t : Tracer σ}
    {world : World σ} :
    w.frame input t world =
      match (w.typed input).action? input with
      | some a => (w.typed input).perform input.dialog t world a
      | none => (w.typed input, world) :=
  rfl

theorem ChartWindow.window_drawing? {w : ChartWindow} {input : WindowInput} {t : Tracer σ}
    {world : World σ} {d : Drawing} (h : w.drawing? input t world = some d) : d.window = w.id := by
  unfold drawing? at h
  split at h
  · split at h
    · cases h
    · exact View.window_drawing? h
  · cases h

theorem Model.window_mem_drawings {input : Nat → WindowInput} {t : Tracer σ} {d : Drawing}
    {ws : List ChartWindow} {world : World σ} (h : d ∈ windowDrawings input t ws world) :
    d.window ∈ ws.map ChartWindow.id := by
  induction ws generalizing world with
  | nil => cases h
  | cons w rest ih =>
    rw [List.map_cons]
    rcases List.mem_append.mp h with h | h
    · rw [ChartWindow.window_drawing? (Option.mem_toList.mp h)]
      exact List.mem_cons_self
    · exact List.mem_cons_of_mem _ (ih h)

end TraceViewer
