import TraceViewer.Interaction.Hover

namespace TraceViewer

/-- A step of a session with several views and pointers, each known by its number. -/
inductive Step where
  | openView (e : Element)
  | change (view : Nat) (c : Change)
  | exportChart (view : Nat) (format : ExportFormat) (destination : Path)
  | exportData (view : Nat) (destination : Path)
  | hover (pointer : Nat) (target : Option String)
deriving DecidableEq

inductive StepResult where
  | render (outcome : Except ViewerError RenderOutcome)
  | exported (outcome : Except ViewerError Unit)
  | hover (outcome : Except ViewerError HoverOutcome)
  | noSuchView

/-- The views opened so far in their order, the pointers, and the world around them. -/
structure Session (σ : Type) where
  views : List View := []
  hovers : Nat → Hover := fun _ => {}
  world : World σ

namespace Session

variable {σ : Type}

/-- A session after a step and what came of the step. -/
abbrev Stepped (σ : Type) := StepResult × Session σ

def withView (s : Session σ) (view : Nat) (act : View → Stepped σ) : Stepped σ :=
  match s.views[view]? with
  | some v => act v
  | none => (.noSuchView, s)

def step (t : Tracer σ) (s : Session σ) : Step → Stepped σ
  | .openView e =>
    let r := View.openFor e t s.world
    (.render r.outcome, { s with views := s.views ++ [r.view], world := r.world })
  | .change view c =>
    s.withView view fun v =>
      let r := v.change c t s.world
      (.render r.outcome, { s with views := s.views.set view r.view, world := r.world })
  | .exportChart view format destination =>
    s.withView view fun v =>
      let r := v.exportChart format destination t s.world
      (.exported r.1, { s with world := r.2 })
  | .exportData view destination =>
    s.withView view fun v =>
      let r := v.exportData destination t s.world
      (.exported r.1, { s with world := r.2 })
  | .hover pointer target =>
    let r := (s.hovers pointer).look target t s.world
    (.hover r.outcome,
      { s with
        hovers := fun n => if n = pointer then r.hover else s.hovers n
        world := r.world })

/-- The results of some steps in order, and the session after them. -/
def run (t : Tracer σ) : Session σ → List Step → List StepResult × Session σ
  | s, [] => ([], s)
  | s, step :: rest =>
    let first := s.step t step
    let later := run t first.2 rest
    (first.1 :: later.1, later.2)

end Session

end TraceViewer
