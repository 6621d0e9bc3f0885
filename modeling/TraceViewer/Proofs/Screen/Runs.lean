import TraceViewer.Proofs.Screen.Loads

namespace TraceViewer

variable {σ : Type} {t : Tracer σ}

namespace App

/-- What a frame of the viewer calls the tracer for: without a shown graph, for nothing. -/
def errands (t : Tracer σ) (a : App) (f : Moment σ) : List Errand :=
  match a.phase with
  | .ready m => m.errands f.input.model t f.world
  | .loading _ | .failed _ => []

theorem calls_frame (a : App) (f : Moment σ) :
    (a.frame f.input t f.world).2.calls =
      f.world.calls ++ (a.errands t f).map Errand.call := by
  have hc := frame_comes t f.world a f.input
  generalize a.frame f.input t f.world = r at hc
  cases hc with
  | waits hp | opens hp | breaks hp | stays hp | retries hp => simp [errands, hp]
  | shows hp | reloads hp | drops hp => simp [errands, hp, Model.calls_frame]

/-- What some frames call the tracer for, one after another. -/
def allErrands (t : Tracer σ) : App → List (Moment σ) → List Errand
  | _, [] => []
  | a, f :: rest => a.errands t f ++ allErrands t (a.next t f) rest

theorem allErrands_append (a : App) (past : List (Moment σ)) (f : Moment σ) :
    a.allErrands t (past ++ [f]) = a.allErrands t past ++ (past.foldl (next t) a).errands t f := by
  induction past generalizing a with
  | nil => simp [allErrands]
  | cons g rest ih =>
    rw [List.cons_append, allErrands, ih, allErrands, List.append_assoc, List.foldl_cons]

/-- Frames with nothing in between: each takes place in the world that the one before has left. -/
inductive Runs (t : Tracer σ) (a : App) (w : World σ) : List (Moment σ) → App → World σ → Prop
  | start : Runs t a w [] a w
  | frame {past : List (Moment σ)} {a' : App} {w' : World σ} (h : Runs t a w past a' w')
      (input : AppInput) :
      Runs t a w (past ++ [⟨input, w'⟩]) (a'.frame input t w').1 (a'.frame input t w').2

namespace Runs

variable {a a' a'' : App} {w w' w'' : World σ} {past more : List (Moment σ)}

theorem trans (h : Runs t a w past a' w') (h' : Runs t a' w' more a'' w'') :
    Runs t a w (past ++ more) a'' w'' := by
  induction h' with
  | start => simpa using h
  | frame _ input ih =>
    rw [← List.append_assoc]
    exact ih.frame input

theorem app_eq (h : Runs t a w past a' w') : past.foldl (next t) a = a' := by
  induction h with
  | start => rfl
  | frame _ input ih =>
    rw [List.foldl_append, ih]
    rfl

/-- A run calls the tracer for the errands of its frames, and for nothing else. -/
theorem calls_eq (h : Runs t a w past a' w') :
    w'.calls = w.calls ++ (a.allErrands t past).map Errand.call := by
  induction h with
  | start => simp [allErrands]
  | @frame past a' w' h input ih =>
    rw [calls_frame a' ⟨input, w'⟩, ih, allErrands_append, h.app_eq, List.map_append,
      List.append_assoc]

end Runs

end App

namespace Watched

theorem app_after (t : Tracer σ) (past : List (Moment σ)) : (after t past).app = App.after t past :=
  (List.foldl_hom app fun _ _ => rfl).symm

theorem after_append (t : Tracer σ) (past : List (Moment σ)) (f : Moment σ) :
    after t (past ++ [f]) = (after t past).frame t f := by
  simp [after, List.foldl_append]

/-- A frame goes on with the log of drawings, or begins it anew where no graph is shown. -/
theorem drawings_frame (s : Watched) (f : Moment σ) :
    (s.frame t f).drawings <:+
      s.drawings ++ (s.app.errands t f).filterMap Errand.drawing? := by
  cases hp : s.app.phase with
  | ready m => simp [frame, App.errands, hp, Model.drawings_errands]
  | loading load => simp [frame, hp]
  | failed message => simp [frame, hp]

/-- The drawings made for windows since a graph is shown are the last of those that the tracer was
called for. -/
theorem drawings_suffix (t : Tracer σ) (past : List (Moment σ)) :
    (after t past).drawings <:+
      (App.start.allErrands t past).filterMap Errand.drawing? := by
  induction past using List.reverseRecOn with
  | nil => exact List.nil_suffix
  | append_singleton past f ih =>
    have hf := (after t past).drawings_frame (t := t) f
    rw [app_after] at hf
    rw [after_append, App.allErrands_append, List.filterMap_append]
    exact hf.trans (List.suffix_append_self_iff.mpr ih)

end Watched

/-- The drawings logged in a run from the start are the last of those that the run calls for. -/
theorem App.Runs.drawings_called {a : App} {w w' : World σ} {past : List (Moment σ)}
    (h : Runs t .start w past a w') : ∃ errands : List Errand,
      w'.calls = w.calls ++ errands.map Errand.call ∧
        (Watched.after t past).drawings <:+ errands.filterMap Errand.drawing? :=
  ⟨_, h.calls_eq, Watched.drawings_suffix t past⟩

theorem Attended.app_after (t : Tracer σ) (past : List (Moment σ)) :
    (after t past).app = App.after t past :=
  (List.foldl_hom app fun _ _ => rfl).symm

end TraceViewer
