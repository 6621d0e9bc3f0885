import TraceViewer.Graph.Load
import TraceViewer.Screen.Model

namespace TraceViewer

/-- What a load in the background sends back, or that it went away without an answer. -/
inductive Arrival where
  | loaded (entries : List Entry)
  | failed (message : String)
  | lost

def Arrival.ofLoad : Except LoadError (List Entry) → Arrival
  | .ok entries => loaded entries
  | .error e => failed e.message

/-- Where the viewer is between its start and a shown graph. -/
inductive Phase where
  /-- The numbered load is awaited. -/
  | loading (load : Nat)
  | ready (m : Model)
  | failed (message : String)

/-- The running viewer: its phase, the load that a reload awaits, and how many loads were started.
Loads are numbered in the order of their start. -/
structure App where
  phase : Phase
  reload : Option Nat := none
  started : Nat

/-- What happens to the viewer within one frame, with what has arrived of each load. -/
structure AppInput where
  model : ModelInput := {}
  reloadClicked : Bool := false
  retryClicked : Bool := false
  arrival : Nat → Option Arrival := fun _ => none

def workerLostText : String :=
  "Background load worker disconnected"

namespace App

def start : App :=
  { phase := .loading 0, started := 1 }

/-- The viewer in a phase that awaits no reload. -/
def enter (a : App) (phase : Phase) : App :=
  { a with phase := phase, reload := none }

/-- Starts a load and awaits it before anything is shown. -/
def retry (a : App) : App :=
  { phase := .loading a.started, reload := none, started := a.started + 1 }

/-- Starts a reload, unless one is awaited already. -/
def requestReload (a : App) : App :=
  match a.reload with
  | some _ => a
  | none => { a with reload := some a.started, started := a.started + 1 }

/-- Takes up what has arrived of the awaited reload. -/
def receive (a : App) (m : Model) (arrival : Nat → Option Arrival) : App :=
  match a.reload with
  | none => { a with phase := .ready m }
  | some load =>
    match arrival load with
    | some (.loaded entries) => a.enter (.ready (m.replaceEntries entries))
    | some (.failed message) => a.enter (.failed message)
    | some .lost => a.enter (.failed workerLostText)
    | none => { a with phase := .ready m }

variable {σ : Type}

def frame (a : App) (input : AppInput) (t : Tracer σ) (world : World σ) : App × World σ :=
  match a.phase with
  | .loading load =>
    match input.arrival load with
    | some (.loaded entries) => (a.enter (.ready { entries := entries }), world)
    | some (.failed message) => (a.enter (.failed message), world)
    | some .lost | none => (a, world)
  | .failed _ => (if input.retryClicked then a.retry else a, world)
  | .ready m =>
    let shown := m.frame input.model t world
    let a := if input.reloadClicked then a.requestReload else a
    (a.receive shown.1 input.arrival, shown.2)

def awaited? (a : App) : Option Nat :=
  match a.phase with
  | .loading load => some load
  | .ready _ => a.reload
  | .failed _ => none

end App

end TraceViewer
