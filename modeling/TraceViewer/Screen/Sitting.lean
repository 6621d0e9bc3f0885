import TraceViewer.Screen.Layout
import TraceViewer.Screen.Painted
import TraceViewer.Text.Blank
import TraceViewer.Tracer.Process

namespace TraceViewer

inductive Pointer where
  | away
  | row (k : Nat)
  | window (id : Nat) (widget : WindowWidget)
deriving DecidableEq

/-- What a reader does at the screen. Rows are counted among the visible ones, and other widgets are
known by their painted text. -/
inductive Gesture where
  | pointRow (k : Nat)
  | pointWindow (id : Nat) (label : String)
  | openRow (k : Nat)
  | search (text : String)
  | rest
  | leave
  | click (id : Nat) (label : String)
  | typeBins (id : Nat) (text : String)
  | answerDialog (id : Nat) (label : String) (answer : Option String)
  | close (id : Nat)
  | pressButton (label : String)

/-- What a reader sees of a gesture at once: the dialog that opened tells its file filters. -/
inductive GestureResult where
  | done
  | noSuchWidget
  | dialog (filters : Option (List String))
deriving DecidableEq

/-- The file filter that a save dialog offers for a format. -/
def ExportFormat.filterText (f : ExportFormat) : String :=
  f.label ++ " | " ++ " ".intercalate (f.extensions.map ("*." ++ ·))

/-- The filters of the dialog that a button opens, if it opens one. -/
def Button.dialogFilters? : Button → Option (List String)
  | .saveAs => some (ExportFormat.all.map ExportFormat.filterText)
  | .exportData => some []
  | _ => none

structure Sitting (σ : Type) where
  config : Config
  app : App
  world : World σ
  pointer : Pointer := .away
  /-- The window whose field for the bin count is being edited. -/
  editing : Option Nat := none
  layout : Layout := []

namespace Sitting

variable {σ : Type}

def model? (s : Sitting σ) : Option Model :=
  match s.app.phase with
  | .ready m => some m
  | _ => none

def windows (s : Sitting σ) : List ChartWindow :=
  (s.model?.map Model.windows).getD []

def hoveredRow? (s : Sitting σ) : Option Nat :=
  match s.pointer with
  | .row k => some k
  | _ => none

/-- One frame with what is given and the pointer where it is. -/
def frame (s : Sitting σ) (t : Tracer σ) (input : AppInput) : Sitting σ :=
  let shown := s.app.frame
    { input with model := { input.model with hoveredRow := s.hoveredRow? } } t s.world
  let after := { s with app := shown.1, world := shown.2 }
  { after with
    layout := s.layout.update s.windows after.windows
    editing := s.editing.filter fun id => after.windows.any (·.id == id) }

/-- A frame with a click. It ends the editing of a bin count in the same frame. -/
def clickFrame (s : Sitting σ) (t : Tracer σ) (input : AppInput) : Sitting σ :=
  let window (id : Nat) :=
    let w := input.model.window id
    if s.editing = some id then { w with bins := { w.bins with lostFocus := true } } else w
  { s.frame t { input with model := { input.model with window := window } } with editing := none }

/-- A click on a widget of one window, which comes to lie on top. -/
def clickWindow (s : Sitting σ) (t : Tracer σ) (id : Nat) (input : WindowInput) : Sitting σ :=
  { s with layout := s.layout.raise id }.clickFrame t
    { model := { window := fun n => if n = id then input else {} } }

def point (s : Sitting σ) (t : Tracer σ) (pointer : Pointer) : Sitting σ :=
  { s with pointer := pointer }.frame t {}

/-- Lets frames pass until no load is awaited. -/
def settle (s : Sitting σ) (t : Tracer σ) : Sitting σ :=
  match s.app.awaited? with
  | none => s
  | some _ =>
    let answer := Arrival.ofLoad (s.world.files.loadEntries s.config.sourceFile)
    s.frame t { arrival := fun _ => some answer }

def window? (s : Sitting σ) (id : Nat) : Option ChartWindow :=
  s.windows.find? (·.id == id)

/-- What the pointer reaches where a widget of a window is: that widget, or the blank of a window
that lies over it. -/
def reached (s : Sitting σ) (w : ChartWindow) (widget : WindowWidget) :
    ChartWindow × WindowWidget :=
  let upper := s.layout.reached s.windows w
  if upper.id = w.id then (w, widget) else (upper, .text)

/-- What the pointer reaches where a text of a window is painted. -/
def widget? (s : Sitting σ) (id : Nat) (label : String) : Option (ChartWindow × WindowWidget) := do
  let w ← s.window? id
  let widget ← findPainted (w.widgets (s.editing == some id)) label
  some (s.reached w widget)

def hasRow (s : Sitting σ) (k : Nat) : Bool :=
  match s.model? with
  | some m => k < m.visible.length
  | none => false

def openRow (s : Sitting σ) (t : Tracer σ) (k : Nat) : Sitting σ :=
  (s.point t (.row k)).clickFrame t { model := { clickedRow := some k } }

/-- Clicks what stands behind a text of a window; a dialog that opens gets the given answer. -/
def clickWidget (s : Sitting σ) (t : Tracer σ) (w : ChartWindow) (widget : WindowWidget)
    (dialog : Option Path) : Sitting σ :=
  let s := s.point t (.window w.id widget)
  match widget with
  | .button b => s.clickWindow t w.id { clicked := [b], dialog := dialog }
  | .binsField =>
    if w.takesBins then
      if s.editing = some w.id then s
      else { s.clickWindow t w.id {} with editing := some w.id }
    else s.clickWindow t w.id {}
  | .text => s.clickWindow t w.id {}

/-- The frame in which a typed bin count is left in its field. -/
def enterBins (s : Sitting σ) (t : Tracer σ) (w : ChartWindow) (text : String) : Sitting σ :=
  let value := BinsEdit.typed w.binsInput text
  s.clickWindow t w.id
    { bins := { changed := value != w.binsInput, lostFocus := true }
      binsInput := some value }

/-- Clicks the field for the bin count, types over what it holds, and leaves it. -/
def typeBins (s : Sitting σ) (t : Tracer σ) (w : ChartWindow) (text : String) : Sitting σ :=
  let (upper, widget) := s.reached w .binsField
  let s := s.clickWidget t upper widget none
  if s.editing = some w.id then s.enterBins t w text else s

def closeWindow (s : Sitting σ) (t : Tracer σ) (w : ChartWindow) : Sitting σ :=
  let (upper, _) := s.reached w .text
  (s.point t .away).clickWindow t upper.id { close := upper.id == w.id }

/-- The path that a dialog hands over: the answer without the blanks around. -/
def dialogPath (answer : String) : Path :=
  Path.ofString (trimBlank answer)

/-- The filters of the dialog that a click on a widget opens. -/
def dialogFilters? (w : ChartWindow) : WindowWidget → Option (List String)
  | .button b => if w.isEnabled b then b.dialogFilters? else none
  | _ => none

/-- Clicks what stands behind a text outside the chart windows. -/
def pressWidget (s : Sitting σ) (t : Tracer σ) : PanelWidget → Sitting σ
  | .reload => (s.point t .away).clickFrame t { reloadClicked := true }
  | .retry => (s.point t .away).clickFrame t { retryClicked := true }
  | .row k => s.openRow t k
  | .text => (s.point t .away).clickFrame t {}

/-- What a gesture does while it lasts. -/
def act (s : Sitting σ) (t : Tracer σ) : Gesture → GestureResult × Sitting σ
  | .pointRow k =>
    if s.hasRow k then (.done, s.point t (.row k)) else (.noSuchWidget, s.point t s.pointer)
  | .pointWindow id label =>
    match s.widget? id label with
    | some (w, widget) => (.done, s.point t (.window w.id widget))
    | none => (.noSuchWidget, s.point t s.pointer)
  | .openRow k => if s.hasRow k then (.done, s.openRow t k) else (.noSuchWidget, s)
  | .search text => (.done, (s.point t .away).frame t { model := { search := some text } })
  | .rest => (.done, s.point t s.pointer)
  | .leave => (.done, s)
  | .click id label =>
    match s.widget? id label with
    | some (w, widget) => (.done, s.clickWidget t w widget none)
    | none => (.noSuchWidget, s)
  | .typeBins id text =>
    match s.window? id with
    | some w => (.done, s.typeBins t w text)
    | none => (.noSuchWidget, s)
  | .answerDialog id label answer =>
    match s.widget? id label with
    | some (w, widget) =>
      (.dialog (dialogFilters? w widget), s.clickWidget t w widget (answer.map dialogPath))
    | none => (.noSuchWidget, s)
  | .close id =>
    match s.window? id with
    | some w => (.done, s.closeWindow t w)
    | none => (.noSuchWidget, s)
  | .pressButton label =>
    match findPainted (s.app.widgets s.config) label with
    | some widget => (.done, s.pressWidget t widget)
    | none => (.noSuchWidget, s)

/-- Whether the pointer stays where it is after a gesture. -/
def keepsPointer : Gesture → Bool
  | .pointRow _ | .pointWindow _ _ | .rest => true
  | _ => false

/-- A gesture with all that follows it: the pointer leaves, unless the gesture was to put it
somewhere, and loads come to their end. -/
def perform (s : Sitting σ) (t : Tracer σ) (g : Gesture) : GestureResult × Sitting σ :=
  let acted := s.act t g
  let s := if keepsPointer g then acted.2 else acted.2.point t .away
  (acted.1, s.settle t)

/-- The hint beside what the pointer rests on. -/
def tooltip (s : Sitting σ) : List String :=
  match s.pointer, s.model? with
  | .row k, some m => ((m.row? (some k)).map m.rowHint).toList
  | .window id .binsField, _ => ((s.window? id).map ChartWindow.binsHint).getD []
  | _, _ => []

def windowTexts (s : Sitting σ) : List (Nat × List String) :=
  match s.model? with
  | some m => m.windows.map fun w => (w.id, paintedTexts (w.widgets (s.editing == some w.id)))
  | none => []

def panelTexts (s : Sitting σ) : List String :=
  paintedTexts (s.app.widgets s.config)

end Sitting

/-- A sitting at the viewer, just started, with its tracer program. -/
def Sitting.start {σ : Type} (config : Config) (world : World σ) : Sitting σ :=
  { config := config, app := App.start, world := world }

/-- The tracer program that a configuration names. -/
def Config.tracer {σ : Type} (config : Config) (sys : System σ) : Tracer σ :=
  TracerProcess.tracer ⟨config.tracerProgram, config.dataDir, config.scratchDir⟩ sys

end TraceViewer
