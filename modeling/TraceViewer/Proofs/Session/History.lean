import TraceViewer.Interaction.Session

namespace TraceViewer

namespace Change

def metric? : Change → Option Metric
  | .metric m => some m
  | _ => none

def chartKind? : Change → Option ChartKind
  | .chartKind k => some k
  | _ => none

def bins? : Change → Option (Option Nat)
  | .bins n => some n
  | _ => none

end Change

/-- What the charts of a view are drawn with, apart from its element. -/
structure Settings where
  metric : Option Metric
  chartKind : ChartKind
  binCount : Option Nat
deriving DecidableEq

namespace Settings

/-- The settings of an element's view after some changes: each has the value written to it last. -/
def after (e : Element) (cs : List Change) : Settings :=
  { metric := (cs.filterMap Change.metric?).getLast?.or e.defaultMetric
    chartKind := (cs.filterMap Change.chartKind?).getLastD .histogram
    binCount := (cs.filterMap Change.bins?).getLastD none }

/-- The setting that a change is about already has the value proposed. -/
def Holds (s : Settings) : Change → Prop
  | .metric m => s.metric = some m
  | .chartKind k => s.chartKind = k
  | .bins n => s.binCount = n

instance (s : Settings) (c : Change) : Decidable (s.Holds c) := by
  cases c <;> exact inferInstanceAs (Decidable (_ = _))

/-- The chart of an element with these settings, as wide as a window and in the given format. -/
def request? (s : Settings) (e : Element) (format : OutputFormat) : Option ChartRequest :=
  s.metric.map fun m =>
    { elementId := e.identifier
      metric := m
      chartKind := s.chartKind
      binCount := s.binCount
      size := 800
      format := format }

end Settings

/-- What a history of steps tells of one view: its element and the changes made to it. -/
structure Opened where
  element : Element
  changes : List Change
deriving DecidableEq

def Opened.settings (o : Opened) : Settings :=
  Settings.after o.element o.changes

def Opened.changed (c : Change) (o : Opened) : Opened :=
  { o with changes := o.changes ++ [c] }

/-- One more step of a history. Only an opening or a change leaves a trace in it. -/
def Opened.note (os : List Opened) : Step → List Opened
  | .openView e => os ++ [⟨e, []⟩]
  | .change view c => os.modify view (Opened.changed c)
  | _ => os

/-- The views that a history of steps opens, each with the changes made to it. -/
def opened (past : List Step) : List Opened :=
  past.foldl Opened.note []

theorem opened_append (past : List Step) (step : Step) :
    opened (past ++ [step]) = Opened.note (opened past) step := by
  simp [opened]

/-- The trimmed text that a step moves a pointer to. -/
def Step.target? (pointer : Nat) : Step → Option (Option String)
  | .hover n target => if n = pointer then some (target.map trimBlank) else none
  | _ => none

/-- What a pointer rests on after a history of steps. -/
def lastTarget (past : List Step) (pointer : Nat) : Option String :=
  (past.filterMap (Step.target? pointer)).getLastD none

theorem lastTarget_append (past : List Step) (step : Step) (pointer : Nat) :
    lastTarget (past ++ [step]) pointer =
      (step.target? pointer).getD (lastTarget past pointer) := by
  cases h : step.target? pointer <;> simp [lastTarget, h]

namespace View

def settings (v : View) : Settings :=
  ⟨v.metric, v.chartKind, v.binCount⟩

/-- A view has the element and the settings that a history tells. -/
def Agrees (v : View) (o : Opened) : Prop :=
  v.element = o.element ∧ v.settings = o.settings

theorem start_agrees (e : Element) : (start e).Agrees ⟨e, []⟩ :=
  ⟨rfl, rfl⟩

theorem set_agrees {v : View} {o : Opened} (h : v.Agrees o) (c : Change) :
    (v.set c).Agrees (o.changed c) := by
  obtain ⟨he, hs⟩ := h
  refine ⟨(element_set v c).trans he, ?_⟩
  simp only [settings, Opened.settings, Settings.after, Settings.mk.injEq] at hs
  obtain ⟨hm, hk, hb⟩ := hs
  cases c <;>
    simp [set, settings, Opened.settings, Opened.changed, Settings.after, Change.metric?,
      Change.chartKind?, Change.bins?, hm, hk, hb]

theorem isSame_iff_holds (v : View) (c : Change) : v.isSame c = true ↔ v.settings.Holds c := by
  cases c <;> simp [isSame, settings, Settings.Holds]

theorem request?_eq (v : View) : v.request? = v.settings.request? v.element .svg :=
  rfl

end View

end TraceViewer
