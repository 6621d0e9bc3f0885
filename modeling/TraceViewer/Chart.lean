namespace TraceViewer

inductive Metric where
  | callbackDuration
  | messageLatency
  | activationDelay
  | messageDelay
  | publicationDelay
deriving DecidableEq

namespace Metric

/-- Every metric, in the order in which a choice lists them. -/
def all : List Metric :=
  [callbackDuration, messageLatency, activationDelay, messageDelay, publicationDelay]

def token : Metric → String
  | callbackDuration => "callback-duration"
  | messageLatency => "messages-latency"
  | activationDelay => "activations-delay"
  | messageDelay => "messages-delay"
  | publicationDelay => "publications-delay"

def label : Metric → String
  | callbackDuration => "Execution duration"
  | messageLatency => "Message latency"
  | activationDelay => "Activation delay"
  | messageDelay => "Message delay"
  | publicationDelay => "Publication delay"

def ofToken? (word : String) : Option Metric :=
  all.find? (·.token == word)

end Metric

/-- How a chart draws its measurements. -/
inductive ChartKind where
  | histogram
  | scatter
deriving DecidableEq

namespace ChartKind

def all : List ChartKind :=
  [histogram, scatter]

def token : ChartKind → String
  | histogram => "histogram"
  | scatter => "scatter"

def label : ChartKind → String
  | histogram => "Histogram"
  | scatter => "Scatter plot"

def ofToken? (word : String) : Option ChartKind :=
  all.find? (·.token == word)

end ChartKind

/-- The image formats that the tracer writes. -/
inductive OutputFormat where
  | svg
  | png
deriving DecidableEq

namespace OutputFormat

def all : List OutputFormat :=
  [svg, png]

/-- The format that the tracer writes unless told otherwise. -/
def default : OutputFormat :=
  svg

def token : OutputFormat → String
  | svg => "svg"
  | png => "png"

def ofToken? (word : String) : Option OutputFormat :=
  all.find? (·.token == word)

end OutputFormat

def windowChartSize : Nat := 800

def tooltipChartSize : Nat := 400

structure ChartRequest where
  elementId : String
  metric : Metric
  chartKind : ChartKind
  binCount : Option Nat := none
  size : Nat := windowChartSize
  format : OutputFormat := .default
deriving DecidableEq

namespace ChartRequest

/-- The bin count that matters: only a histogram has bins. -/
def effectiveBins (r : ChartRequest) : Option Nat :=
  match r.chartKind with
  | .histogram => r.binCount
  | .scatter => none

end ChartRequest

end TraceViewer
