import TraceViewer.Chart
import TraceViewer.Files.Path

namespace TraceViewer

inductive Job where
  | chart (request : ChartRequest) (dataDir outDir : Path)
  | extract (elementId : String) (metric : Metric) (dataDir destination : Path)
deriving DecidableEq

abbrev Arguments := List (List UInt8)

namespace Job

def word (s : String) : List UInt8 :=
  Utf8.encode s

/-- The format option, left out for the format that the tracer writes anyway. -/
def formatArguments (format : OutputFormat) : Arguments :=
  if format = .default then [] else [word "--output-format", word format.token]

/-- The bin option, given for a histogram with a bin count only. -/
def binArguments (r : ChartRequest) : Arguments :=
  match r.effectiveBins with
  | some n => [word "--bins", word (toString n)]
  | none => []

def arguments : Job → Arguments
  | chart r dataDir outDir =>
    [word "chart", word "--element-id", word r.elementId, word "--property", word r.metric.token,
      word "-i", dataDir.bytes, word "-o", outDir.bytes, word "--size", word (toString r.size)] ++
      (formatArguments r.format ++ (word r.chartKind.token :: binArguments r))
  | extract elementId metric dataDir destination =>
    [word "extract", word "--element-id", word elementId, word "--property", word metric.token,
      word "-i", dataDir.bytes, word "-o", destination.bytes]

/-- Reads a number from its decimal digits. -/
def readNat? (bytes : List UInt8) : Option Nat := do
  let digits ← Utf8.decode? bytes
  if digits ≠ "" ∧ digits.toList.all Char.isDigit then
    some (Nat.ofDigitChars 10 digits.toList 0)
  else none

/-- Reads the arguments from the format option on. -/
def readTail? : Arguments → Option (OutputFormat × ChartKind × Option Nat)
  | [kind] => do some (.default, ← readKind? kind, none)
  | [a, b, c] => do
    if a = word "--output-format" then some (← readFormat? b, ← readKind? c, none)
    else if b = word "--bins" then some (.default, ← readKind? a, some (← readNat? c))
    else none
  | [_, format, kind, _, bins] => do
    some (← readFormat? format, ← readKind? kind, some (← readNat? bins))
  | _ => none
where
  readKind? (bytes : List UInt8) : Option ChartKind :=
    (Utf8.decode? bytes).bind ChartKind.ofToken?
  readFormat? (bytes : List UInt8) : Option OutputFormat :=
    (Utf8.decode? bytes).bind OutputFormat.ofToken?

def ofArguments? : Arguments → Option Job
  | command :: _ :: id :: _ :: property :: _ :: dataDir :: _ :: out :: rest => do
    let elementId ← Utf8.decode? id
    let metric ← (Utf8.decode? property).bind Metric.ofToken?
    match rest with
    | [] =>
      if command = word "extract" then some (extract elementId metric ⟨dataDir⟩ ⟨out⟩) else none
    | _ :: size :: tail =>
      if command = word "chart" then
        let (format, chartKind, binCount) ← readTail? tail
        some (chart ⟨elementId, metric, chartKind, binCount, ← readNat? size, format⟩
          ⟨dataDir⟩ ⟨out⟩)
      else none
    | _ => none
  | _ => none

end Job

end TraceViewer
