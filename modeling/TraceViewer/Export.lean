import TraceViewer.Chart
import TraceViewer.Files.Path

namespace TraceViewer

/-- The image formats offered for saving a chart. -/
inductive ExportFormat where
  | png
  | svg
  | jpg
deriving DecidableEq

namespace ExportFormat

/-- Every format, in the order in which a choice lists them. -/
def all : List ExportFormat :=
  [png, svg, jpg]

/-- The format of a file whose name tells none. -/
def default : ExportFormat :=
  png

def name : ExportFormat → String
  | png => "PNG"
  | svg => "SVG"
  | jpg => "JPG"

def label (f : ExportFormat) : String :=
  f.name ++ " image"

/-- The extensions of the format's files, the usual one first. -/
def extensions : ExportFormat → List String
  | png => ["png"]
  | svg => ["svg"]
  | jpg => ["jpg", "jpeg"]

def extension (f : ExportFormat) : String :=
  f.extensions.headD ""

def token : ExportFormat → String :=
  extension

def ofToken? (word : String) : Option ExportFormat :=
  all.find? (·.token == word)

/-- An ASCII letter in lower case; every other byte as it is. -/
def lowerByte (b : UInt8) : UInt8 :=
  if 0x41 ≤ b ∧ b ≤ 0x5A then b + 0x20 else b

/-- The format with this extension, in any ASCII case. -/
def ofExtension? (extension : Name) : Option ExportFormat :=
  all.find? fun f => (f.extensions.map Utf8.encode).contains (extension.map lowerByte)

/-- The format that a file's extension tells. -/
def ofPath? (p : Path) : Option ExportFormat :=
  p.extension?.bind ofExtension?

/-- The format in which the tracer writes the chart, if it can. -/
def outputFormat? : ExportFormat → Option OutputFormat
  | png => some .png
  | svg => some .svg
  | jpg => none

end ExportFormat

structure ExportTarget where
  path : Path
  format : ExportFormat
deriving DecidableEq

/-- The target that a chosen path stands for. A path whose extension tells no format gets the
default one, and its extension added to the name. -/
def ExportTarget.ofPath (p : Path) : ExportTarget :=
  match ExportFormat.ofPath? p with
  | some format => ⟨p, format⟩
  | none =>
    let format := ExportFormat.default
    ⟨p.withFileName (p.fileName?.getD [] ++ Path.dot :: Utf8.encode format.extension), format⟩

end TraceViewer
