import TraceViewer.Export
import TraceViewer.Files.Error

namespace TraceViewer

/-- Why the viewer cannot do what it is asked to. -/
inductive ViewerError where
  | launchFailure (program : String) (cause : IoError)
  | resourceUnavailable (path : Path) (cause : IoError)
  | emptyArtifact (elementId : String)
  | unresolvedDefaultMetric (kindLabel : String)
  | unsupportedExportFormat (format : ExportFormat)
  | artifactCopy (source target : Path) (cause : IoError)
deriving DecidableEq

def ViewerError.message : ViewerError → String
  | launchFailure program cause =>
    "failed to launch tracer \x60" ++ program ++ "\x60: " ++ cause.message
  | resourceUnavailable path cause =>
    "output directory " ++ path.display ++ " is unavailable: " ++ cause.message
  | emptyArtifact elementId => "tracer produced no chart for " ++ elementId
  | unresolvedDefaultMetric kindLabel =>
    kindLabel ++ " elements have no default metric; pick one explicitly"
  | unsupportedExportFormat format => format.name ++ " export is not supported by the tracer"
  | artifactCopy source target cause =>
    "failed to copy " ++ source.display ++ " to " ++ target.display ++ ": " ++ cause.message

end TraceViewer
