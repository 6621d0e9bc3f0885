import TraceViewer.CommandLine
import TraceViewer.Screen.Painted
import TraceViewer.Tracer.Process

namespace TraceViewer

def UsageError.message : UsageError → String
  | help => CommandLine.usage
  | version => "r2ta-viewer 0.1.0"
  | missingArgument => "a required argument is missing\n\n" ++ CommandLine.usage
  | unknownArgument => "an argument was not expected\n\n" ++ CommandLine.usage
  | invalidValue => "a value is missing or empty\n\n" ++ CommandLine.usage
  | repeatedOption => "an option was given twice\n\n" ++ CommandLine.usage
  | surplusValue => "a flag was given a value\n\n" ++ CommandLine.usage

/-- Whether a command line asked for nothing but a text. -/
def UsageError.isRequest : UsageError → Bool
  | help | version => true
  | _ => false

/-- What a command line and the environment together start the viewer with. -/
def Invocation.config (i : Invocation) (tempDir : Option Path) : Config :=
  { sourceFile := i.sourceFile
    tracerProgram := i.tracerProgram
    dataDir := i.dataDir
    scratchDir := i.scratchDir.getD (defaultScratchDir tempDir) }

/-- The texts of the first screen, from the bytes of the graph description. -/
def firstScreen (config : Config) (source : Option (List UInt8)) : List String :=
  let loaded : Except LoadError (List Entry) :=
    match source with
    | none => .error ⟨config.sourceFile, .notFound⟩
    | some bytes =>
      match Utf8.decode? bytes with
      | some text => .ok (Entry.scan text)
      | none => .error ⟨config.sourceFile, .notText⟩
  let phase : Phase :=
    match loaded with
    | .ok entries => .ready { entries := entries }
    | .error e => .failed e.message
  paintedTexts ({ App.start with phase := phase }.widgets config)

def readSource (path : String) : IO (Option (List UInt8)) := do
  try
    let content ← IO.FS.readBinFile path
    return some content.toList
  catch _ => return none

end TraceViewer

open TraceViewer in
/-- Prints what the viewer shows first. -/
def main (words : List String) : IO UInt32 := do
  match CommandLine.parse words with
  | .error e =>
    if e.isRequest then
      IO.println e.message
      return 0
    else
      IO.eprintln e.message
      return 2
  | .ok i =>
    let tempDir ← IO.getEnv "TMPDIR"
    let config := i.config (tempDir.map Path.ofString)
    let source ← readSource i.sourceFile.display
    for line in firstScreen config source do
      IO.println line
    return 0
