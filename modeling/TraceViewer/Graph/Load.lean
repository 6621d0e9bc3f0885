import TraceViewer.Files.Store
import TraceViewer.Graph.Entry

namespace TraceViewer

structure LoadError where
  path : Path
  cause : IoError
deriving DecidableEq

def LoadError.message (e : LoadError) : String :=
  "failed to read graph description " ++ e.path.display ++ ": " ++ e.cause.message

/-- The elements that the graph description at a path names. -/
def Files.loadEntries (fs : Files) (p : Path) : Except LoadError (List Entry) :=
  match fs.readText p with
  | .ok text => .ok (Entry.scan text)
  | .error e => .error ⟨p, e⟩

end TraceViewer
