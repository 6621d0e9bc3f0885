import TraceViewer.Tracer.Process

namespace TraceViewer

/-- What a scripted tracer does when it is called, if not what it does by default. -/
inductive Reply where
  /-- End like this and write no file. -/
  | finish (ending : Ending)
  /-- Fail to start. -/
  | fail (text : String)

/-- A tracer that follows a script, for rehearsals without trace data: the replies to its calls in
order, by default a small chart file, and the arguments it was started with so far. -/
structure Script where
  replies : List (Option Reply)
  started : List Arguments := []
  calls : Nat := 0

namespace Script

def reply? (s : Script) : Option Reply :=
  s.replies[s.calls]?.join

def advance (s : Script) : Script :=
  { s with calls := s.calls + 1 }

/-- The file that the next call draws by default. -/
def chartPath (s : Script) (outDir : Path) (format : OutputFormat) : Path :=
  ⟨outDir.bytes ++
    Utf8.encode ("/chart_" ++ toString (s.calls + 1) ++ "." ++ format.token)⟩

/-- Writes the file that stands for a chart, where it can be written. -/
def drawChart (s : Script) (fs : Files) (outDir : Path) (r : ChartRequest) : Files :=
  match fs.write (s.chartPath outDir r.format) (Utf8.encode r.metric.token) with
  | .ok fs => fs
  | .error _ => fs

def failure (text : String) : ViewerError :=
  .launchFailure "scripted" (.other text)

/-- The script as a tracer without a program of its own. -/
def tracer (outDir : Path) : Tracer Script where
  render r fs s :=
    match s.reply? with
    | some (.finish ending) => ⟨.ok (Utf8.decodeLossy ending.printed), fs, s.advance⟩
    | some (.fail text) => ⟨.error (failure text), fs, s.advance⟩
    | none => ⟨.ok (s.chartPath outDir r.format).display, s.drawChart fs outDir r, s.advance⟩
  extract _ _ _ fs s :=
    match s.reply? with
    | some (.fail text) => ⟨.error (failure text), fs, s.advance⟩
    | _ => ⟨.ok (), fs, s.advance⟩

def run (args : Arguments) (fs : Files) (s : Script) : Output Script :=
  let next := { s.advance with started := s.started ++ [args] }
  match s.reply?, Job.ofArguments? args with
  | some (.finish ending), _ => ⟨ending, fs, next⟩
  | none, some (.chart r _ outDir) =>
    ⟨{ printed := (s.chartPath outDir r.format).bytes }, s.drawChart fs outDir r, next⟩
  | _, _ => ⟨{}, fs, next⟩

/-- A system on which the script can be started under the given names. -/
def system (commands : List Name) : System Script where
  commands := commands
  run := run

end Script

end TraceViewer
