import TraceViewer.Text.Blank
import TraceViewer.Tracer.Arguments
import TraceViewer.Tracer.Basic

namespace TraceViewer

/-- How a program ended: what it printed, what it complained of, and its exit code. -/
structure Ending where
  printed : List UInt8 := []
  complaint : List UInt8 := []
  exitCode : Nat := 0

/-- What a program leaves behind: its ending, the files, and what it remembers. -/
structure Output (σ : Type) where
  ending : Ending
  files : Files
  memory : σ

/-- A system that starts programs: the names that it finds without a path, and what a started
program does. -/
structure System (σ : Type) where
  commands : List Name
  run : Arguments → Files → σ → Output σ

namespace System

variable {σ : Type}

/-- Refuses what cannot be started. A name without a slash is searched among the commands, any other
path must lead to an executable file. -/
def findProgram (sys : System σ) (fs : Files) (program : Path) : Except IoError Unit :=
  if program.bytes.contains Path.slash then
    match fs.find? program with
    | .ok (_, .file _ true) => .ok ()
    | .ok _ => .error .permissionDenied
    | .error e => .error e
  else if program.bytes = Path.here ∨ program.bytes = Path.above then .error .permissionDenied
  else if program.bytes.length > Files.nameLimit then .error .nameTooLong
  else if sys.commands.contains program.bytes then .ok ()
  else .error .notFound

def launch (sys : System σ) (program : Path) (args : Arguments) (fs : Files) (memory : σ) :
    Except IoError (Output σ) :=
  if (program.bytes :: args).any (·.contains 0) then .error .nulInArgument
  else
    match sys.findProgram fs program with
    | .ok () => .ok (sys.run args fs memory)
    | .error e => .error e

end System

structure TracerProcess where
  program : Path
  dataDir : Path
  outDir : Path

namespace TracerProcess

variable {σ : Type}

/-- Starts the program for a job. Only what it printed counts, not its complaint or its exit code. -/
def runJob (p : TracerProcess) (sys : System σ) (job : Job) (fs : Files) (memory : σ) :
    Answer σ (List UInt8) :=
  match sys.launch p.program job.arguments fs memory with
  | .ok out => ⟨.ok out.ending.printed, out.files, out.memory⟩
  | .error e => ⟨.error (.launchFailure p.program.display e), fs, memory⟩

/-- Draws a chart: first the output directory is created, then the program is started. The answer is
what it printed, without the blanks around. -/
def render (p : TracerProcess) (sys : System σ) (r : ChartRequest) (fs : Files) (memory : σ) :
    Answer σ String :=
  match fs.makeDirectories p.outDir with
  | (.error e, fs) => ⟨.error (.resourceUnavailable p.outDir e), fs, memory⟩
  | (.ok (), fs) =>
    let a := p.runJob sys (.chart r p.dataDir p.outDir) fs memory
    { a with result := a.result.map fun out => trimBlank (Utf8.decodeLossy out) }

def extract (p : TracerProcess) (sys : System σ) (elementId : String) (metric : Metric)
    (destination : Path) (fs : Files) (memory : σ) : Answer σ Unit :=
  let a := p.runJob sys (.extract elementId metric p.dataDir destination) fs memory
  { a with result := a.result.map fun _ => () }

def tracer (p : TracerProcess) (sys : System σ) : Tracer σ where
  render := p.render sys
  extract := p.extract sys

end TracerProcess

/-- The directory for charts unless another is given: one below that for temporary files. -/
def defaultScratchDir (tempDir : Option Path) : Path :=
  (tempDir.getD (Path.ofString "/tmp")).join (Utf8.encode "r2ta")

/-- A tracer program with the usual directory for charts. -/
def TracerProcess.ofProgram (program dataDir : Path) (tempDir : Option Path) : TracerProcess :=
  ⟨program, dataDir, defaultScratchDir tempDir⟩

end TraceViewer
