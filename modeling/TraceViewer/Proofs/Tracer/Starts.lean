import TraceViewer.Proofs.Interaction.Exports
import TraceViewer.Tracer.Process

namespace TraceViewer

variable {σ : Type}

namespace System

/-- A system that lists the arguments of the programs that it starts. -/
def listing (sys : System σ) : System (List Arguments × σ) where
  commands := sys.commands
  run args fs memory :=
    let out := sys.run args fs memory.2
    ⟨out.ending, out.files, memory.1 ++ [args], out.memory⟩

/-- Listing makes no difference to what can be started. -/
theorem launch_listing (sys : System σ) (program : Path) (args : Arguments) (fs : Files)
    (memory : List Arguments × σ) :
    sys.listing.launch program args fs memory =
      (sys.launch program args fs memory.2).map fun out =>
        ⟨out.ending, out.files, memory.1 ++ [args], out.memory⟩ := by
  have hf : sys.listing.findProgram fs program = sys.findProgram fs program := rfl
  unfold launch
  split
  · rfl
  rw [hf]
  split <;> rfl

end System

namespace TracerProcess

/-- The arguments with which a chart is asked of the program. -/
def arguments (p : TracerProcess) (r : ChartRequest) : Arguments :=
  (Job.chart r p.dataDir p.outDir).arguments

/-- All that can come of asking the process for a chart, with what it starts listed. -/
inductive Draws (p : TracerProcess) (sys : System σ) (r : ChartRequest) (fs : Files)
    (memory : List Arguments × σ) : Answer (List Arguments × σ) String → Prop where
  | noDirectory {e : IoError} {fs' : Files} (hd : fs.makeDirectories p.outDir = (.error e, fs')) :
      Draws p sys r fs memory ⟨.error (.resourceUnavailable p.outDir e), fs', memory⟩
  | notStarted {e : IoError} {fs' : Files} (hd : fs.makeDirectories p.outDir = (.ok (), fs'))
      (hl : sys.launch p.program (p.arguments r) fs' memory.2 = .error e) :
      Draws p sys r fs memory ⟨.error (.launchFailure p.program.display e), fs', memory⟩
  | printed {fs' : Files} {out : Output σ} (hd : fs.makeDirectories p.outDir = (.ok (), fs'))
      (hl : sys.launch p.program (p.arguments r) fs' memory.2 = .ok out) :
      Draws p sys r fs memory ⟨.ok (trimBlank (Utf8.decodeLossy out.ending.printed)), out.files,
        memory.1 ++ [p.arguments r], out.memory⟩

theorem draws_render (p : TracerProcess) (sys : System σ) (r : ChartRequest) (fs : Files)
    (memory : List Arguments × σ) :
    Draws p sys r fs memory (p.render sys.listing r fs memory) := by
  unfold render
  split
  · exact .noDirectory ‹_›
  · rename_i fs' hd
    simp only [runJob, System.launch_listing]
    rw [← arguments]
    cases hl : sys.launch p.program (p.arguments r) fs' memory.2 with
    | error e => exact .notStarted hd hl
    | ok out => exact .printed hd hl

/-- Only one of these can come of it. -/
theorem Draws.render_eq {p : TracerProcess} {sys : System σ} {r : ChartRequest} {fs : Files}
    {memory : List Arguments × σ} {a : Answer (List Arguments × σ) String}
    (h : Draws p sys r fs memory a) : p.render sys.listing r fs memory = a := by
  cases h with
  | noDirectory hd => simp only [render, hd]
  | notStarted hd hl =>
    rw [arguments] at hl
    simp only [render, hd, runJob, System.launch_listing, hl, Except.map]
  | printed hd hl =>
    rw [arguments] at hl ⊢
    simp only [render, hd, runJob, System.launch_listing, hl, Except.map]

/-- Asked for a chart, the process starts the program with the arguments of the chart, if it can
start it at all. -/
theorem called_listing (p : TracerProcess) (sys : System σ) (w : World (List Arguments × σ))
    (r : ChartRequest) :
    ∃ started, (w.called (p.tracer sys.listing) (.render r)).memory.1 = w.memory.1 ++ started ∧
      (started = [] ∨ started = [p.arguments r]) := by
  have h := p.draws_render sys r w.files w.memory
  simp only [World.called, World.render, World.after, tracer]
  generalize p.render sys.listing r w.files w.memory = a at h
  cases h with
  | noDirectory => exact ⟨[], (List.append_nil _).symm, .inl rfl⟩
  | notStarted => exact ⟨[], (List.append_nil _).symm, .inl rfl⟩
  | printed => exact ⟨[p.arguments r], rfl, .inr rfl⟩

end TracerProcess

end TraceViewer
