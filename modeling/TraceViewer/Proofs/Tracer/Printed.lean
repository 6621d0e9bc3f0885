import TraceViewer.Proofs.Files.Directories
import TraceViewer.Proofs.Text.Blank
import TraceViewer.Proofs.Tracer.Starts

namespace TraceViewer

variable {σ : Type}

namespace World

variable {t : Tracer σ} {w : World σ} {r : ChartRequest} {whole : String}

theorem artifact_world : (w.artifact t r).2 = w.after (.render r) (t.render r w.files w.memory) :=
  congrArg Prod.snd (artifact_called rfl)

/-- A tracer that answers without the blanks leads to the image named between them. -/
theorem artifact_eq_ok_iff_trims
    (h : (t.render r w.files w.memory).result = .ok (trimBlank whole)) (path : Path) :
    (w.artifact t r).1 = .ok path ↔ ∃ text, text ≠ "" ∧ Trims whole text ∧ path = .ofString text := by
  simp only [artifact_eq_ok_iff, h, Except.ok.injEq, trimBlank_eq_iff]
  constructor
  · rintro ⟨text, ht, hn, hp⟩
    exact ⟨text, hn, ht, hp⟩
  · rintro ⟨text, hn, ht, hp⟩
    exact ⟨text, ht, hn, hp⟩

theorem artifact_eq_error_iff_trims
    (h : (t.render r w.files w.memory).result = .ok (trimBlank whole)) (e : ViewerError) :
    (w.artifact t r).1 = .error e ↔ e = .emptyArtifact r.elementId ∧ Trims whole "" := by
  simp only [artifact_eq_error_iff, h, Except.ok.injEq, reduceCtorEq, false_or, trimBlank_eq_iff]
  exact and_comm

end World

namespace TracerProcess

variable {p : TracerProcess} {sys : System σ} {w : World (List Arguments × σ)} {r : ChartRequest}

namespace Draws

variable {a : Answer (List Arguments × σ) String}

theorem artifact_world (h : Draws p sys r w.files w.memory a) :
    (w.artifact (p.tracer sys.listing) r).2 = w.after (.render r) a := by
  rw [World.artifact_world]
  exact congrArg (w.after (.render r)) h.render_eq

theorem artifact_eq_error {e : ViewerError} (h : Draws p sys r w.files w.memory a)
    (ha : a.result = .error e) : (w.artifact (p.tracer sys.listing) r).1 = .error e :=
  World.artifact_eq_error_iff.mpr (.inl ((congrArg Answer.result h.render_eq).trans ha))

end Draws

section Printed

variable {fs : Files} {out : Output σ} (hd : w.files.makeDirectories p.outDir = (.ok (), fs))
  (hl : sys.launch p.program (p.arguments r) fs w.memory.2 = .ok out)

include hd hl

theorem memory_of_printed :
    (w.artifact (p.tracer sys.listing) r).2.memory.1 = w.memory.1 ++ [p.arguments r] := by
  rw [(Draws.printed hd hl).artifact_world]
  rfl

theorem result_of_printed : ((p.tracer sys.listing).render r w.files w.memory).result =
    .ok (trimBlank (Utf8.decodeLossy out.ending.printed)) :=
  congrArg Answer.result (Draws.printed hd hl).render_eq

/-- An encoded text between blanks is read back. -/
theorem artifact_of_padded {before text after : String} (hb : isAllBlank before = true)
    (ha : isAllBlank after = true) (hn : text ≠ "") (ht : Trims text text)
    (hp : out.ending.printed = Utf8.encode (before ++ text ++ after)) :
    (w.artifact (p.tracer sys.listing) r).1 = .ok (.ofString text) := by
  refine (World.artifact_eq_ok_iff_trims (result_of_printed hd hl) _).mpr ⟨text, hn, ?_, rfl⟩
  rw [hp, Utf8.decodeLossy_encode]
  exact .padded hb ha ht

end Printed

section NoDirectory

variable {e : IoError} {fs : Files} (hd : w.files.makeDirectories p.outDir = (.error e, fs))

include hd

theorem artifact_of_noDirectory :
    (w.artifact (p.tracer sys.listing) r).1 = .error (.resourceUnavailable p.outDir e) :=
  (Draws.noDirectory hd).artifact_eq_error rfl

theorem memory_of_noDirectory :
    (w.artifact (p.tracer sys.listing) r).2.memory = w.memory := by
  rw [(Draws.noDirectory hd).artifact_world]
  rfl

/-- On the way to the directory that cannot be made, no file is touched. -/
theorem file_iff_of_noDirectory (loc : Location) (content : List UInt8) (executable : Bool) :
    (w.artifact (p.tracer sys.listing) r).2.files.node? loc = some (.file content executable) ↔
      w.files.node? loc = some (.file content executable) := by
  have hg := Files.makeDirectories_grown w.files p.outDir
  rw [hd] at hg
  rw [(Draws.noDirectory hd).artifact_world]
  exact hg.file_iff

end NoDirectory

theorem artifact_of_notStarted {cause : IoError} {fs : Files}
    (hd : w.files.makeDirectories p.outDir = (.ok (), fs))
    (hl : sys.launch p.program (p.arguments r) fs w.memory.2 = .error cause) :
    (w.artifact (p.tracer sys.listing) r).1 =
      .error (.launchFailure p.program.display cause) :=
  (Draws.notStarted hd hl).artifact_eq_error rfl

/-- A failed start is reported exactly if the output directory was made and then the system refused
the program. -/
theorem artifact_eq_launchFailure_iff {program : String} {cause : IoError} :
    (w.artifact (p.tracer sys.listing) r).1 = .error (.launchFailure program cause) ↔
      program = p.program.display ∧ ∃ fs, w.files.makeDirectories p.outDir = (.ok (), fs) ∧
        sys.launch p.program (p.arguments r) fs w.memory.2 = .error cause := by
  constructor
  · intro h
    simp only [World.artifact_eq_error_iff, tracer] at h
    have hd := p.draws_render sys r w.files w.memory
    generalize p.render sys.listing r w.files w.memory = a at h hd
    cases hd with
    | noDirectory => simp at h
    | notStarted hd hl =>
      simp only [Except.error.injEq, ViewerError.launchFailure.injEq, reduceCtorEq, false_and,
        or_false] at h
      exact ⟨h.1.symm, _, hd, h.2 ▸ hl⟩
    | printed => simp at h
  · rintro ⟨rfl, fs, hd, hl⟩
    exact artifact_of_notStarted hd hl

/-- A program that is not started leaves no trace, and the output directory was made before. -/
theorem made_of_launchFailure {program : String} {cause : IoError}
    (h : (w.artifact (p.tracer sys.listing) r).1 = .error (.launchFailure program cause)) :
    ∃ fs, w.files.makeDirectories p.outDir = (.ok (), fs) ∧
      sys.launch p.program (p.arguments r) fs w.memory.2 = .error cause ∧
      (w.artifact (p.tracer sys.listing) r).2.files = fs ∧
      (w.artifact (p.tracer sys.listing) r).2.memory = w.memory ∧
      (fs.isDirectory p.outDir = true ∨ p.outDir.bytes = [] ∧ fs = w.files) := by
  obtain ⟨-, fs, hd, hl⟩ := artifact_eq_launchFailure_iff.mp h
  rw [(Draws.notStarted hd hl).artifact_world]
  exact ⟨fs, hd, hl, rfl, rfl, (Files.makeDirectories_eq_ok hd).symm⟩

/-- Once the output directory is made and the program is started, what it prints decides, whatever it
complains of and however it ends: the bytes are read as text, and what stands between the blanks
around is where the image is. If nothing stands there, no image was drawn. If the directory cannot be
made, the program is not started and no file is touched. A failed start is reported only after that,
when the directory exists; the empty path stands for the working directory, where none is to be
made. -/
theorem printed_is_artifact (p : TracerProcess) (sys : System σ) (w : World (List Arguments × σ))
    (r : ChartRequest) :
    let drawn := w.artifact (p.tracer sys.listing) r
    (∀ fs printed complaint exitCode files memory,
      w.files.makeDirectories p.outDir = (.ok (), fs) →
      sys.launch p.program (p.arguments r) fs w.memory.2 =
        .ok ⟨⟨printed, complaint, exitCode⟩, files, memory⟩ →
      let decoded := Utf8.decodeLossy printed
      drawn.2.memory.1 = w.memory.1 ++ [p.arguments r] ∧
      (∀ path, drawn.1 = .ok path ↔
        ∃ text, text ≠ "" ∧ Trims decoded text ∧ path = .ofString text) ∧
      (∀ e, drawn.1 = .error e ↔ e = .emptyArtifact r.elementId ∧ Trims decoded "") ∧
      ∀ before text after, isAllBlank before = true → isAllBlank after = true → text ≠ "" →
        Trims text text → printed = Utf8.encode (before ++ text ++ after) →
        drawn.1 = .ok (.ofString text)) ∧
    (∀ e fs, w.files.makeDirectories p.outDir = (.error e, fs) →
      drawn.1 = .error (.resourceUnavailable p.outDir e) ∧ drawn.2.memory = w.memory ∧
      ∀ loc content executable, drawn.2.files.node? loc = some (.file content executable) ↔
        w.files.node? loc = some (.file content executable)) ∧
    (∀ cause fs, w.files.makeDirectories p.outDir = (.ok (), fs) →
      sys.launch p.program (p.arguments r) fs w.memory.2 = .error cause →
      drawn.1 = .error (.launchFailure p.program.display cause)) ∧
    ∀ program cause, drawn.1 = .error (.launchFailure program cause) →
      ∃ fs, w.files.makeDirectories p.outDir = (.ok (), fs) ∧
        sys.launch p.program (p.arguments r) fs w.memory.2 = .error cause ∧
        drawn.2.files = fs ∧ drawn.2.memory = w.memory ∧
        (fs.isDirectory p.outDir = true ∨ p.outDir.bytes = [] ∧ fs = w.files) := by
  intro drawn
  refine ⟨?_, ?_, ?_, ?_⟩
  · intro fs printed complaint exitCode files memory hd hl decoded
    have hr := result_of_printed hd hl
    exact ⟨memory_of_printed hd hl, World.artifact_eq_ok_iff_trims hr,
      World.artifact_eq_error_iff_trims hr, fun _ _ _ => artifact_of_padded hd hl⟩
  · exact fun e fs hd =>
      ⟨artifact_of_noDirectory hd, memory_of_noDirectory hd, file_iff_of_noDirectory hd⟩
  · exact fun cause fs hd hl => artifact_of_notStarted hd hl
  · exact fun program cause => made_of_launchFailure

theorem printed_is_artifact_of_padding :
    let p : TracerProcess := ⟨.ofString "r2ta-tracer", .ofString "data", .ofString "out"⟩
    let text := "out/caf\u00e9.svg"
    let printing (commands : List Name) : System Unit := ⟨commands, fun _ fs _ =>
      ⟨⟨Utf8.encode ("\t " ++ text ++ "\u3000\n"), Utf8.encode "bins ignored", 3⟩, fs, ()⟩⟩
    let sys := printing [p.program.bytes]
    let w : World (List Arguments × Unit) := { files := .empty [], memory := ([], ()) }
    let blocked := { w with files := w.files.put [Utf8.encode "out"] (.file [1, 2] false) }
    let r : ChartRequest := ⟨"node=/a", .activationDelay, .histogram, none, 800, .svg⟩
    let drawn := w.artifact (p.tracer sys.listing) r
    let refused := w.artifact (p.tracer (printing []).listing) r
    drawn.1 = .ok (.ofString text) ∧ drawn.2.memory.1 = [p.arguments r] ∧
    (blocked.artifact (p.tracer sys.listing) r).1 =
      .error (.resourceUnavailable p.outDir .alreadyExists) ∧
    refused.1 = .error (.launchFailure "r2ta-tracer" .notFound) ∧
    refused.2.files.isDirectory p.outDir = true := by
  intro p text printing sys w blocked r drawn refused
  let made := w.files.put [Utf8.encode "out"] .directory
  have hd : w.files.makeDirectories p.outDir = (.ok (), made) := rfl
  have hblocked : blocked.files.makeDirectories p.outDir = (.error .alreadyExists, blocked.files) :=
    rfl
  have hz : ¬ (p.program.bytes :: p.arguments r).any (·.contains 0) = true := by decide +kernel
  have hl : sys.launch p.program (p.arguments r) made w.memory.2 =
      .ok (sys.run (p.arguments r) made w.memory.2) := by
    have hf : sys.findProgram made p.program = .ok () := by rfl
    rw [System.launch, if_neg hz, hf]
  have hn : (printing []).launch p.program (p.arguments r) made w.memory.2 = .error .notFound := by
    have hf : (printing []).findProgram made p.program = .error .notFound := by rfl
    rw [System.launch, if_neg hz, hf]
  have ht : Trims text text := trimBlank_eq_iff.mp (by decide +kernel)
  obtain ⟨hstarted, -⟩ := printed_is_artifact p sys w r
  obtain ⟨hm, -, -, hpad⟩ := hstarted made _ _ _ _ _ hd hl
  obtain ⟨-, hunmade, -⟩ := printed_is_artifact p sys blocked r
  obtain ⟨-, -, hrefused, hafter⟩ := printed_is_artifact p (printing []) w r
  have he : refused.1 = .error (.launchFailure "r2ta-tracer" .notFound) := hrefused _ made hd hn
  refine ⟨?_, hm, (hunmade _ _ hblocked).1, he, ?_⟩
  · exact hpad "\t " text "\u3000\n" (by decide +kernel) (by decide +kernel) (by decide) ht rfl
  · obtain ⟨fs, -, -, hf, -, hdir⟩ := hafter _ _ he
    rw [hf]
    exact hdir.resolve_right fun h => absurd h.1 (by decide +kernel)

end TracerProcess

end TraceViewer
