import TraceViewer.Main
import TraceViewer.Proofs.CommandLine.Lines
import TraceViewer.Proofs.Interaction.Renders
import TraceViewer.Proofs.Tracer.Printed
import TraceViewer.Screen.Sitting

namespace TraceViewer

theorem Path.join_ne {name : List UInt8} (hn : name ≠ []) (p : Path) : (p.join name).bytes ≠ [] := by
  unfold join
  split
  · exact hn
  · split <;> simp [hn]

namespace CommandLine

variable {words : List String} {i : Invocation}

/-- No path that a command line gives is empty. -/
theorem paths_of_parse (h : parse words = .ok i) {p : Path}
    (hp : p ∈ [i.sourceFile, i.tracerProgram, i.dataDir] ++ i.scratchDir.toList) :
    p.bytes ≠ [] := by
  obtain ⟨values, hg, rfl⟩ := exists_givenBy_of_parse h
  have hm : p ∈ (values.positionals ++ values.scratch?.toList).map Path.ofString := by
    simpa [Values.invocation, Values.positionals] using hp
  obtain ⟨text, ht, rfl⟩ := List.mem_map.mp hm
  exact Path.ofString_ne fun he => hg.paths (he ▸ ht)

/-- Whatever the directory for temporary files, there is one for charts. -/
theorem scratchDir_config_ne (h : parse words = .ok i) (tempDir : Option Path) :
    (i.config tempDir).scratchDir.bytes ≠ [] := by
  unfold Invocation.config
  cases hs : i.scratchDir with
  | none => exact Path.join_ne (show Utf8.encode "r2ta" ≠ [] by decide +kernel) _
  | some p => exact paths_of_parse h (by simp [hs])

variable {σ : Type} {sys : System σ} {w : World (List Arguments × σ)} {r : ChartRequest}

/-- When a viewer started from a command line reports that its tracer does not start, the directory
for charts exists. -/
theorem directory_of_launchFailure (h : parse words = .ok i) {tempDir : Option Path}
    {program : String} {cause : IoError}
    (hx : (w.artifact ((i.config tempDir).tracer sys.listing) r).1 =
      .error (.launchFailure program cause)) :
    (w.artifact ((i.config tempDir).tracer sys.listing) r).2.files.isDirectory
      (i.config tempDir).scratchDir = true := by
  obtain ⟨_, -, -, rfl, -, hd⟩ := TracerProcess.made_of_launchFailure hx
  exact hd.resolve_right fun he => scratchDir_config_ne h tempDir he.1

end CommandLine

end TraceViewer
