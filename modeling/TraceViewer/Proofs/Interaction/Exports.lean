import TraceViewer.Proofs.Files.Copy
import TraceViewer.Proofs.Session.Calls
import TraceViewer.Tracer.Script

namespace TraceViewer

variable {σ : Type} {t : Tracer σ} {w : World σ}

namespace World

/-- The world once the tracer has answered one more call. -/
def called (w : World σ) (t : Tracer σ) : TracerCall → World σ
  | .render r => (w.render t r).2
  | .extract elementId metric destination => (w.extract t elementId metric destination).2

theorem artifact_called {r : ChartRequest} {result : Except ViewerError Path}
    (h : (w.artifact t r).1 = result) : w.artifact t r = (result, w.called t (.render r)) := by
  apply Prod.ext h
  simp only [artifact, called]
  split <;> rename_i h <;> rw [h]

end World

/-- A rehearsal with an older chart in the output directory. -/
def Script.rehearsal : World Script :=
  { files := ((Files.empty []).put [Utf8.encode "out"] .directory).put
      [Utf8.encode "out", Utf8.encode "old.png"] (.file [1, 2] false)
    memory := { replies := [] } }

namespace View

variable {v : View} {format : ExportFormat} {destination : Path}

/-- All that can come of saving a chart. -/
inductive Saves (t : Tracer σ) (w : World σ) (v : View) (format : ExportFormat)
    (destination : Path) : Except ViewerError Unit × World σ → Prop where
  | refused {e : ViewerError} (hr : v.exportRequest format = .error e) :
      Saves t w v format destination (.error e, w)
  | notDrawn {r : ChartRequest} {e : ViewerError} (hr : v.exportRequest format = .ok r)
      (ha : (w.artifact t r).1 = .error e) :
      Saves t w v format destination (.error e, w.called t (.render r))
  | notCopied {r : ChartRequest} {path : Path} {e : IoError} (hr : v.exportRequest format = .ok r)
      (ha : (w.artifact t r).1 = .ok path)
      (hc : (w.called t (.render r)).files.copy path destination = .error e) :
      Saves t w v format destination
        (.error (.artifactCopy path destination e), w.called t (.render r))
  | saved {r : ChartRequest} {path : Path} {files : Files} (hr : v.exportRequest format = .ok r)
      (ha : (w.artifact t r).1 = .ok path)
      (hc : (w.called t (.render r)).files.copy path destination = .ok files) :
      Saves t w v format destination (.ok (), { w.called t (.render r) with files := files })

theorem exportChart_saves (t : Tracer σ) (w : World σ) (v : View) (format : ExportFormat)
    (destination : Path) :
    Saves t w v format destination (v.exportChart format destination t w) := by
  cases hr : v.exportRequest format with
  | error e =>
    simp only [exportChart, hr]
    exact .refused hr
  | ok r =>
    cases ha : (w.artifact t r).1 with
    | error e =>
      simp only [exportChart, hr, World.artifact_called ha]
      exact .notDrawn hr ha
    | ok path =>
      simp only [exportChart, hr, World.artifact_called ha]
      split
      · rename_i hc
        exact .notCopied hr ha hc
      · rename_i hc
        exact .saved hr ha hc

/-- A chart reported as saved is a copy of the one drawn for it, unless the destination leads to that
one: then it is lost. Nothing else is different from what the tracer left. -/
theorem saved_chart_is_copy
    (hs : (v.exportChart format destination t w).1 = .ok ()) :
    ∃ r text, format.outputFormat?.bind (v.settings.request? v.element) = some r ∧
      (w.render t r).1 = .ok text ∧ text ≠ "" ∧
      let chart := Path.ofString text
      let drawn := (w.render t r).2.files
      let saved := (v.exportChart format destination t w).2.files
      (drawn.locate destination ≠ drawn.locate chart → drawn.Copied saved chart destination) ∧
        (drawn.locate destination = drawn.locate chart → drawn.Emptied saved chart destination) := by
  have h := exportChart_saves t w v format destination
  generalize v.exportChart format destination t w = outcome at h hs
  cases h with
  | refused => cases hs
  | notDrawn => cases hs
  | notCopied => cases hs
  | @saved r path files hr ha hc =>
    obtain ⟨text, hx, ht, rfl⟩ := World.artifact_eq_ok_iff.mp ha
    have hq := congrArg Except.toOption hr
    rw [exportRequest_toOption] at hq
    refine ⟨r, text, hq, hx, ht, ?_⟩
    rcases Files.copied_or_emptied hc with ⟨hne, hcopied⟩ | hemptied
    · exact ⟨fun _ => hcopied, fun he => absurd he hne⟩
    · exact ⟨fun hne => absurd hemptied.same hne, fun _ => hemptied⟩

/-- The older chart is replaced by a copy of the new one, under another spelling of its path. -/
theorem saved_chart_is_copy_beside :
    let t := Script.tracer (.ofString "out")
    let v := start ⟨"node=/a", .node, some .callback⟩
    let r : ChartRequest := ⟨"node=/a", .callbackDuration, .histogram, none, 800, .png⟩
    let destination := Path.ofString "./out//old.png"
    let saved := v.exportChart .png destination t Script.rehearsal
    saved.1 = .ok () ∧ (Script.rehearsal.render t r).2.files.Copied saved.2.files
      (.ofString "out/chart_1.png") destination := by
  dsimp only
  apply (and_iff_left_of_imp ?_).mpr
  · rfl
  · intro hs
    obtain ⟨r, text, hr, hx, -, hc, -⟩ := saved_chart_is_copy hs
    obtain rfl := Option.some.inj hr
    obtain rfl : "out/chart_1.png" = text := by
      apply Except.ok.inj
      rw [← hx]
      rfl
    refine hc fun he => ?_
    exact absurd (congrArg Except.toOption he) (by decide +kernel)

/-- A chart saved onto the very file drawn for it is reported as saved and is lost. -/
theorem saved_chart_onto_itself_is_lost :
    let t := Script.tracer (.ofString "out")
    let v := start ⟨"node=/a", .node, some .callback⟩
    let r : ChartRequest := ⟨"node=/a", .callbackDuration, .histogram, none, 800, .png⟩
    let destination := Path.ofString "out/chart_1.png"
    let drawn := Script.rehearsal.render t r
    let saved := v.exportChart .png destination t Script.rehearsal
    saved.1 = .ok () ∧ drawn.1 = .ok "out/chart_1.png" ∧
      drawn.2.files.read destination = .ok (Utf8.encode "callback-duration") ∧
      saved.2.files.read destination = .ok [] :=
  ⟨rfl, rfl, rfl, rfl⟩

end View

end TraceViewer
