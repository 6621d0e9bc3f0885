import TraceViewer.Proofs.Interaction.Exports

namespace TraceViewer

/-- What a view can be asked to save: its chart in a format, or its measurements. -/
inductive Export where
  | chart (format : ExportFormat) (destination : Path)
  | data (destination : Path)

namespace Export

variable {σ : Type} {t : Tracer σ} {w : World σ} {v : View} {x : Export} {e : ViewerError}

def step (view : Nat) : Export → Step
  | chart format destination => .exportChart view format destination
  | data destination => .exportData view destination

def run (v : View) (t : Tracer σ) (w : World σ) : Export → Except ViewerError Unit × World σ
  | chart format destination => v.exportChart format destination t w
  | data destination => v.exportData destination t w

/-- Why an export is refused out of hand: a missing metric counts before the format. -/
def refusal? (v : View) (x : Export) : Option ViewerError :=
  match v.metric with
  | none => some (.unresolvedDefaultMetric v.element.kindLabel)
  | some _ =>
    match x with
    | chart .jpg _ => some (.unsupportedExportFormat .jpg)
    | _ => none

/-- The call of the tracer that an export needs. -/
def call? (v : View) : Export → Option TracerCall
  | chart format _ =>
    (format.outputFormat?.bind (v.settings.request? v.element)).map .render
  | data destination =>
    v.settings.metric.map fun m => .extract v.element.identifier m destination

/-- Why an export fails once the tracer is called: the tracer fails, it prints nothing, or what it
drew cannot be copied. -/
inductive Fault (t : Tracer σ) (w : World σ) : Export → TracerCall → ViewerError → Prop where
  | notDrawn {format : ExportFormat} {destination : Path} {r : ChartRequest} {e : ViewerError}
      (h : (w.render t r).1 = .error e) : Fault t w (chart format destination) (.render r) e
  | nothingPrinted {format : ExportFormat} {destination : Path} {r : ChartRequest}
      (h : (w.render t r).1 = .ok "") :
      Fault t w (chart format destination) (.render r) (.emptyArtifact r.elementId)
  | notCopied {format : ExportFormat} {destination : Path} {r : ChartRequest} {text : String}
      {e : IoError} (h : (w.render t r).1 = .ok text) (ht : text ≠ "")
      (hc : (w.render t r).2.files.CopyFault (.ofString text) destination e) :
      Fault t w (chart format destination) (.render r)
        (.artifactCopy (.ofString text) destination e)
  | notExtracted {destination : Path} {elementId : String} {m : Metric} {e : ViewerError}
      (h : (w.extract t elementId m destination).1 = .error e) :
      Fault t w (data destination) (.extract elementId m destination) e

theorem run_of_refusal (h : x.refusal? v = some e) : x.run v t w = (.error e, w) := by
  cases hm : v.metric with
  | none =>
    obtain rfl : .unresolvedDefaultMetric v.element.kindLabel = e := by simpa [refusal?, hm] using h
    cases x with
    | chart format destination =>
      simp [run, View.exportChart, View.exportRequest, View.requireMetric, hm, bind, Except.bind]
    | data destination => simp [run, View.exportData, View.requireMetric, hm]
  | some m =>
    cases x with
    | chart format destination =>
      cases format with
      | jpg =>
        obtain rfl : .unsupportedExportFormat .jpg = e := by simpa [refusal?, hm] using h
        simp [run, View.exportChart, View.exportRequest, View.requireMetric, View.requireFormat,
          ExportFormat.outputFormat?, hm, bind, Except.bind]
      | png => simp [refusal?, hm] at h
      | svg => simp [refusal?, hm] at h
    | data destination => simp [refusal?, hm] at h

theorem call?_of_allowed (h : x.refusal? v = none) : ∃ call, x.call? v = some call := by
  cases hm : v.metric with
  | none => simp [refusal?, hm] at h
  | some m =>
    cases x with
    | chart format destination =>
      cases format with
      | jpg => simp [refusal?, hm] at h
      | png => simp [call?, View.settings, Settings.request?, ExportFormat.outputFormat?, hm]
      | svg => simp [call?, View.settings, Settings.request?, ExportFormat.outputFormat?, hm]
    | data destination => simp [call?, View.settings, hm]

theorem run_calls : (x.run v t w).2.calls = w.calls ++ (x.call? v).toList := by
  cases x with
  | chart format destination =>
    simp only [run, View.exportChart_calls, View.exportRequest_toOption, call?]
  | data destination => exact View.exportData_calls v destination

section

variable {format : ExportFormat} {destination : Path} {call : TracerCall}

theorem exportRequest_of_call? (h : (chart format destination).call? v = some call) :
    ∃ r, call = .render r ∧ v.exportRequest format = .ok r := by
  rw [call?, ← View.exportRequest_toOption] at h
  cases hr : v.exportRequest format with
  | error e => simp [hr, Except.toOption] at h
  | ok r =>
    rw [hr] at h
    exact ⟨r, (Option.some.inj h).symm, rfl⟩

theorem run_data_of_call? (h : (data destination).call? v = some call) : ∃ m,
    call = .extract v.element.identifier m destination ∧
      (data destination).run v t w = w.extract t v.element.identifier m destination := by
  cases hm : v.metric with
  | none => simp [call?, View.settings, hm] at h
  | some m =>
    simp only [call?, View.settings, hm, Option.map_some, Option.some.injEq] at h
    exact ⟨m, h.symm, by simp only [run, View.exportData, View.requireMetric, hm]⟩

theorem run_of_undrawn {r : ChartRequest}
    (hc : (chart format destination).call? v = some (.render r))
    (ha : (w.artifact t r).1 = .error e) :
    (chart format destination).run v t w = (.error e, w.called t (.render r)) := by
  obtain ⟨_, he, hr⟩ := exportRequest_of_call? hc
  cases he
  simp only [run, View.exportChart, hr, World.artifact_called ha]

/-- What fails after the call leaves the world as the call left it. -/
theorem run_of_fault (hc : x.call? v = some call) (hf : x.Fault t w call e) :
    x.run v t w = (.error e, w.called t call) := by
  cases hf with
  | notDrawn h => exact run_of_undrawn hc (World.artifact_eq_error_iff.mpr (.inl h))
  | nothingPrinted h => exact run_of_undrawn hc (World.artifact_eq_error_iff.mpr (.inr ⟨h, rfl⟩))
  | @notCopied format destination r text e h ht hcopy =>
    obtain ⟨_, he, hr⟩ := exportRequest_of_call? hc
    cases he
    have ha : (w.artifact t r).1 = .ok (.ofString text) :=
      World.artifact_eq_ok_iff.mpr ⟨text, h, ht, rfl⟩
    have hk : (w.called t (.render r)).files.copy (.ofString text) destination = .error e :=
      Files.copy_eq_error_iff.mpr hcopy
    simp only [run, View.exportChart, hr, World.artifact_called ha, hk]
  | @notExtracted destination elementId m e h =>
    obtain ⟨_, he, hr⟩ := run_data_of_call? hc
    cases he
    rw [hr]
    exact Prod.ext h rfl

theorem fault_of_run (hc : x.call? v = some call) (h : (x.run v t w).1 = .error e) :
    x.Fault t w call e := by
  cases x with
  | chart format destination =>
    obtain ⟨r, rfl, hr⟩ := exportRequest_of_call? hc
    have hs := View.exportChart_saves t w v format destination
    simp only [run] at h
    generalize v.exportChart format destination t w = outcome at hs h
    cases hs with
    | refused hn => cases hr.symm.trans hn
    | notDrawn hr' ha =>
      cases hr.symm.trans hr'
      cases h
      rcases World.artifact_eq_error_iff.mp ha with hx | ⟨hx, rfl⟩
      · exact .notDrawn hx
      · exact .nothingPrinted hx
    | notCopied hr' ha hk =>
      cases hr.symm.trans hr'
      cases h
      obtain ⟨text, hx, ht, rfl⟩ := World.artifact_eq_ok_iff.mp ha
      exact .notCopied hx ht (Files.copy_eq_error_iff.mp hk)
    | saved => cases h
  | data destination =>
    obtain ⟨m, rfl, hr⟩ := run_data_of_call? (t := t) (w := w) hc
    rw [hr] at h
    exact .notExtracted h

end

end Export

namespace Session

variable {σ : Type}

theorem step_export {s : Session σ} {n : Nat} {v : View} (hv : s.views[n]? = some v) (t : Tracer σ)
    (x : Export) : s.step t (x.step n) =
      (.exported (x.run v t s.world).1, { s with world := (x.run v t s.world).2 }) := by
  cases x <;> simp only [Export.step, Session.step, withView, hv, Export.run]

/-- Of an export that fails, the viewer leaves no trace. One refused out of hand makes no call; any
other makes its one call, fails exactly for the faults named, and leaves all files as that call did. -/
theorem failed_exports_leave_no_trace (t : Tracer σ) (s : Session σ) (n : Nat) (v : View)
    (hv : s.views[n]? = some v) (x : Export) :
    let r := s.step t (x.step n)
    r.2.views = s.views ∧ r.2.hovers = s.hovers ∧
      (∀ e, x.refusal? v = some e → r = (.exported (.error e), s)) ∧
      (x.refusal? v = none → ∃ call, x.call? v = some call ∧
        r.2.world.calls = s.world.calls ++ [call] ∧
        ∀ e, (r.1 = .exported (.error e) ↔ x.Fault t s.world call e) ∧
          (r.1 = .exported (.error e) → r.2.world = s.world.called t call)) := by
  intro r
  have hr : r = _ := step_export hv t x
  rw [hr]
  refine ⟨rfl, rfl, ?_, ?_⟩
  · intro e he
    rw [Export.run_of_refusal he]
  · intro ha
    obtain ⟨call, hc⟩ := Export.call?_of_allowed ha
    have hcalls := Export.run_calls (x := x) (v := v) (t := t) (w := s.world)
    rw [hc] at hcalls
    refine ⟨call, hc, hcalls, fun e => ⟨⟨?_, ?_⟩, ?_⟩⟩
    · intro he
      exact Export.fault_of_run hc (StepResult.exported.inj he)
    · intro hf
      exact congrArg (fun o => StepResult.exported o.1) (Export.run_of_fault hc hf)
    · intro he
      have hf := Export.fault_of_run hc (StepResult.exported.inj he)
      exact congrArg Prod.snd (Export.run_of_fault hc hf)

/-- A chart is not saved to the path of a file that ends in a slash, and the file stays. -/
theorem failed_exports_leave_no_trace_of_copy :
    let t := Script.tracer (.ofString "out")
    let v := View.start ⟨"node=/a", .node, some .callback⟩
    let s : Session Script := { views := [v], world := Script.rehearsal }
    let x := Export.chart .png (.ofString "out/old.png/")
    let call := TracerCall.render ⟨"node=/a", .callbackDuration, .histogram, none, 800, .png⟩
    let e := ViewerError.artifactCopy (.ofString "out/chart_1.png") (.ofString "out/old.png/")
      .isADirectory
    let r := s.step t (x.step 0)
    r.1 = .exported (.error e) ∧ s.views[0]? = some v ∧ r.2.world = s.world.called t call ∧
      x.Fault t s.world call e := by
  dsimp only
  apply (and_iff_left_of_imp ?_).mpr
  · rfl
  · intro hr
    obtain ⟨-, -, -, h⟩ := failed_exports_leave_no_trace (Script.tracer (.ofString "out"))
      { views := [View.start ⟨"node=/a", .node, some .callback⟩], world := Script.rehearsal } 0 _ rfl
      (.chart .png (.ofString "out/old.png/"))
    obtain ⟨call, hc, -, he⟩ := h rfl
    obtain rfl := Option.some.inj hc
    exact ⟨rfl, (he _).2 hr, (he _).1.mp hr⟩

end Session

end TraceViewer
