import TraceViewer.Interaction.Hover

namespace TraceViewer

variable {σ : Type} {t : Tracer σ} {w : World σ}

namespace World

theorem calls_artifact (r : ChartRequest) :
    (w.artifact t r).2.calls = w.calls ++ [.render r] := by
  simp only [artifact]
  split <;> rename_i h <;> simp only [render, Prod.mk.injEq] at h <;> rw [← h.2] <;> rfl

/-- A chart is drawn exactly if the tracer prints something, and it is where the tracer says. -/
theorem artifact_eq_ok_iff {r : ChartRequest} {p : Path} :
    (w.artifact t r).1 = .ok p ↔ ∃ text, (t.render r w.files w.memory).result = .ok text ∧
      text ≠ "" ∧ p = Path.ofString text := by
  cases ha : (t.render r w.files w.memory).result with
  | error e => simp [artifact, render, ha]
  | ok text =>
    by_cases ht : text = ""
    · simp [artifact, render, ha, ht]
    · simp [artifact, render, ha, ht, eq_comm]

theorem artifact_eq_error_iff {r : ChartRequest} {e : ViewerError} :
    (w.artifact t r).1 = .error e ↔ (t.render r w.files w.memory).result = .error e ∨
      (t.render r w.files w.memory).result = .ok "" ∧ e = .emptyArtifact r.elementId := by
  cases ha : (t.render r w.files w.memory).result with
  | error e => simp [artifact, render, ha]
  | ok text =>
    by_cases ht : text = ""
    · simp [artifact, render, ha, ht, eq_comm]
    · simp [artifact, render, ha, ht]

end World

namespace View

/-- A drawing touches nothing of a view but its image. -/
theorem render_keeps (v : View) :
    { (v.render t w).view with artifact := v.artifact } = v := by
  unfold render
  split
  · rfl
  · split <;> rfl

theorem render_calls (v : View) :
    (v.render t w).world.calls = w.calls ++ (v.request?.map TracerCall.render).toList := by
  unfold render
  cases hr : v.request? with
  | none => simp
  | some r =>
    simp only [Option.map_some, Option.toList_some, ← World.calls_artifact (t := t)]
    split <;> rename_i ha <;> rw [ha]

theorem change_keeps (v : View) (c : Change) :
    { (v.change c t w).view with artifact := v.artifact } = v.set c := by
  unfold change
  split
  · rename_i hc
    exact ((isSame_iff v c).mp hc).symm
  · rw [← artifact_set v c]
    exact render_keeps (v.set c)

theorem change_calls (v : View) (c : Change) :
    (v.change c t w).world.calls = w.calls ++
      (if v.isSame c then none else (v.set c).request?.map TracerCall.render).toList := by
  unfold change
  split
  · simp
  · exact render_calls (v.set c)

theorem exportChart_calls (v : View) (format : ExportFormat) (destination : Path) :
    (v.exportChart format destination t w).2.calls = w.calls ++
      ((v.exportRequest format).toOption.map TracerCall.render).toList := by
  unfold exportChart
  cases hr : v.exportRequest format with
  | error e => simp [Except.toOption]
  | ok r =>
    simp only [Except.toOption, Option.map_some, Option.toList_some,
      ← World.calls_artifact (t := t)]
    split
    · rename_i ha
      rw [ha]
    · rename_i ha
      rw [ha]
      split <;> rfl

theorem exportData_calls (v : View) (destination : Path) :
    (v.exportData destination t w).2.calls = w.calls ++
      (v.metric.map fun m => TracerCall.extract v.element.identifier m destination).toList := by
  unfold exportData requireMetric
  cases hm : v.metric <;> simp [World.extract, World.after]

end View

namespace Hover

theorem target_look (h : Hover) (target : Option String) :
    (h.look target t w).hover.target = target.map trimBlank := by
  unfold look
  simp only
  split
  · rename_i hh
    exact hh
  · split
    · rfl
    · split <;> rfl

theorem look_calls (h : Hover) (target : Option String) :
    (h.look target t w).world.calls = w.calls ++
      (if target.map trimBlank = h.target then none
        else (request? (target.map trimBlank)).map TracerCall.render).toList := by
  unfold look
  simp only [eq_comm (a := h.target)]
  split
  · simp
  · cases hr : request? (target.map trimBlank) with
    | none => simp
    | some r =>
      simp only [Option.map_some, Option.toList_some, ← World.calls_artifact (t := t)]
      split <;> rename_i ha <;> rw [ha]

end Hover

end TraceViewer
