import TraceViewer.Proofs.Interaction.Calls
import TraceViewer.Proofs.Screen.Drawings

namespace TraceViewer

/-- A call for the small chart that a tooltip shows. -/
def TracerCall.isTooltip : TracerCall → Bool
  | .render r => r.size == tooltipChartSize
  | .extract _ _ _ => false

/-- A call of the tracer, and what it is made for. -/
inductive Errand where
  | tooltip (r : ChartRequest)
  | drawing (d : Drawing)
  | exported (call : TracerCall)

namespace Errand

def call : Errand → TracerCall
  | tooltip r => .render r
  | drawing d => .render d.request
  | exported call => call

def drawing? : Errand → Option Drawing
  | drawing d => some d
  | tooltip _ | exported _ => none

theorem call_of_drawing? {e : Errand} {d : Drawing} (h : e.drawing? = some d) :
    e.call = .render d.request := by
  cases e with
  | drawing d' =>
    obtain rfl := Option.some.inj h
    rfl
  | tooltip | exported => cases h

end Errand

variable {σ : Type} {t : Tracer σ} {w : World σ}

namespace View

theorem size_request? {v : View} {r : ChartRequest} (h : v.request? = some r) :
    r.size = windowChartSize := by
  obtain ⟨m, -, rfl⟩ := Option.map_eq_some_iff.mp h
  rfl

theorem size_exportRequest {v : View} {format : ExportFormat} {r : ChartRequest}
    (h : (v.exportRequest format).toOption = some r) : r.size = windowChartSize := by
  unfold exportRequest requireMetric requireFormat at h
  cases hm : v.metric with
  | none => simp [hm, bind, Except.bind, Except.toOption] at h
  | some m =>
    cases hf : format.outputFormat? with
    | none => simp [hm, hf, bind, Except.bind, Except.toOption] at h
    | some out =>
      simp only [hm, hf, bind, Except.bind, Except.toOption, Option.some.injEq] at h
      rw [← h]

theorem size_drawing? {v : View} {id : Nat} {d : Drawing} (h : v.drawing? id t w = some d) :
    d.request.size = windowChartSize := by
  obtain ⟨r, hr, rfl⟩ := Option.map_eq_some_iff.mp h
  exact size_request? hr

/-- A drawing is the call that rendering makes. -/
theorem render_calls_drawing? (v : View) (id : Nat) :
    (v.render t w).world.calls =
      w.calls ++ ((v.drawing? id t w).map fun d => TracerCall.render d.request).toList := by
  rw [render_calls, drawing?, Option.map_map]
  rfl

end View

theorem Hover.size_request? {target : Option String} {r : ChartRequest}
    (h : request? target = some r) : r.size = tooltipChartSize := by
  simp only [request?, bind, Option.bind_eq_some_iff, Option.some.injEq] at h
  obtain ⟨_, _, e, _, m, _, rfl⟩ := h
  rfl

theorem TracerCall.isTooltip_render {r : ChartRequest} (h : r.size = windowChartSize) :
    (render r).isTooltip = false := by
  simp [isTooltip, h, windowChartSize, tooltipChartSize]

namespace ChartWindow

/-- The call that a frame of a window makes for an image to save or for measurements to export. -/
def exporting? (v : ChartWindow) (input : WindowInput) : Option TracerCall :=
  match (v.typed input).action? input, input.dialog with
  | some .saveAs, some chosen =>
    (v.view.exportRequest (ExportTarget.ofPath chosen).format).toOption.map .render
  | some .exportData, some chosen =>
    v.view.metric.map fun m => .extract v.view.element.identifier m chosen
  | _, _ => none

/-- What a frame of a window calls the tracer for: its drawing, or what is saved or exported. -/
def errand? (v : ChartWindow) (input : WindowInput) (t : Tracer σ) (w : World σ) : Option Errand :=
  ((v.drawing? input t w).map .drawing).or ((v.exporting? input).map .exported)

theorem calls_frame (v : ChartWindow) (input : WindowInput) :
    (v.frame input t w).2.calls = w.calls ++ ((v.errand? input t w).map Errand.call).toList := by
  rw [frame_eq, errand?, drawing?, exporting?]
  cases ha : (v.typed input).action? input with
  | none => simp
  | some a =>
    cases a with
    | change c =>
      refine (View.change_calls v.view c).trans ?_
      by_cases hc : v.view.isSame c <;>
        simp [hc, View.drawing?, Function.comp_def, Errand.call]
    | saveAs =>
      cases hd : input.dialog with
      | none => simp [perform]
      | some chosen =>
        refine (View.exportChart_calls v.view _ _).trans ?_
        simp [Function.comp_def, Errand.call]
    | exportData =>
      cases hd : input.dialog with
      | none => simp [perform]
      | some chosen =>
        refine (View.exportData_calls v.view chosen).trans ?_
        simp [Function.comp_def, Errand.call]

theorem drawing?_of_errand? (v : ChartWindow) (input : WindowInput) :
    (v.errand? input t w).bind Errand.drawing? = v.drawing? input t w := by
  unfold errand?
  cases v.drawing? input t w with
  | some d => rfl
  | none => cases v.exporting? input <;> rfl

theorem size_drawing? {v : ChartWindow} {input : WindowInput} {d : Drawing}
    (h : v.drawing? input t w = some d) : d.request.size = windowChartSize := by
  unfold drawing? at h
  split at h
  · split at h
    · cases h
    · exact View.size_drawing? h
  · cases h

/-- No tooltip is asked for on behalf of a window. -/
theorem isTooltip_errand? {v : ChartWindow} {input : WindowInput} {e : Errand}
    (h : v.errand? input t w = some e) : e.call.isTooltip = false := by
  rcases Option.or_eq_some_iff.mp h with h | ⟨-, h⟩
  · obtain ⟨d, hd, rfl⟩ := Option.map_eq_some_iff.mp h
    exact TracerCall.isTooltip_render (size_drawing? hd)
  · obtain ⟨call, hc, rfl⟩ := Option.map_eq_some_iff.mp h
    unfold exporting? at hc
    split at hc
    · obtain ⟨r, hr, rfl⟩ := Option.map_eq_some_iff.mp hc
      exact TracerCall.isTooltip_render (View.size_exportRequest hr)
    · obtain ⟨m, -, rfl⟩ := Option.map_eq_some_iff.mp hc
      rfl
    · cases hc

end ChartWindow

namespace Model

/-- The small chart that a frame asks for, if the pointer has come to another element. -/
def pointed? (m : Model) (input : ModelInput) : Option ChartRequest :=
  let m := { m with search := input.search.getD m.search }
  let target := ((m.row? input.hoveredRow).map Entry.raw).map trimBlank
  if m.entries = [] ∨ target = m.hover.target then none else Hover.request? target

/-- What a frame calls the tracer for on behalf of some windows, in order. -/
def windowErrands (input : Nat → WindowInput) (t : Tracer σ) :
    List ChartWindow → World σ → List Errand
  | [], _ => []
  | v :: rest, w =>
    (v.errand? (input v.id) t w).toList ++
      windowErrands input t rest (v.frame (input v.id) t w).2

/-- All that a frame calls the tracer for, in order. -/
def errands (m : Model) (input : ModelInput) (t : Tracer σ) (w : World σ) : List Errand :=
  let shown := m.frameElements input t w
  ((m.pointed? input).map .tooltip).toList ++ ((m.opening? input t w).map .drawing).toList ++
    windowErrands input.window t shown.1.windows shown.2

theorem calls_frameWindows (input : Nat → WindowInput) (vs : List ChartWindow) (w : World σ) :
    (frameWindows input t vs w).2.calls =
      w.calls ++ (windowErrands input t vs w).map Errand.call := by
  induction vs generalizing w with
  | nil => simp [frameWindows, windowErrands]
  | cons v rest ih =>
    rw [frameWindows, ih, v.calls_frame, windowErrands, List.map_append, Option.toList_map,
      List.append_assoc]

/-- The look at the pointer calls the tracer for the chart that is asked for. -/
theorem calls_look {m : Model} (hn : m.entries ≠ []) (input : ModelInput) (w : World σ) :
    let s : Model := { m with search := input.search.getD m.search }
    (s.look ((s.row? input.hoveredRow).map Entry.raw) t w).2.calls =
      w.calls ++ ((m.pointed? input).map TracerCall.render).toList := by
  intro s
  have he : m.pointed? input = if ((s.row? input.hoveredRow).map Entry.raw).map trimBlank =
      s.hover.target then none
    else Hover.request? (((s.row? input.hoveredRow).map Entry.raw).map trimBlank) := by
    simp [pointed?, s, hn]
  rw [he, apply_ite (Option.map TracerCall.render)]
  exact Hover.look_calls s.hover _

theorem calls_openWindow (m : Model) (entry : Entry) (id : Nat) (w : World σ) :
    (m.openWindow entry t w).2.calls = w.calls ++
      (((View.start entry.element).drawing? id t w).map fun d =>
        TracerCall.render d.request).toList :=
  View.render_calls_drawing? (View.start entry.element) id

theorem calls_frameElements (m : Model) (input : ModelInput) (w : World σ) :
    (m.frameElements input t w).2.calls = w.calls ++
      (((m.pointed? input).map Errand.tooltip).toList ++
        ((m.opening? input t w).map Errand.drawing).toList).map Errand.call := by
  by_cases hn : m.entries = []
  · simp [frameElements, pointed?, opening?, hn]
  · have hl := calls_look (t := t) hn input w
    simp only [frameElements, opening?, if_neg hn, List.map_append, ← Option.toList_map,
      Option.map_map]
    split
    · rename_i entry hr
      rw [calls_openWindow _ entry m.nextWindowId, hl, hr, List.append_assoc]
      rfl
    · rename_i hr
      rw [hl, hr]
      simp [Function.comp_def, Errand.call]

/-- All calls that a frame makes are accounted for. -/
theorem calls_frame (m : Model) (input : ModelInput) (w : World σ) :
    (m.frame input t w).2.calls = w.calls ++ (m.errands input t w).map Errand.call := by
  rw [frame, calls_frameWindows, calls_frameElements, errands, List.append_assoc, ← List.map_append]

theorem drawings_windowErrands (input : Nat → WindowInput) (vs : List ChartWindow) (w : World σ) :
    (windowErrands input t vs w).filterMap Errand.drawing? = windowDrawings input t vs w := by
  induction vs generalizing w with
  | nil => rfl
  | cons v rest ih =>
    rw [windowErrands, windowDrawings, List.filterMap_append, ih, ← v.drawing?_of_errand?]
    cases v.errand? (input v.id) t w with
    | none => rfl
    | some e => cases e <;> rfl

/-- The drawings logged for windows are calls that the frame makes, and it makes no other for them
but what is saved or exported. -/
theorem drawings_errands (m : Model) (input : ModelInput) (w : World σ) :
    (m.errands input t w).filterMap Errand.drawing? = m.drawings input t w := by
  rw [errands, drawings, List.filterMap_append, drawings_windowErrands, List.filterMap_append]
  cases m.pointed? input <;> cases m.opening? input t w <;> rfl

theorem isTooltip_windowErrands {input : Nat → WindowInput} {vs : List ChartWindow} {w : World σ}
    {e : Errand} (h : e ∈ windowErrands input t vs w) : e.call.isTooltip = false := by
  induction vs generalizing w with
  | nil => cases h
  | cons v rest ih =>
    rcases List.mem_append.mp h with h | h
    · exact ChartWindow.isTooltip_errand? (Option.mem_toList.mp h)
    · exact ih h

theorem isTooltip_opening? {m : Model} {input : ModelInput} {d : Drawing}
    (h : m.opening? input t w = some d) : (Errand.drawing d).call.isTooltip = false := by
  simp only [opening?] at h
  split at h
  · cases h
  · obtain ⟨entry, -, hd⟩ := Option.bind_eq_some_iff.mp h
    exact TracerCall.isTooltip_render (View.size_drawing? hd)

theorem isTooltip_pointed? {m : Model} {input : ModelInput} {r : ChartRequest}
    (h : m.pointed? input = some r) : (Errand.tooltip r).call.isTooltip = true := by
  simp only [pointed?] at h
  split at h
  · cases h
  · simp [Errand.call, TracerCall.isTooltip, Hover.size_request? h]

/-- Of the calls that a frame makes, only the chart asked for at the pointer is one for a tooltip. -/
theorem tooltips_errands (m : Model) (input : ModelInput) (w : World σ) :
    ((m.errands input t w).map Errand.call).filter TracerCall.isTooltip =
      ((m.pointed? input).map TracerCall.render).toList := by
  have hnone : ∀ call ∈ (((m.opening? input t w).map Errand.drawing).toList ++
      windowErrands input.window t (m.frameElements input t w).1.windows
        (m.frameElements input t w).2).map Errand.call, ¬ call.isTooltip = true := by
    intro call hc
    obtain ⟨e, he, rfl⟩ := List.mem_map.mp hc
    rw [Bool.not_eq_true]
    rcases List.mem_append.mp he with he | he
    · obtain ⟨d, hd, rfl⟩ := Option.map_eq_some_iff.mp (Option.mem_toList.mp he)
      exact isTooltip_opening? hd
    · exact isTooltip_windowErrands he
  rw [errands, List.append_assoc, List.map_append, List.filter_append,
    List.filter_eq_nil_iff.mpr hnone, List.append_nil]
  cases hp : m.pointed? input with
  | none => rfl
  | some r => simpa [Errand.call] using isTooltip_pointed? hp

end Model

end TraceViewer
