import TraceViewer.Proofs.Interaction.Renders
import TraceViewer.Proofs.Screen.Drawings
import TraceViewer.Tracer.Script

namespace TraceViewer

theorem append_ne_left {a : String} (h : a ≠ "") (b : String) : a ++ b ≠ "" :=
  fun he => h (String.append_eq_empty_iff.mp he).1

theorem append_ne_right (a : String) {b : String} (h : b ≠ "") : a ++ b ≠ "" :=
  fun he => h (String.append_eq_empty_iff.mp he).2

/-- Every error has something to tell. -/
theorem ViewerError.message_ne (e : ViewerError) : e.message ≠ "" := by
  cases e with
  | launchFailure => exact append_ne_left (append_ne_right _ (by decide)) _
  | resourceUnavailable => exact append_ne_left (append_ne_right _ (by decide)) _
  | emptyArtifact => exact append_ne_left (by decide) _
  | unresolvedDefaultMetric => exact append_ne_right _ (by decide)
  | unsupportedExportFormat => exact append_ne_right _ (by decide)
  | artifactCopy => exact append_ne_left (append_ne_right _ (by decide)) _

/-- The metric of a view is the one that its element starts with, or one offered for choice. -/
def View.Offered (v : View) : Prop :=
  v.metric = v.element.defaultMetric ∨ ∃ m ∈ v.element.selectableMetrics, v.metric = some m

variable {σ : Type} {t : Tracer σ} {world : World σ}

namespace ChartWindow

/-- What holds of an open window after the drawings made for windows so far. Without a message it
shows what the tracer printed last for it, when asked for the chart of its present settings. -/
structure Honest (log : List Drawing) (w : ChartWindow) : Prop where
  current : w.status.getD "" = "" → ∃ d text, Drawing.last? log w.id = some d ∧
    d.answer = .ok text ∧ text ≠ "" ∧ w.view.artifact = some (.ofString text) ∧
    w.view.request? = some d.request
  awaiting : w.view.metric = none → w.view.artifact = none ∧ w.status = some awaitingMetricText
  metric : w.view.Offered

/-- What the toolbar lets a window be asked to do. -/
def Allows (w : ChartWindow) : WindowAction → Prop
  | .change (.metric m) => m ∈ w.view.element.selectableMetrics
  | .change _ => True
  | .saveAs | .exportData => w.view.metric ≠ none

variable {log more : List Drawing} {w : ChartWindow}

theorem allows_of_clicked {input : WindowInput} {buttons : List Button} {a : WindowAction}
    (h : a ∈ w.clickedActions input buttons)
    (hb : ∀ m, .metric m ∈ buttons → m ∈ w.view.element.selectableMetrics) : w.Allows a := by
  obtain ⟨b, hm, rfl⟩ := List.mem_map.mp h
  obtain ⟨hm, he⟩ := List.mem_filter.mp hm
  have he : w.isEnabled b = true := (Bool.and_eq_true_iff.mp he).2
  cases b with
  | chartKind k => trivial
  | metric m => exact hb m hm
  | saveAs => exact Option.isSome_iff_ne_none.mp he
  | exportData => exact Option.isSome_iff_ne_none.mp he

theorem allows_of_action? {input : WindowInput} {a : WindowAction}
    (h : w.action? input = some a) : w.Allows a := by
  rcases List.mem_append.mp (List.mem_of_getLast? h) with h | h
  · rcases List.mem_append.mp h with h | h
    · exact allows_of_clicked h (by simp [buttonsBefore])
    · obtain ⟨n, -, rfl⟩ := Option.map_eq_some_iff.mp (Option.mem_toList.mp h)
      trivial
  · exact allows_of_clicked h (by simp [buttonsAfter])

theorem Honest.append (h : w.Honest log) (hm : ∀ d ∈ more, d.window ≠ w.id) :
    w.Honest (log ++ more) := by
  refine ⟨?_, h.awaiting, h.metric⟩
  rw [Drawing.last?_append_of_ne hm]
  exact h.current

/-- A message hides nothing, as long as a metric is chosen. -/
theorem Honest.note (h : w.Honest log) (hm : w.view.metric ≠ none) {text : String}
    (ht : text ≠ "") : ({ w with status := some text } : ChartWindow).Honest log :=
  ⟨fun he => absurd he ht, fun hn => absurd hn hm, h.metric⟩

/-- A window into which a view is drawn is honest, whatever it showed before. -/
theorem honest_drawn {v : View} {r : View.Rendering σ} (log : List Drawing) (w : ChartWindow)
    (hr : View.Comes t world v r) (hb : v.metric = none → v.artifact = none) (ho : v.Offered) :
    ({ w with view := r.view, status := statusAfter w.status r.outcome } : ChartWindow).Honest
      (log ++ (v.drawing? w.id t world).toList) := by
  cases hr with
  | awaiting hq =>
    have hm : v.metric = none := View.request?_eq_none_iff.mp hq
    refine ⟨fun he => ?_, fun _ => ⟨hb hm, rfl⟩, ho⟩
    exact absurd he (show awaitingMetricText ≠ "" by decide)
  | @drawn q text w' hq hx ht =>
    have hm : v.metric ≠ none := View.metric_of_request? hq
    have hd : v.drawing? w.id t world = some ⟨w.id, q, .ok text⟩ := by
      rw [View.drawing?, hq, Option.map_some, hx]
    refine ⟨fun _ => ?_, fun hn => absurd hn hm, ho⟩
    rw [hd]
    exact ⟨_, text, Drawing.last?_append_self ⟨w.id, q, .ok text⟩, rfl, ht, rfl, hq⟩
  | failed hq =>
    have hm : v.metric ≠ none := View.metric_of_request? hq
    exact ⟨fun he => absurd he (ViewerError.message_ne _), fun hn => absurd hn hm, ho⟩

theorem honest_openFor (log : List Drawing) (id : Nat) (title : String) (e : Element) :
    (openFor id title e t world).1.Honest
      (log ++ ((View.start e).drawing? id t world).toList) :=
  honest_drawn log ⟨id, title, View.start e, 0, none⟩ (View.render_comes t world (View.start e))
    (fun _ => rfl) (.inl rfl)

theorem offered_set {v : View} (h : v.Offered) {c : Change}
    (hc : ∀ m, c = .metric m → m ∈ v.element.selectableMetrics) : (v.set c).Offered := by
  cases c with
  | metric m => exact .inr ⟨m, hc m rfl, rfl⟩
  | chartKind k => exact h
  | bins n => exact h

theorem Honest.change (h : w.Honest log) {c : Change} (hc : w.Allows (.change c)) :
    (w.change c t world).1.Honest
      (log ++ (if w.view.isSame c then none else (w.view.set c).drawing? w.id t world).toList) := by
  by_cases hs : w.view.set c = w.view
  · rw [if_pos ((View.isSame_iff w.view c).mpr hs)]
    simp only [ChartWindow.change, View.change_of_same hs, Option.toList_none, List.append_nil]
    exact ⟨h.current, h.awaiting, h.metric⟩
  · rw [if_neg fun hi => hs ((View.isSame_iff w.view c).mp hi)]
    simp only [ChartWindow.change, View.change_of_new hs]
    refine honest_drawn log w (View.render_comes t world (w.view.set c)) ?_ ?_
    · exact View.blank_set (fun hm => (h.awaiting hm).1) c
    · refine offered_set h.metric ?_
      rintro m rfl
      exact hc

theorem Honest.saveTo (h : w.Honest log) (hm : w.view.metric ≠ none) (chosen : Path) :
    (w.saveTo chosen t world).1.Honest log := by
  apply h.note hm
  split
  · exact append_ne_left (by decide) _
  · exact ViewerError.message_ne _

theorem Honest.exportTo (h : w.Honest log) (hm : w.view.metric ≠ none) (chosen : Path) :
    (w.exportTo chosen t world).1.Honest log := by
  apply h.note hm
  split
  · exact append_ne_left (by decide) _
  · exact ViewerError.message_ne _

theorem id_frame (w : ChartWindow) (input : WindowInput) : (w.frame input t world).1.id = w.id := by
  have hp (a : WindowAction) :
      ((w.typed input).perform input.dialog t world a).1.id = w.id := by
    cases a <;> cases input.dialog <;> rfl
  rw [frame_eq]
  split
  · exact hp _
  · rfl

theorem Honest.frame (h : w.Honest log) (input : WindowInput) (t : Tracer σ) (world : World σ) :
    (w.frame input t world).1.Honest (log ++ (w.drawing? input t world).toList) := by
  have hw : (w.typed input).Honest log := ⟨h.current, h.awaiting, h.metric⟩
  rw [frame_eq, drawing?]
  cases ha : (w.typed input).action? input with
  | none => simpa using hw
  | some a =>
    have hl := allows_of_action? ha
    cases a with
    | change c => exact hw.change hl
    | saveAs =>
      simp only [perform, Option.toList_none, List.append_nil]
      split
      · exact hw.saveTo hl _
      · exact hw
    | exportData =>
      simp only [perform, Option.toList_none, List.append_nil]
      split
      · exact hw.exportTo hl _
      · exact hw

end ChartWindow

namespace Model

/-- The windows of a model are known apart by their numbers, and all of them are honest. -/
structure Honest (log : List Drawing) (m : Model) : Prop where
  apart : (m.windows.map ChartWindow.id).Nodup
  numbered : ∀ w ∈ m.windows, w.id < m.nextWindowId
  windows : ∀ w ∈ m.windows, w.Honest log

variable {log : List Drawing}

/-- A frame keeps windows honest: what it draws for one of them does not count for the others. -/
theorem frameWindows_honest (input : Nat → WindowInput) {ws : List ChartWindow} (world : World σ)
    (ha : (ws.map ChartWindow.id).Nodup) (hw : ∀ w ∈ ws, w.Honest log) :
    ∀ w ∈ (frameWindows input t ws world).1,
      w.Honest (log ++ windowDrawings input t ws world) := by
  induction ws generalizing log world with
  | nil => intro w hm; cases hm
  | cons v rest ih =>
    rw [List.map_cons, List.nodup_cons] at ha
    obtain ⟨hv, ha⟩ := ha
    -- the log has grown by the drawing of the first window once the others get their turn
    have hfirst := (hw v List.mem_cons_self).frame (input v.id) t world
    have hrest : ∀ w ∈ rest, w.Honest (log ++ (v.drawing? (input v.id) t world).toList) := by
      intro w hm
      refine (hw w (List.mem_cons_of_mem _ hm)).append ?_
      intro d hd he
      rw [ChartWindow.window_drawing? (Option.mem_toList.mp hd)] at he
      exact hv (List.mem_map.mpr ⟨w, hm, he.symm⟩)
    have hlater := ih (v.frame (input v.id) t world).2 ha hrest
    rw [windowDrawings, ← List.append_assoc]
    intro w hm
    simp only [frameWindows] at hm
    split at hm
    · exact hlater w hm
    · rcases List.mem_cons.mp hm with rfl | hm
      · refine hfirst.append ?_
        intro d hd he
        rw [ChartWindow.id_frame] at he
        exact hv (he ▸ window_mem_drawings hd)
      · exact hlater w hm

theorem frameWindows_sublist (input : Nat → WindowInput) (t : Tracer σ) (ws : List ChartWindow)
    (world : World σ) :
    ((frameWindows input t ws world).1.map ChartWindow.id).Sublist (ws.map ChartWindow.id) := by
  induction ws generalizing world with
  | nil => exact .slnil
  | cons v rest ih =>
    have hr := ih (v.frame (input v.id) t world).2
    simp only [frameWindows, List.map_cons]
    split
    · exact hr.cons _
    · rw [List.map_cons, ChartWindow.id_frame]
      exact hr.cons_cons _

theorem Honest.openWindow {m : Model} (h : m.Honest log) (entry : Entry) :
    (m.openWindow entry t world).1.Honest
      (log ++ ((View.start entry.element).drawing? m.nextWindowId t world).toList) := by
  have hd : ∀ d ∈ ((View.start entry.element).drawing? m.nextWindowId t world).toList,
      d.window = m.nextWindowId :=
    fun d hd => View.window_drawing? (Option.mem_toList.mp hd)
  refine ⟨?_, ?_, ?_⟩
  · simp only [Model.openWindow, List.map_append, List.map_cons, List.map_nil]
    refine List.nodup_append.mpr ⟨h.apart, by simp, ?_⟩
    rintro _ hw _ hn rfl
    obtain ⟨w, hm, he⟩ := List.mem_map.mp hw
    have hl := h.numbered w hm
    rw [he, List.mem_singleton.mp hn] at hl
    exact Nat.lt_irrefl _ hl
  · intro w hw
    rcases List.mem_append.mp hw with hw | hw
    · exact Nat.lt_succ_of_lt (h.numbered w hw)
    · rw [List.mem_singleton.mp hw]
      exact Nat.lt_succ_self _
  · intro w hw
    rcases List.mem_append.mp hw with hw | hw
    · refine (h.windows w hw).append ?_
      intro d hm he
      have hl := h.numbered w hw
      rw [← he, hd d hm] at hl
      exact Nat.lt_irrefl _ hl
    · rw [List.mem_singleton.mp hw]
      exact ChartWindow.honest_openFor log _ _ _

theorem Honest.frameElements {m : Model} (h : m.Honest log) (input : ModelInput) (t : Tracer σ)
    (world : World σ) :
    (m.frameElements input t world).1.Honest (log ++ (m.opening? input t world).toList) := by
  simp only [Model.frameElements, opening?]
  split
  · simpa using ⟨h.apart, h.numbered, h.windows⟩
  · generalize hs : ({ m with search := input.search.getD m.search } : Model) = s
    have hl : (s.look ((s.row? input.hoveredRow).map Entry.raw) t world).1.Honest log := by
      subst hs
      exact ⟨h.apart, h.numbered, h.windows⟩
    have hn : s.nextWindowId = m.nextWindowId := by
      subst hs
      rfl
    cases s.row? input.clickedRow with
    | none => simpa using hl
    | some entry =>
      rw [Option.bind_some, ← hn]
      exact hl.openWindow entry

theorem Honest.frame {m : Model} (h : m.Honest log) (input : ModelInput) (t : Tracer σ)
    (world : World σ) :
    (m.frame input t world).1.Honest (log ++ m.drawings input t world) := by
  have he := h.frameElements input t world
  have hs := frameWindows_sublist input.window t (m.frameElements input t world).1.windows
    (m.frameElements input t world).2
  rw [drawings, ← List.append_assoc]
  refine ⟨he.apart.sublist hs, ?_, frameWindows_honest input.window _ he.apart he.windows⟩
  intro w hw
  obtain ⟨v, hv, hi⟩ := List.mem_map.mp (hs.subset (List.mem_map.mpr ⟨w, hw, rfl⟩))
  exact hi ▸ he.numbered v hv

end Model

namespace Watched

/-- While the viewer shows a graph, its windows are honest about what was drawn since. -/
def Honest (s : Watched) : Prop :=
  ∀ m, s.app.phase = .ready m → m.Honest s.drawings

theorem honest_fresh (entries : List Entry) :
    ({ entries := entries } : Model).Honest [] := by
  refine ⟨by simp, ?_, ?_⟩ <;> intro w hw <;> cases hw

/-- Whatever arrives of a reload, a graph shown after it has the windows from before. -/
theorem windows_receive {a : App} {m m' : Model} {arrival : Nat → Option Arrival}
    (h : (a.receive m arrival).phase = .ready m') :
    m'.windows = m.windows ∧ m'.nextWindowId = m.nextWindowId := by
  unfold App.receive at h
  split at h
  · cases h
    exact ⟨rfl, rfl⟩
  · split at h <;> cases h <;> exact ⟨rfl, rfl⟩

theorem Honest.frame {s : Watched} (h : s.Honest) (f : Moment σ) : (s.frame t f).Honest := by
  intro m' hm
  simp only [Watched.frame, App.frame] at hm ⊢
  cases hp : s.app.phase with
  | loading load =>
    simp only [hp] at hm ⊢
    split at hm
    · cases hm
      exact honest_fresh _
    · cases hm
    · cases hp.symm.trans hm
    · cases hp.symm.trans hm
  | failed message =>
    simp only [hp] at hm ⊢
    split at hm
    · cases hm
    · cases hp.symm.trans hm
  | ready m =>
    simp only [hp] at hm ⊢
    obtain ⟨hw, hn⟩ := windows_receive hm
    have hf := (h m hp).frame f.input.model t f.world
    exact ⟨hw ▸ hf.apart, hw ▸ hn ▸ hf.numbered, hw ▸ hf.windows⟩

theorem honest_after (t : Tracer σ) (past : List (Moment σ)) : (after t past).Honest := by
  have hstep (s : Watched) (h : s.Honest) : (past.foldl (frame t) s).Honest := by
    induction past generalizing s with
    | nil => exact h
    | cons f rest ih => exact ih _ (h.frame f)
  exact hstep {} fun m hm => by cases hm

/-- After any frames, an open window without a message shows the chart of its present settings, as
the tracer drew it last for this window. -/
theorem windows_show_settings (t : Tracer σ) (past : List (Moment σ)) (m : Model)
    (hm : (after t past).app.phase = .ready m) (w : ChartWindow) (hw : w ∈ m.windows) :
    w.Honest (after t past).drawings :=
  (honest_after t past m hm).windows w hw

/-- A window of a service shows nothing at first, and a scatter plot once kind and metric are chosen. -/
theorem windows_show_settings_of_service :
    let t := Script.tracer (.ofString "out")
    let world : World Script :=
      { files := .empty []
        memory := { replies := [some (.finish { printed := Utf8.encode "b.svg" })] } }
    let e : Element := ⟨"node=/a", .node, some .service⟩
    let entry : Entry := ⟨"r2ta-node://node=/a", "node=/a", "/a", e⟩
    let click (b : Button) : AppInput := { model := { window := fun _ => { clicked := [b] } } }
    let past : List (Moment Script) :=
      [⟨{ arrival := fun _ => some (.loaded [entry]) }, world⟩,
        ⟨{ model := { clickedRow := some 0 } }, world⟩,
        ⟨click (.chartKind .scatter), world⟩, ⟨click (.metric .messageDelay), world⟩]
    let v : View := ⟨e, some .messageDelay, .scatter, none, some (.ofString "b.svg")⟩
    let w : ChartWindow := ⟨0, "node=/a", v, 0, none⟩
    let m : Model := { entries := [entry], windows := [w], nextWindowId := 1 }
    (after t past).app.phase = .ready m ∧ w ∈ m.windows ∧ w.Honest (after t past).drawings := by
  dsimp only
  apply (and_iff_left_of_imp ?_).mpr
  · rfl
  · intro hm
    refine ⟨List.mem_singleton_self _, ?_⟩
    exact windows_show_settings _ _ _ hm _ (List.mem_singleton_self _)

end Watched

end TraceViewer
