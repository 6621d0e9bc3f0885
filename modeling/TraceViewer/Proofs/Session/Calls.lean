import TraceViewer.Proofs.Interaction.Calls
import TraceViewer.Proofs.Session.History

namespace TraceViewer

/-- The call that a step makes of the tracer after a history of steps. -/
def Step.due? (past : List Step) : Step → Option TracerCall
  | .openView e => ((Settings.after e []).request? e .svg).map .render
  | .change view c => do
    let o ← (opened past)[view]?
    if o.settings.Holds c then none
    else ((o.changed c).settings.request? o.element .svg).map .render
  | .exportChart view format _ => do
    let o ← (opened past)[view]?
    match format with
    | .jpg => none
    | .png => (o.settings.request? o.element .png).map .render
    | .svg => (o.settings.request? o.element .svg).map .render
  | .exportData view destination => do
    let o ← (opened past)[view]?
    o.settings.metric.map fun m => .extract o.element.identifier m destination
  | .hover pointer target =>
    let target := target.map trimBlank
    if target = lastTarget past pointer then none else (Hover.request? target).map .render

/-- The calls of some steps that follow a history, in order. -/
def callsDue (past : List Step) : List Step → List TracerCall
  | [] => []
  | step :: rest => (step.due? past).toList ++ callsDue (past ++ [step]) rest

variable {σ : Type} {t : Tracer σ} {w : World σ}

namespace View

variable {v : View} {o : Opened}

/-- A new image makes no difference to what a history tells of a view. -/
theorem Agrees.redraw {v' : View} (h : v.Agrees o) (hv : { v' with artifact := v.artifact } = v) :
    v'.Agrees o :=
  ⟨(congrArg element hv).trans h.1, (congrArg settings hv).trans h.2⟩

theorem Agrees.change (h : v.Agrees o) (c : Change) :
    (v.change c t w).view.Agrees (o.changed c) := by
  apply (set_agrees h c).redraw
  rw [artifact_set]
  exact change_keeps v c

theorem Agrees.change_calls (h : v.Agrees o) (c : Change) :
    (v.change c t w).world.calls = w.calls ++
      (if o.settings.Holds c then none
        else ((o.changed c).settings.request? o.element .svg).map TracerCall.render).toList := by
  have hs := isSame_iff_holds v c
  obtain ⟨he', hs'⟩ := set_agrees h c
  rw [h.2] at hs
  rw [View.change_calls, request?_eq, he', hs']
  simp only [hs]
  rfl

/-- A chart is saved with the current settings, in the format asked for if the tracer draws it. -/
theorem exportRequest_toOption (v : View) (format : ExportFormat) :
    (v.exportRequest format).toOption =
      format.outputFormat?.bind (v.settings.request? v.element) := by
  cases hm : v.metric <;> cases format <;>
    simp [View.exportRequest, requireMetric, requireFormat, hm, ExportFormat.outputFormat?,
      settings, Settings.request?, Except.toOption, bind, Except.bind, windowChartSize]

theorem Agrees.exportRequest (h : v.Agrees o) (format : ExportFormat) :
    (v.exportRequest format).toOption =
      format.outputFormat?.bind (o.settings.request? o.element) := by
  rw [exportRequest_toOption, h.1, h.2]

end View

namespace Session

/-- A session has the views and the pointers that a history tells. -/
structure Agrees (past : List Step) (s : Session σ) : Prop where
  count : s.views.length = (opened past).length
  views : ∀ (n : Nat) (v : View) (o : Opened),
    s.views[n]? = some v → (opened past)[n]? = some o → v.Agrees o
  hovers : ∀ pointer, (s.hovers pointer).target = lastTarget past pointer

variable {past : List Step} {s : Session σ}

/-- A number names a view of the session exactly if it names one of the history. -/
theorem Agrees.find (h : s.Agrees past) (n : Nat) :
    (s.views[n]? = none ∧ (opened past)[n]? = none) ∨
      ∃ v o, s.views[n]? = some v ∧ (opened past)[n]? = some o ∧ v.Agrees o := by
  by_cases hn : n < s.views.length
  · have ho : n < (opened past).length := h.count ▸ hn
    have hv := List.getElem?_eq_getElem hn
    have hw := List.getElem?_eq_getElem ho
    exact .inr ⟨_, _, hv, hw, h.views n _ _ hv hw⟩
  · refine .inl ⟨List.getElem?_eq_none (by omega), List.getElem?_eq_none ?_⟩
    rw [← h.count]
    omega

theorem agrees_start (w : World σ) : ({ world := w } : Session σ).Agrees [] :=
  ⟨rfl, fun n v o hv => by simp at hv, fun _ => rfl⟩

/-- What only calls the tracer for a view leaves the views and the pointers alone. -/
theorem withView_keeps (s : Session σ) (n : Nat) (act : View → StepResult × World σ) :
    let s' := (s.withView n fun v => ((act v).1, { s with world := (act v).2 })).2
    s'.views = s.views ∧ s'.hovers = s.hovers := by
  simp only [withView]
  split <;> exact ⟨rfl, rfl⟩

theorem step_exportChart_keeps (t : Tracer σ) (s : Session σ) (n : Nat) (format : ExportFormat)
    (destination : Path) :
    let s' := (s.step t (.exportChart n format destination)).2
    s'.views = s.views ∧ s'.hovers = s.hovers :=
  s.withView_keeps n fun v =>
    let r := v.exportChart format destination t s.world
    (.exported r.1, r.2)

theorem step_exportData_keeps (t : Tracer σ) (s : Session σ) (n : Nat) (destination : Path) :
    let s' := (s.step t (.exportData n destination)).2
    s'.views = s.views ∧ s'.hovers = s.hovers :=
  s.withView_keeps n fun v =>
    let r := v.exportData destination t s.world
    (.exported r.1, r.2)

/-- Steps of a kind that leaves no trace in a view keep the views as they are. -/
theorem Agrees.keep {s' : Session σ} {step : Step} (h : s.Agrees past)
    (hv : s'.views = s.views) (ho : Opened.note (opened past) step = opened past)
    (hh : ∀ pointer, (s'.hovers pointer).target =
      (step.target? pointer).getD (s.hovers pointer).target) :
    s'.Agrees (past ++ [step]) := by
  refine ⟨?_, ?_, ?_⟩
  · rw [opened_append, ho, hv, h.count]
  · rw [opened_append, ho, hv]
    exact h.views
  · intro pointer
    rw [hh, lastTarget_append, h.hovers]

theorem Agrees.openView (h : s.Agrees past) (e : Element) :
    (s.step t (.openView e)).2.Agrees (past ++ [.openView e]) := by
  refine ⟨?_, ?_, ?_⟩
  · simp [step, opened_append, Opened.note, h.count]
  · intro n v o hv ho
    simp only [step, List.getElem?_append, List.getElem?_singleton] at hv
    simp only [opened_append, Opened.note, List.getElem?_append, List.getElem?_singleton,
      ← h.count] at ho
    split at hv
    · rename_i hn
      rw [if_pos hn] at ho
      exact h.views n v o hv ho
    · rename_i hn
      rw [if_neg hn] at ho
      split at hv
      · rename_i hz
        rw [if_pos hz] at ho
        obtain rfl := Option.some.inj hv
        obtain rfl := Option.some.inj ho
        exact (View.start_agrees e).redraw (View.render_keeps (View.start e))
      · simp at hv
  · intro pointer
    rw [lastTarget_append]
    exact h.hovers pointer

theorem Agrees.change (h : s.Agrees past) (view : Nat) (c : Change) :
    (s.step t (.change view c)).2.Agrees (past ++ [.change view c]) := by
  rcases h.find view with ⟨hv, ho⟩ | ⟨v, o, hv, ho, hvo⟩
  · -- a change of a view that is not open is a change of nothing
    apply h.keep
    · simp [step, withView, hv]
    · apply List.ext_getElem?
      intro n
      by_cases hn : view = n
      · subst hn
        simp [Opened.note, ho]
      · simp [Opened.note, hn]
    · intro pointer
      simp [step, withView, hv, Step.target?]
  · refine ⟨?_, ?_, ?_⟩
    · simp [step, withView, hv, opened_append, Opened.note, h.count]
    · intro n v' o' hv' ho'
      by_cases hn : view = n
      · subst hn
        have hl : view < s.views.length := (List.getElem?_eq_some_iff.mp hv).1
        simp only [step, withView, hv, List.getElem?_set_self hl, Option.some.injEq] at hv'
        simp only [opened_append, Opened.note, List.getElem?_modify_eq, ho,
          Option.map_eq_map, Option.map_some, Option.some.injEq] at ho'
        subst v' o'
        exact hvo.change c
      · simp only [step, withView, hv, List.getElem?_set_ne hn] at hv'
        simp only [opened_append, Opened.note, List.getElem?_modify_ne _ _ hn] at ho'
        exact h.views n v' o' hv' ho'
    · intro pointer
      rw [lastTarget_append]
      simp [step, withView, hv, Step.target?, h.hovers pointer]

theorem Agrees.step (h : s.Agrees past) (step : Step) :
    (s.step t step).2.Agrees (past ++ [step]) := by
  cases step with
  | openView e => exact h.openView e
  | change view c => exact h.change view c
  | exportChart view format destination =>
    obtain ⟨hv, hh⟩ := step_exportChart_keeps t s view format destination
    exact h.keep hv rfl fun pointer => congrArg (fun hs => (hs pointer).target) hh
  | exportData view destination =>
    obtain ⟨hv, hh⟩ := step_exportData_keeps t s view destination
    exact h.keep hv rfl fun pointer => congrArg (fun hs => (hs pointer).target) hh
  | hover pointer target =>
    refine h.keep ?_ rfl ?_
    · rfl
    · intro other
      by_cases ho : other = pointer
      · subst ho
        simp [Session.step, Step.target?, Hover.target_look]
      · simp [Session.step, Step.target?, ho, Ne.symm ho]

/-- One step makes the call that is due after the history, and no other. -/
theorem Agrees.step_calls (h : s.Agrees past) (step : Step) :
    (s.step t step).2.world.calls = s.world.calls ++ (step.due? past).toList := by
  cases step with
  | openView e => exact View.render_calls _
  | change view c =>
    rcases h.find view with ⟨hv, ho⟩ | ⟨v, o, hv, ho, hvo⟩
    · simp [Session.step, withView, hv, Step.due?, ho]
    · simp only [Session.step, withView, hv, Step.due?, ho]
      exact hvo.change_calls c
  | exportChart view format destination =>
    rcases h.find view with ⟨hv, ho⟩ | ⟨v, o, hv, ho, hvo⟩
    · simp [Session.step, withView, hv, Step.due?, ho]
    · simp only [Session.step, withView, hv, Step.due?, ho]
      rw [View.exportChart_calls, hvo.exportRequest]
      cases format <;> rfl
  | exportData view destination =>
    rcases h.find view with ⟨hv, ho⟩ | ⟨v, o, hv, ho, hvo⟩
    · simp [Session.step, withView, hv, Step.due?, ho]
    · have hm : v.metric = o.settings.metric := congrArg Settings.metric hvo.2
      simp only [Session.step, withView, hv, Step.due?, ho]
      rw [View.exportData_calls, hvo.1, hm]
      rfl
  | hover pointer target =>
    simp only [Session.step, Step.due?]
    rw [Hover.look_calls, h.hovers]

theorem Agrees.run (h : s.Agrees past) (steps : List Step) :
    (s.run t steps).2.Agrees (past ++ steps) := by
  induction steps generalizing s past with
  | nil => simpa [Session.run] using h
  | cons step rest ih =>
    have := ih (h.step (t := t) step)
    rwa [List.append_assoc] at this

theorem Agrees.run_calls (h : s.Agrees past) (steps : List Step) :
    (s.run t steps).2.world.calls = s.world.calls ++ callsDue past steps := by
  induction steps generalizing s past with
  | nil => simp [Session.run, callsDue]
  | cons step rest ih =>
    simp only [Session.run, callsDue]
    rw [ih (h.step step), h.step_calls, List.append_assoc]

/-- Whatever the tracer answers and whatever the files are, the calls of a session follow from its
steps: all of them in order, and the call of each step after any others. -/
theorem calls_of_steps (t : Tracer σ) (w : World σ) (steps : List Step) (next : Step) :
    let s := (Session.run t { world := w } steps).2
    s.world.calls = w.calls ++ callsDue [] steps ∧
      (s.step t next).2.world.calls = s.world.calls ++ (next.due? steps).toList := by
  have h := (agrees_start w).run (t := t) steps
  exact ⟨(agrees_start w).run_calls steps, h.step_calls next⟩

end Session

end TraceViewer
