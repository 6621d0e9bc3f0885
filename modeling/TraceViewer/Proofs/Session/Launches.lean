import Mathlib.Data.List.Chain
import TraceViewer.Proofs.Interaction.Renders
import TraceViewer.Proofs.Session.Images
import TraceViewer.Proofs.Tracer.Arguments
import TraceViewer.Proofs.Tracer.Starts

namespace TraceViewer

variable {σ : Type}

namespace View

variable {t : Tracer σ} {w : World σ} {v : View}

theorem render_world {r : ChartRequest} (h : v.request? = some r) :
    (v.render t w).world = w.called t (.render r) := by
  simp only [render, h]
  rw [World.artifact_called rfl]
  split <;> rename_i he <;> rw [Prod.mk.injEq] at he <;> exact he.2.symm

theorem request?_render (v : View) : (v.render t w).view.request? = v.request? := by
  have h := congrArg request? (render_keeps (t := t) (w := w) v)
  exact h

theorem request?_change (v : View) (c : Change) :
    (v.change c t w).view.request? = (v.set c).request? := by
  have h := congrArg request? (change_keeps (t := t) (w := w) v c)
  exact h

/-- A change to a setting that is not chosen yet leaves nothing to ask for only if there was nothing. -/
theorem request?_of_set {c : Change} (h : (v.set c).request? = none) : v.request? = none := by
  rw [request?_eq_none_iff] at h ⊢
  exact not_not.mp fun hm => metric_set hm c h

end View

/-- One time that the tracer is asked for the chart that a view is to show: the step that opens or
changes the view, the request, and the arguments of what the process starts for it. -/
structure Launch where
  step : Step
  request : ChartRequest
  started : List Arguments
deriving DecidableEq

namespace Session

/-- Whether a step opens a view or changes it. -/
def concerns (s : Session σ) (view : Nat) : Step → Bool
  | .openView _ => s.views.length == view
  | .change n _ => n == view
  | _ => false

/-- The chart that a view asks for with its settings, if it is open and has a metric. -/
def request? (s : Session σ) (view : Nat) : Option ChartRequest :=
  s.views[view]?.bind View.request?

variable (p : TracerProcess) (sys : System σ) (view : Nat)

/-- The launch that a step makes for a view, by the call that it adds and what it starts. -/
def launch? (s : Session (List Arguments × σ)) (step : Step) : Option Launch :=
  let s' := (s.step (p.tracer sys.listing) step).2
  match s.concerns view step, s'.world.calls.drop s.world.calls.length with
  | true, [.render r] => some ⟨step, r, s'.world.memory.1.drop s.world.memory.1.length⟩
  | _, _ => none

/-- The launches that some steps make for a view, in order. Those of other views, of exports and of
pointers are not among them. -/
def launches : Session (List Arguments × σ) → List Step → List Launch
  | _, [] => []
  | s, step :: rest =>
    (s.launch? p sys view step).toList ++
      launches (s.step (p.tracer sys.listing) step).2 rest

variable {p sys view} {s : Session (List Arguments × σ)} {step : Step}

/-- What a step means for the chart of a view. -/
inductive Turn (p : TracerProcess) (view : Nat) (s s' : Session (List Arguments × σ)) (step : Step) :
    Option Launch → Prop where
  /-- The view asks for what it asked for. -/
  | still (hs : s'.request? view = s.request? view) : Turn p view s s' step none
  /-- The view is opened. -/
  | opened {l : Launch} (hl : l.started = [] ∨ l.started = [p.arguments l.request])
      (hn : s.request? view = none) (hs : s'.request? view = some l.request) :
      Turn p view s s' step (some l)
  /-- A new setting of the view is to be drawn. -/
  | changed {l : Launch} {c : Change} {v : View}
      (hl : l.started = [] ∨ l.started = [p.arguments l.request]) (hc : l.step = .change view c)
      (hv : s.views[view]? = some v) (hn : v.set c ≠ v) (hr : (v.set c).request? = some l.request)
      (hs : s'.request? view = some l.request) : Turn p view s s' step (some l)

theorem launch?_of_unconcerned (h : s.concerns view step = false) :
    s.launch? p sys view step = none := by
  simp only [launch?, h]

theorem launch?_of_world (h : (s.step (p.tracer sys.listing) step).2.world = s.world) :
    s.launch? p sys view step = none := by
  simp only [launch?, h, List.drop_length]
  cases s.concerns view step <;> rfl

theorem launch?_of_called {r : ChartRequest} (hc : s.concerns view step = true)
    (h : (s.step (p.tracer sys.listing) step).2.world =
      s.world.called (p.tracer sys.listing) (.render r)) :
    ∃ l, s.launch? p sys view step = some l ∧ l.step = step ∧ l.request = r ∧
      (l.started = [] ∨ l.started = [p.arguments r]) := by
  obtain ⟨started, hm, hs⟩ := p.called_listing sys s.world r
  have hcalls : (s.world.called (p.tracer sys.listing) (.render r)).calls =
      s.world.calls ++ [.render r] := rfl
  refine ⟨⟨step, r, started⟩, ?_, rfl, rfl, hs⟩
  simp only [launch?, h, hc, hcalls, hm, List.drop_left]

theorem turn_openView (e : Element) :
    Turn p view s (s.step (p.tracer sys.listing) (.openView e)).2 (.openView e)
      (s.launch? p sys view (.openView e)) := by
  by_cases hl : s.views.length = view
  · subst hl
    have hn : s.request? s.views.length = none := by simp [request?]
    have hs : (s.step (p.tracer sys.listing) (.openView e)).2.request? s.views.length =
        (View.start e).request? := by
      simp [request?, Session.step, View.openFor, View.request?_render]
    cases hr : (View.start e).request? with
    | none =>
      have hw : (s.step (p.tracer sys.listing) (.openView e)).2.world = s.world := by
        simp only [Session.step, View.openFor, View.render, hr]
      rw [launch?_of_world hw]
      exact .still (by rw [hs, hr, hn])
    | some r =>
      have hc : s.concerns s.views.length (.openView e) = true := by simp [concerns]
      obtain ⟨l, hl, -, rfl, hst⟩ := launch?_of_called hc (View.render_world hr)
      rw [hl]
      exact .opened hst hn (by rw [hs, hr])
  · rw [launch?_of_unconcerned (by simpa [concerns] using hl)]
    refine .still ?_
    simp only [request?, Session.step, List.getElem?_append]
    split
    · rfl
    · rw [List.getElem?_eq_none (by simp; omega), List.getElem?_eq_none (by omega)]

theorem turn_change (n : Nat) (c : Change) :
    Turn p view s (s.step (p.tracer sys.listing) (.change n c)).2 (.change n c)
      (s.launch? p sys view (.change n c)) := by
  by_cases hn : n = view
  · subst hn
    have hc : s.concerns n (.change n c) = true := by simp [concerns]
    cases hv : s.views[n]? with
    | none =>
      have hs : (s.step (p.tracer sys.listing) (.change n c)).2 = s := by
        simp only [Session.step, withView, hv]
      rw [launch?_of_world (by rw [hs])]
      exact .still (by rw [hs])
    | some v =>
      have hw : (s.step (p.tracer sys.listing) (.change n c)).2.world =
          (v.change c (p.tracer sys.listing) s.world).world := by
        simp only [Session.step, withView, hv]
      have hs : (s.step (p.tracer sys.listing) (.change n c)).2.request? n =
          (v.set c).request? := by
        rw [request?, (step_change hv c).2, Option.bind_some, View.request?_change]
      have hq : s.request? n = v.request? := by rw [request?, hv, Option.bind_some]
      by_cases hsame : v.set c = v
      · rw [View.change_of_same hsame] at hw
        rw [launch?_of_world hw]
        exact .still (by rw [hs, hsame, hq])
      rw [View.change_of_new hsame] at hw
      cases hr : (v.set c).request? with
      | none =>
        simp only [View.render, hr] at hw
        rw [launch?_of_world hw]
        exact .still (by rw [hs, hr, hq, View.request?_of_set hr])
      | some r =>
        obtain ⟨l, hl, hstep, rfl, hst⟩ := launch?_of_called hc (hw.trans (View.render_world hr))
        rw [hl]
        exact .changed hst hstep hv hsame hr (by rw [hs, hr])
  · rw [launch?_of_unconcerned (by simpa [concerns] using hn)]
    refine .still ?_
    simp only [request?, Session.step, withView]
    split
    · rw [List.getElem?_set_ne hn]
    · rfl

/-- Each step leaves the chart of a view as it is, opens it or has it drawn anew. -/
theorem turn (p : TracerProcess) (sys : System σ) (view : Nat)
    (s : Session (List Arguments × σ)) (step : Step) :
    Turn p view s (s.step (p.tracer sys.listing) step).2 step (s.launch? p sys view step) := by
  have hkept (hc : s.concerns view step = false)
      (hv : (s.step (p.tracer sys.listing) step).2.views = s.views) :
      Turn p view s (s.step (p.tracer sys.listing) step).2 step (s.launch? p sys view step) := by
    rw [launch?_of_unconcerned hc]
    exact .still (by rw [request?, hv, request?])
  cases step with
  | openView e => exact turn_openView e
  | change n c => exact turn_change n c
  | exportChart n format destination =>
    exact hkept rfl (step_exportChart_keeps _ s n format destination).1
  | exportData n destination =>
    exact hkept rfl (step_exportData_keeps _ s n destination).1
  | hover pointer target => exact hkept rfl rfl

/-- A launch for a view follows another: one change has been drawn since. -/
def Follows (view : Nat) (l l' : Launch) : Prop :=
  ∃ c v, l'.step = .change view c ∧ View.set v c ≠ v ∧ v.request? = some l.request ∧
    (v.set c).request? = some l'.request

/-- What was asked for last is what the settings of the view ask for, so each launch differs from
the one before by the change that it draws. -/
theorem launches_isChain {last? : Option Launch}
    (h : s.request? view = last?.map Launch.request) (steps : List Step) :
    (last?.toList ++ s.launches p sys view steps).IsChain (Follows view) := by
  induction steps generalizing s last? with
  | nil => cases last? <;> simp [launches]
  | cons step rest ih =>
    have ht := turn p sys view s step
    simp only [launches]
    generalize hl : s.launch? p sys view step = l? at ht
    cases ht with
    | still hs => exact ih (hs.trans h)
    | @opened l _ hn hs =>
      obtain rfl : last? = none := by simpa [hn] using h.symm
      exact ih hs
    | @changed l c v _ hc hv hn hr hs =>
      have hrest := @ih _ (some l) hs
      cases last? with
      | none => exact hrest
      | some l₀ =>
        refine List.isChain_cons_cons.mpr ⟨⟨c, v, hc, hn, ?_, hr⟩, hrest⟩
        simpa [request?, hv] using h

theorem started_of_mem_launches {l : Launch} {steps : List Step}
    (h : l ∈ s.launches p sys view steps) :
    l.started = [] ∨ l.started = [p.arguments l.request] := by
  induction steps generalizing s with
  | nil => cases h
  | cons step rest ih =>
    have ht := turn p sys view s step
    simp only [launches, List.mem_append, Option.mem_toList] at h
    obtain h | h := h
    · rw [h] at ht
      cases ht with
      | opened hl => exact hl
      | changed hl => exact hl
    · exact ih h

/-- Only a bin count, and only while it does not matter, is changed without a change of the
arguments. -/
theorem Follows.arguments_iff {l l' : Launch} (h : Follows view l l') (p : TracerProcess) :
    ∃ c, l'.step = .change view c ∧ (p.arguments l.request = p.arguments l'.request ↔
      (∃ n, c = .bins n) ∧ l.request.chartKind = .scatter) := by
  obtain ⟨c, v, hc, hn, hr, hr'⟩ := h
  refine ⟨c, hc, ?_⟩
  obtain ⟨m, hm, hl⟩ := Option.map_eq_some_iff.mp hr
  obtain ⟨m', hm', hl'⟩ := Option.map_eq_some_iff.mp hr'
  rw [TracerProcess.arguments, TracerProcess.arguments, Job.arguments_inj, ← hl, ← hl']
  cases c with
  | metric k =>
    have hk : m ≠ k := fun he => hn (by rw [View.set, ← he, ← hm])
    obtain rfl : k = m' := Option.some.inj hm'
    simp [Job.told, View.set, hk]
  | chartKind k =>
    have hk : v.chartKind ≠ k := fun he => hn (by rw [View.set, ← he])
    simp [Job.told, View.set, hk]
  | bins n =>
    have hb : v.binCount ≠ n := fun he => hn (by rw [View.set, ← he])
    obtain rfl : m = m' := Option.some.inj (hm.symm.trans hm')
    cases hk : v.chartKind <;>
      simp [Job.told, View.set, ChartRequest.effectiveBins, hk, hb]

end Session

/-- The arguments tell a chart or an extraction apart from any other, and of a chart all but bins
that do not matter. So of the launches for a view, two in a row have the same arguments exactly if
the change between them was one of the bin count of a scatter plot. -/
theorem Job.arguments_tell :
    (∀ (r r' : ChartRequest) (dataDir dataDir' outDir outDir' : Path),
      (chart r dataDir outDir).arguments = (chart r' dataDir' outDir').arguments ↔
        dataDir = dataDir' ∧ outDir = outDir' ∧ r.elementId = r'.elementId ∧ r.metric = r'.metric ∧
        r.chartKind = r'.chartKind ∧ r.size = r'.size ∧ r.format = r'.format ∧
        r.effectiveBins = r'.effectiveBins) ∧
    (∀ (r : ChartRequest) (dataDir outDir : Path) (id : String) (m : Metric)
        (dataDir' destination : Path),
      (chart r dataDir outDir).arguments ≠ (extract id m dataDir' destination).arguments) ∧
    (∀ (id id' : String) (m m' : Metric) (dataDir dataDir' destination destination' : Path),
      (extract id m dataDir destination).arguments =
          (extract id' m' dataDir' destination').arguments ↔
        id = id' ∧ m = m' ∧ dataDir = dataDir' ∧ destination = destination') ∧
    ∀ (p : TracerProcess) (sys : System σ) (w : World (List Arguments × σ)) (steps : List Step)
        (view : Nat),
      let launches := ({ world := w } : Session _).launches p sys view steps
      (∀ l ∈ launches, l.started = [] ∨ l.started = [p.arguments l.request]) ∧
      launches.IsChain fun l l' => ∃ c, l'.step = .change view c ∧
        (p.arguments l.request = p.arguments l'.request ↔
          (∃ n, c = .bins n) ∧ l.request.chartKind = .scatter) := by
  refine ⟨?_, ?_, ?_, ?_⟩
  · intro r r' dataDir dataDir' outDir outDir'
    simp only [arguments_inj, told, chart.injEq, ChartRequest.mk.injEq]
    tauto
  · intro r dataDir outDir id m dataDir' destination
    simp [arguments_inj, told]
  · intro id id' m m' dataDir dataDir' destination destination'
    simp only [arguments_inj, told, extract.injEq]
  · intro p sys w steps view
    have hstart : ({ world := w } : Session (List Arguments × σ)).request? view =
        (none : Option Launch).map Launch.request := rfl
    refine ⟨fun l => Session.started_of_mem_launches, ?_⟩
    exact (Session.launches_isChain hstart steps).imp fun l l' h => h.arguments_iff p

theorem Job.arguments_tell_of_scatter :
    let p : TracerProcess := ⟨.ofString "r2ta-tracer", .ofString "data", .ofString "out"⟩
    let sys : System Unit :=
      ⟨[Utf8.encode "r2ta-tracer"], fun _ fs _ => ⟨{ printed := Utf8.encode "out/chart.svg" }, fs, ()⟩⟩
    let w : World (List Arguments × Unit) := { files := .empty [], memory := ([], ()) }
    let steps : List Step := [.openView ⟨"node=/a", .node, some .timer⟩,
      .change 0 (.chartKind .scatter), .change 0 (.bins (some 7))]
    let launches := ({ world := w } : Session _).launches p sys 0 steps
    ∃ l l' l'' : Launch, launches = [l, l', l''] ∧ l' ∈ launches ∧
      l'.started = [p.arguments l'.request] ∧ p.arguments l.request ≠ p.arguments l'.request ∧
      p.arguments l'.request = p.arguments l''.request := by
  intro p sys w steps launches
  let chart (k : ChartKind) (n : Option Nat) : ChartRequest :=
    ⟨"node=/a", .activationDelay, k, n, 800, .svg⟩
  let l : Launch := ⟨steps[0], chart .histogram none, [p.arguments (chart .histogram none)]⟩
  let l' : Launch := ⟨steps[1], chart .scatter none, [p.arguments (chart .scatter none)]⟩
  let l'' : Launch := ⟨steps[2], chart .scatter (some 7), [p.arguments (chart .scatter (some 7))]⟩
  have hl : launches = [l, l', l''] := by decide +kernel
  have hm : l' ∈ launches := by simp [hl]
  obtain ⟨-, -, -, h⟩ := @Job.arguments_tell Unit
  obtain ⟨hs, hc⟩ := h p sys w steps 0
  rw [show Session.launches p sys 0 { world := w } steps = [l, l', l''] from hl] at hc
  obtain ⟨⟨c, hstep, hfirst⟩, hc⟩ := List.isChain_cons_cons.mp hc
  obtain ⟨⟨c', hstep', hsecond⟩, -⟩ := List.isChain_cons_cons.mp hc
  refine ⟨l, l', l'', hl, hm, (hs l' hm).resolve_left (List.cons_ne_nil _ _), ?_, ?_⟩
  · rw [ne_eq, hfirst]
    rintro ⟨-, hk⟩
    cases hk
  · obtain rfl : Change.bins (some 7) = c' := (Step.change.inj hstep').2
    exact hsecond.mpr ⟨⟨_, rfl⟩, rfl⟩

end TraceViewer
