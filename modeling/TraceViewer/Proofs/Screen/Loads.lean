import TraceViewer.Proofs.Screen.Windows

namespace TraceViewer

/-- The phase, but for the windows that are closed in a frame. -/
def Phase.closing (input : ModelInput) : Phase → Phase
  | .ready m => .ready { m with windows := Model.leftOpen input m.windows }
  | phase => phase

namespace App

variable {σ : Type} {t : Tracer σ} {world : World σ} {a : App} {input : AppInput}

/-- The viewer after a click on the button for a reload, if there was one in a frame. -/
def clicked (a : App) (input : AppInput) : App :=
  if input.reloadClicked then a.requestReload else a

/-- All that can come of a frame: a load is awaited, taken up or given up, or asked for anew. -/
inductive Comes (t : Tracer σ) (world : World σ) (a : App) (input : AppInput) :
    App × World σ → Prop where
  | waits {load : Nat} (hp : a.phase = .loading load)
      (hx : input.arrival load = none ∨ input.arrival load = some .lost) :
      Comes t world a input (a, world)
  | opens {load : Nat} {entries : List Entry} (hp : a.phase = .loading load)
      (hx : input.arrival load = some (.loaded entries)) :
      Comes t world a input (a.enter (.ready { entries := entries }), world)
  | breaks {load : Nat} {message : String} (hp : a.phase = .loading load)
      (hx : input.arrival load = some (.failed message)) :
      Comes t world a input (a.enter (.failed message), world)
  | stays {message : String} (hp : a.phase = .failed message) (hc : input.retryClicked = false) :
      Comes t world a input (a, world)
  | retries {message : String} (hp : a.phase = .failed message) (hc : input.retryClicked = true) :
      Comes t world a input (a.retry, world)
  | shows {m : Model} (hp : a.phase = .ready m)
      (hx : ∀ load, (a.clicked input).reload = some load → input.arrival load = none) :
      Comes t world a input
        ({ a.clicked input with phase := .ready (m.frame input.model t world).1 },
          (m.frame input.model t world).2)
  | reloads {m : Model} {load : Nat} {entries : List Entry} (hp : a.phase = .ready m)
      (hr : (a.clicked input).reload = some load)
      (hx : input.arrival load = some (.loaded entries)) :
      Comes t world a input
        ((a.clicked input).enter (.ready ((m.frame input.model t world).1.replaceEntries entries)),
          (m.frame input.model t world).2)
  | drops {m : Model} {load : Nat} {message : String} (hp : a.phase = .ready m)
      (hr : (a.clicked input).reload = some load)
      (hx : input.arrival load = some (.failed message) ∨
        input.arrival load = some .lost ∧ message = workerLostText) :
      Comes t world a input
        ((a.clicked input).enter (.failed message), (m.frame input.model t world).2)

theorem frame_ready {m : Model} (hp : a.phase = .ready m) (input : AppInput) (t : Tracer σ)
    (world : World σ) :
    a.frame input t world =
      ((a.clicked input).receive (m.frame input.model t world).1 input.arrival,
        (m.frame input.model t world).2) := by
  simp only [frame, hp]
  rfl

theorem frame_comes (t : Tracer σ) (world : World σ) (a : App) (input : AppInput) :
    Comes t world a input (a.frame input t world) := by
  cases hp : a.phase with
  | loading load =>
    simp only [frame, hp]
    split
    · rename_i hx
      exact .opens hp hx
    · rename_i hx
      exact .breaks hp hx
    · rename_i hx
      exact .waits hp (.inr hx)
    · rename_i hx
      exact .waits hp (.inl hx)
  | failed message =>
    simp only [frame, hp]
    split
    · rename_i hc
      exact .retries hp hc
    · rename_i hc
      exact .stays hp (Bool.eq_false_iff.mpr hc)
  | ready m =>
    rw [frame_ready hp, receive]
    split
    · rename_i hr
      refine .shows hp fun load hl => ?_
      rw [hr] at hl
      cases hl
    · rename_i load hr
      split
      · rename_i hx
        exact .reloads hp hr hx
      · rename_i hx
        exact .drops hp hr (.inl hx)
      · rename_i hx
        exact .drops hp hr (.inr ⟨hx, rfl⟩)
      · rename_i hx
        refine .shows hp fun load' hl => ?_
        rw [hr] at hl
        exact Option.some.inj hl ▸ hx

/-- The viewer after one frame. -/
def next (t : Tracer σ) (a : App) (f : Moment σ) : App :=
  (a.frame f.input t f.world).1

/-- The viewer after some frames from its start. -/
def after (t : Tracer σ) (past : List (Moment σ)) : App :=
  past.foldl (next t) start

/-- The loads whose answer would be taken up, be it for a first look at the graph or a new one. -/
def pending (a : App) : List Nat :=
  (match a.phase with
    | .loading load => [load]
    | .ready _ | .failed _ => []) ++ a.reload.toList

/-- What holds of the loads and the windows at any time. -/
structure Orderly (a : App) : Prop where
  single : a.pending.length ≤ 1
  newest : ∀ load ∈ a.pending, load + 1 = a.started
  shown : a.reload ≠ none → ∃ m, a.phase = .ready m
  numbered : ∀ m, a.phase = .ready m → m.Numbered

/-- A phase that is entered drops the reload that was awaited. -/
theorem orderly_enter (a : App) (phase : Phase) (hl : ∀ load, phase ≠ .loading load)
    (hn : ∀ m, phase = .ready m → m.Numbered) : (a.enter phase).Orderly := by
  have hp : (a.enter phase).pending = [] := by
    cases phase with
    | loading load => exact absurd rfl (hl load)
    | ready m => rfl
    | failed message => rfl
  refine ⟨?_, ?_, fun h => absurd rfl h, hn⟩
  · rw [hp]
    exact Nat.zero_le 1
  · rw [hp]
    exact fun load h => by cases h

theorem orderly_retry (a : App) : a.retry.Orderly := by
  refine ⟨Nat.le_refl _, ?_, fun h => absurd rfl h, nofun⟩
  intro load hl
  rw [List.mem_singleton.mp hl]
  rfl

/-- The start is like a retry before any load. -/
theorem orderly_start : start.Orderly :=
  orderly_retry { phase := .loading 0, started := 0 }

/-- A click for a reload starts one, unless one is awaited. -/
theorem clicked_comes (a : App) (input : AppInput) :
    a.clicked input = a ∨
      a.reload = none ∧
        a.clicked input = { a with reload := some a.started, started := a.started + 1 } := by
  unfold clicked requestReload
  split
  · split
    · exact .inl rfl
    · rename_i hr
      exact .inr ⟨hr, rfl⟩
  · exact .inl rfl

theorem Orderly.shows (h : a.Orderly) {m : Model} (hm : m.Numbered) :
    ({ a.clicked input with phase := .ready m } : App).Orderly := by
  have hn : ∀ load ∈ (a.clicked input).reload.toList, load + 1 = (a.clicked input).started := by
    intro load hl
    obtain hc | ⟨-, hc⟩ := clicked_comes a input
    · rw [hc] at hl ⊢
      exact h.newest load (List.mem_append_right _ hl)
    · rw [hc] at hl ⊢
      exact congrArg (· + 1) (List.mem_singleton.mp hl)
  refine ⟨?_, hn, fun _ => ⟨m, rfl⟩, ?_⟩
  · exact Option.length_toList_le
  · intro m' he
    cases he
    exact hm

theorem Orderly.comes (h : a.Orderly) {r : App × World σ} (hc : Comes t world a input r) :
    r.1.Orderly := by
  cases hc with
  | waits | stays => exact h
  | opens =>
    refine orderly_enter a (.ready _) nofun ?_
    intro m hm
    cases hm
    exact Model.numbered_fresh _
  | breaks => exact orderly_enter a (.failed _) nofun nofun
  | retries => exact orderly_retry a
  | shows hp => exact h.shows ((h.numbered _ hp).frame input.model t world)
  | reloads hp =>
    refine orderly_enter _ (.ready _) nofun ?_
    intro m hm
    cases hm
    have hn := (h.numbered _ hp).frame input.model t world
    exact ⟨hn.rising, hn.below⟩
  | drops => exact orderly_enter _ (.failed _) nofun nofun

theorem orderly_after (t : Tracer σ) (past : List (Moment σ)) : (after t past).Orderly := by
  apply List.foldlRecOn past (next t) orderly_start
  intro a h f _
  exact h.comes (frame_comes t f.world a f.input)

theorem receive_closing (a : App) (m : Model) (arrival : Nat → Option Arrival)
    (input : ModelInput) :
    a.receive { m with windows := Model.leftOpen input m.windows } arrival =
      { a.receive m arrival with phase := (a.receive m arrival).phase.closing input } := by
  unfold receive
  split
  · rfl
  · split <;> rfl

theorem frame_closing (a : App) (input : AppInput) (t : Tracer σ) (world : World σ) :
    let kept := a.frame { input with model := input.model.keepOpen } t world
    a.frame input t world =
      ({ kept.1 with phase := kept.1.phase.closing input.model }, kept.2) := by
  intro kept
  obtain ⟨phase, reload, started⟩ := a
  cases phase with
  | loading load =>
    simp only [kept, frame]
    split <;> rfl
  | failed message =>
    simp only [kept, frame]
    split <;> rfl
  | ready m =>
    have hp : ({ phase := .ready m, reload := reload, started := started } : App).phase = .ready m :=
      rfl
    simp only [kept, frame_ready hp]
    rw [m.frame_keepOpen, receive_closing]
    rfl

theorem pending_ready {m : Model} (hp : a.phase = .ready m) : a.pending = a.reload.toList := by
  simp only [pending, hp, List.nil_append]

theorem Orderly.pending_failed (h : a.Orderly) {message : String}
    (hp : a.phase = .failed message) : a.pending = [] := by
  have hr : a.reload = none := by
    by_contra hr
    obtain ⟨m, hm⟩ := h.shown hr
    cases hp.symm.trans hm
  simp only [pending, hp, hr, Option.toList_none, List.nil_append]

theorem clicked_of_pending {m : Model} (hp : a.phase = .ready m) (hn : a.pending ≠ [])
    (input : AppInput) : a.clicked input = a := by
  obtain hc | ⟨hr, -⟩ := clicked_comes a input
  · exact hc
  · rw [pending_ready hp, hr] at hn
    exact absurd rfl hn

theorem clicked_started {m : Model} (hp : a.phase = .ready m) (input : AppInput) :
    (a.clicked input).started = a.started ∨
      a.pending = [] ∧ (a.clicked input).started = a.started + 1 := by
  obtain hc | ⟨hr, hc⟩ := clicked_comes a input
  · exact .inl (congrArg App.started hc)
  · refine .inr ⟨?_, congrArg App.started hc⟩
    rw [pending_ready hp, hr]
    rfl

theorem Orderly.started (h : a.Orderly) {r : App × World σ} (hc : Comes t world a input r) :
    r.1.started = a.started ∨ a.pending = [] ∧ r.1.started = a.started + 1 := by
  cases hc with
  | waits | stays | opens | breaks => exact .inl rfl
  | retries hp => exact .inr ⟨h.pending_failed hp, rfl⟩
  | shows hp | reloads hp | drops hp => exact clicked_started hp input

theorem Orderly.pressed (h : a.Orderly) (hn : a.pending ≠ []) (input : AppInput) (t : Tracer σ)
    (world : World σ) :
    a.frame input t world = a.frame { input with reloadClicked := false } t world := by
  cases hp : a.phase with
  | loading load => simp only [frame, hp]
  | failed message => exact absurd (h.pending_failed hp) hn
  | ready m =>
    rw [frame_ready hp, clicked_of_pending hp hn, frame_ready hp, clicked_of_pending hp hn]

theorem clicked_reload {load : Nat} (h : (a.clicked input).reload = some load) :
    a.reload.getD a.started = load := by
  obtain hc | ⟨hr, hc⟩ := clicked_comes a input
  · rw [hc] at h
    rw [h]
    rfl
  · rw [hc] at h
    rw [hr]
    exact Option.some.inj h

theorem receive_nothing (a : App) (m : Model) :
    a.receive m (fun _ => none) = { a with phase := .ready m } := by
  unfold receive
  split <;> rfl

theorem receive_congr (a : App) (m : Model) {arrival arrival' : Nat → Option Arrival}
    (h : ∀ load, a.reload = some load → arrival load = arrival' load) :
    a.receive m arrival = a.receive m arrival' := by
  unfold receive
  split
  · rfl
  · rename_i load hr
    rw [h load hr]

/-- Nothing but the answer of the load awaited matters, or of the one that the frame starts. -/
theorem frame_heard (a : App) (input : AppInput) (arrival : Nat → Option Arrival) (t : Tracer σ)
    (world : World σ)
    (h : arrival (a.awaited?.getD a.started) = input.arrival (a.awaited?.getD a.started)) :
    a.frame { input with arrival := arrival } t world = a.frame input t world := by
  cases hp : a.phase with
  | loading load =>
    simp only [awaited?, hp, Option.getD_some] at h
    simp only [frame, hp, h]
  | failed message => simp only [frame, hp]
  | ready m =>
    simp only [awaited?, hp] at h
    rw [frame_ready hp, frame_ready hp]
    refine congrArg (·, _) (receive_congr _ _ ?_)
    intro load hl
    rw [← clicked_reload hl]
    exact h

theorem Comes.dropped {r : App × World σ} {load : Nat} (hc : Comes t world a input r)
    (ho : a.Orderly) (hr : r.1.reload = some load) :
    (∃ m, a.phase = .ready m) ∧ (a.clicked input).reload = some load ∧
      input.arrival load = none := by
  cases hc with
  | waits hp | stays hp =>
    obtain ⟨m, hm⟩ := ho.shown (Option.ne_none_iff_exists'.mpr ⟨load, hr⟩)
    cases hp.symm.trans hm
  | shows hp hx => exact ⟨⟨_, hp⟩, hr, hx load hr⟩
  | opens | breaks | retries | reloads | drops => cases hr

/-- An answer that is taken up changes the entries and what the pointer rested on, and no more. -/
theorem frame_reloaded {m : Model} {load : Nat} {entries : List Entry} (hp : a.phase = .ready m)
    (hr : (a.clicked input).reload = some load)
    (hx : input.arrival load = some (.loaded entries)) :
    let quiet := a.frame { input with arrival := fun _ => none } t world
    quiet.1.phase = .ready (m.frame input.model t world).1 ∧
      a.frame input t world =
        ({ phase := .ready ((m.frame input.model t world).1.replaceEntries entries)
           reload := none
           started := quiet.1.started }, quiet.2) := by
  intro quiet
  have hq : quiet =
      ({ a.clicked input with phase := .ready (m.frame input.model t world).1 },
        (m.frame input.model t world).2) := by
    simp only [quiet, frame_ready hp, receive_nothing]
    rfl
  refine ⟨congrArg (·.1.phase) hq, ?_⟩
  rw [hq, frame_ready hp, receive, hr]
  simp only [hx]
  rfl

/-- A graph shown after another one has the windows that the frame has left. -/
theorem windows_frame {m m' : Model} (hp : a.phase = .ready m)
    (hm : (a.frame input t world).1.phase = .ready m') :
    m'.windows = (m.frame input.model t world).1.windows := by
  rw [frame_ready hp] at hm
  exact (Watched.windows_receive hm).1

/-- The loads of a viewer and the windows that it shows, through whatever comes next. -/
structure InOrder (a : App) (t : Tracer σ) : Prop extends a.Orderly where
  /-- An answer is taken up in the frame in which it has arrived. -/
  comes : ∀ f : Moment σ, Comes t f.world a f.input (a.frame f.input t f.world)
  /-- A load is started only if none is awaited. -/
  started : ∀ f, (a.next t f).started = a.started ∨
    a.pending = [] ∧ (a.next t f).started = a.started + 1
  /-- A click for a reload does nothing while a load is awaited. -/
  pressed : a.pending ≠ [] → ∀ f : Moment σ,
    a.frame f.input t f.world = a.frame { f.input with reloadClicked := false } t f.world
  /-- Nothing but the answer of the load awaited matters, or of the one that a frame starts. -/
  heard : ∀ (f : Moment σ) (arrival : Nat → Option Arrival),
    arrival (a.awaited?.getD a.started) = f.input.arrival (a.awaited?.getD a.started) →
      a.frame { f.input with arrival := arrival } t f.world = a.frame f.input t f.world
  /-- A reload is awaited further only while a graph is shown and nothing has arrived. -/
  dropped : ∀ f load, (a.next t f).reload = some load →
    (∃ m, a.phase = .ready m) ∧ (a.clicked f.input).reload = some load ∧
      f.input.arrival load = none
  /-- New entries come into the model that the frame would show otherwise. -/
  reloaded : ∀ (f : Moment σ) (m : Model) (load : Nat) (entries : List Entry),
    a.phase = .ready m → (a.clicked f.input).reload = some load →
    f.input.arrival load = some (.loaded entries) →
    ∃ shown : Model,
      let quiet := a.frame { f.input with arrival := fun _ => none } t f.world
      quiet.1.phase = .ready shown ∧
        a.frame f.input t f.world =
          ({ phase := .ready { shown with entries := entries, hover := {}, hoverError := none }
             reload := none
             started := quiet.1.started }, quiet.2)
  /-- Closed windows are missing from the model that the frame would show otherwise. -/
  closed : ∀ f : Moment σ,
    let kept := a.frame { f.input with model := f.input.model.keepOpen } t f.world
    a.frame f.input t f.world =
      ({ kept.1 with phase := kept.1.phase.closing f.input.model }, kept.2)
  /-- If none is closed, the windows stay in their order, and a new one comes last. -/
  opened : ∀ (f : Moment σ) (m m' : Model), a.phase = .ready m →
    (a.next t { f with input.model := f.input.model.keepOpen }).phase = .ready m' →
    m.windows.map ChartWindow.id <+: m'.windows.map ChartWindow.id
  /-- A window in which nothing happens stays as it is. -/
  idle : ∀ (f : Moment σ) (m m' : Model), a.phase = .ready m → (a.next t f).phase = .ready m' →
    ∀ w ∈ m.windows, (f.input.model.window w.id).Idle →
      (f.input.model.window w.id).close = false → w ∈ m'.windows

/-- After any frames, at most one load is awaited, and only its answer matters; windows are kept in
the order of their numbers, through a reload and the closing of others. -/
theorem loads_and_windows_in_order (t : Tracer σ) (past : List (Moment σ)) :
    (after t past).InOrder t := by
  have ho : (after t past).Orderly := orderly_after t past
  have hc (f : Moment σ) := frame_comes t f.world (after t past) f.input
  constructor
  case toOrderly => exact ho
  case comes => exact hc
  case started => exact fun f => ho.started (hc f)
  case pressed => exact fun hn f => ho.pressed hn f.input t f.world
  case heard => exact fun f arrival h => frame_heard _ f.input arrival t f.world h
  case dropped => exact fun f load hr => (hc f).dropped ho hr
  case reloaded =>
    intro f m load entries hp hr hx
    exact ⟨_, frame_reloaded hp hr hx⟩
  case closed => exact fun f => frame_closing _ f.input t f.world
  case opened =>
    intro f m m' hp hm
    rw [windows_frame hp hm]
    exact Model.ids_frame_keepOpen m f.input.model t f.world
  case idle =>
    intro f m m' hp hm w hw hi hx
    rw [windows_frame hp hm]
    exact Model.mem_frame_of_idle hw hi hx

-- A window outlives a reload that is answered later, though its entry is gone.
example :
    let t := Script.tracer (.ofString "out")
    let world : World Script := { files := .empty [], memory := { replies := [] } }
    let e : Element := ⟨"node=/a", .node, some .service⟩
    let entry : Entry := ⟨"r2ta-node://node=/a", "node=/a", "/a", e⟩
    let past : List (Moment Script) :=
      [⟨{ arrival := fun _ => some (.loaded [entry]) }, world⟩,
        ⟨{ model := { clickedRow := some 0 } }, world⟩,
        ⟨{ reloadClicked := true }, world⟩,
        ⟨{ arrival := fun load => if load = 1 then some (.loaded []) else none }, world⟩]
    let w : ChartWindow := ⟨0, "node=/a", .start e, 0, some awaitingMetricText⟩
    (after t past).phase = .ready { entries := [], windows := [w], nextWindowId := 1 } :=
  rfl

end App

end TraceViewer
