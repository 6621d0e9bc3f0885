import TraceViewer.Proofs.Screen.Attention

namespace TraceViewer

/-- What loads bring are the elements of a graph description. -/
def AppInput.Described (input : AppInput) : Prop :=
  ∀ load entries, input.arrival load = some (.loaded entries) → ∃ text, entries = Entry.scan text

/-- The loads of a run all read graph descriptions, or go away without an answer. -/
theorem AppInput.described_of_loads {input : AppInput}
    (h : ∀ load arrival, input.arrival load = some arrival → arrival = .lost ∨
      ∃ (fs : Files) (path : Path), arrival = .ofLoad (fs.loadEntries path)) : input.Described := by
  intro load entries hl
  obtain hc | ⟨fs, path, he⟩ := h load _ hl
  · cases hc
  · cases hr : fs.readText path with
    | error e => simp [Files.loadEntries, hr, Arrival.ofLoad] at he
    | ok text =>
      simp only [Files.loadEntries, hr, Arrival.ofLoad, Arrival.loaded.injEq] at he
      exact ⟨text, he⟩

/-- Nothing is typed, clicked or committed, and nothing arrives. -/
structure AppInput.Idle (input : AppInput) : Prop where
  typed : input.model.search = none ∧ ∀ id, (input.model.window id).binsInput = none
  clicked : input.model.clickedRow = none ∧ input.reloadClicked = false ∧
    ∀ id, (input.model.window id).clicked = [] ∧ (input.model.window id).close = false
  committed : ∀ id n, (input.model.window id).bins.committed n = none
  arrived : ∀ load, input.arrival load = none

/-- The elements that a frame takes up from the load awaited. -/
def App.taken? (a : App) (input : AppInput) : Option (List Entry) :=
  let a := if input.reloadClicked then a.requestReload else a
  match a.awaited?.bind input.arrival with
  | some (.loaded entries) => some entries
  | _ => none

/-- The viewer, and what its frames have seen under the pointer since the shown elements came. -/
structure Attended (σ : Type) where
  app : App := .start
  looks : List (Hover.Look σ) := []

namespace Attended

variable {σ : Type}

def frame (t : Tracer σ) (s : Attended σ) (f : Moment σ) : Attended σ :=
  { app := (s.app.frame f.input t f.world).1
    looks :=
      match s.app.phase, s.app.taken? f.input with
      | .ready m, none => s.looks ++ [⟨(m.hovered? f.input.model).map Entry.raw, f.world⟩]
      | _, _ => [] }

def after (t : Tracer σ) (past : List (Moment σ)) : Attended σ :=
  past.foldl (frame t) {}

/-- The identifier under the pointer in the frame before, if it showed the same elements. -/
def before (s : Attended σ) : Option String :=
  s.looks.getLast?.bind Hover.Look.target

end Attended

variable {σ : Type} {t : Tracer σ} {w : World σ}

theorem ChartWindow.frame_idle (v : ChartWindow) {input : WindowInput} (hc : input.clicked = [])
    (hb : input.binsInput = none) (hn : ∀ n, input.bins.committed n = none) :
    v.frame input t w = (v, w) := by
  simp [frame, action?, reported, clickedActions, hc, hb, hn]

theorem Model.frameWindows_idle {input : AppInput} (h : input.Idle) (vs : List ChartWindow) :
    frameWindows input.model.window t vs w = (vs, w) := by
  induction vs with
  | nil => rfl
  | cons v rest ih =>
    obtain ⟨hc, ho⟩ := h.clicked.2.2 v.id
    simp [frameWindows, v.frame_idle hc (h.typed.2 v.id) (h.committed v.id), ih, ho]

/-- While the pointer rests and nothing else happens, a model stays as it is. -/
theorem Model.frame_idle {m : Model} {input : AppInput} (h : input.Idle)
    (hp : m.hover.target = ((m.hovered? input.model).map Entry.raw).map trimBlank) :
    m.frame input.model t w = (m, w) := by
  have he : m.frameElements input.model t w = (m, w) := by
    have hs : ({ m with search := input.model.search.getD m.search } : Model) = m := by
      rw [h.typed.1]
      rfl
    rw [hovered?, hs] at hp
    simp only [frameElements, hs, h.clicked.1]
    split
    · rfl
    · rw [look_same hp]
      rfl
  simp only [frame, he, frameWindows_idle h]

namespace App

variable {a : App} {input : AppInput}

theorem phase_requestReload (a : App) (clicked : Bool) :
    (if clicked then a.requestReload else a).phase = a.phase := by
  unfold requestReload
  split
  · split <;> rfl
  · rfl

theorem arrival_of_taken? {entries : List Entry} (h : a.taken? input = some entries) :
    ∃ load, input.arrival load = some (.loaded entries) := by
  simp only [taken?] at h
  split at h
  · rename_i hx
    obtain rfl := Option.some.inj h
    obtain ⟨load, -, hl⟩ := Option.bind_eq_some_iff.mp hx
    exact ⟨load, hl⟩
  · cases h

/-- A frame that takes up elements shows them, and nothing has been looked at. -/
theorem frame_of_taken? {entries : List Entry} (h : a.taken? input = some entries) :
    ∃ m, (a.frame input t w).1.phase = .ready m ∧ m.entries = entries ∧ m.hover = {} ∧
      m.hoverError = none := by
  simp only [taken?, awaited?, phase_requestReload] at h
  cases hp : a.phase with
  | loading load =>
    simp only [hp, Option.bind_some] at h
    split at h
    · rename_i hx
      obtain rfl := Option.some.inj h
      simp [frame, hp, hx, enter]
    · cases h
  | failed message =>
    simp [hp] at h
  | ready m =>
    simp only [hp] at h
    split at h
    · rename_i hx
      obtain rfl := Option.some.inj h
      obtain ⟨load, hr, hl⟩ := Option.bind_eq_some_iff.mp hx
      simp [frame, hp, receive, hr, hl, enter, Model.replaceEntries]
    · cases h

/-- A frame that takes up none goes on with the model there is. -/
theorem frame_of_taken?_eq_none {m : Model} (h : a.taken? input = none)
    (hm : (a.frame input t w).1.phase = .ready m) :
    ∃ m', a.phase = .ready m' ∧ m = (m'.frame input.model t w).1 := by
  simp only [taken?, awaited?, phase_requestReload] at h
  cases hp : a.phase with
  | loading load =>
    simp only [hp, Option.bind_some, frame] at h hm
    split at hm
    · rename_i hx
      simp [hx] at h
    · cases hm
    · cases hp.symm.trans hm
    · cases hp.symm.trans hm
  | failed message =>
    simp only [hp, frame] at hm
    split at hm
    · cases hm
    · cases hp.symm.trans hm
  | ready m' =>
    refine ⟨m', rfl, ?_⟩
    simp only [hp, frame] at h hm
    unfold receive at hm
    split at hm
    · cases hm
      rfl
    · rename_i load hr
      simp only [hr, Option.bind_some] at h
      split at hm
      · rename_i hx
        simp [hx] at h
      · cases hm
      · cases hm
      · cases hm
        rfl

theorem frame_idle {m : Model} (hi : input.Idle) (hp : a.phase = .ready m)
    (hm : m.frame input.model t w = (m, w)) : a.frame input t w = (a, w) := by
  obtain ⟨phase, reload, started⟩ := a
  obtain rfl : phase = .ready m := hp
  cases reload <;> simp [frame, hm, hi.clicked.2.1, receive, hi.arrived]

end App

namespace Attended

theorem after_append (t : Tracer σ) (past : List (Moment σ)) (f : Moment σ) :
    after t (past ++ [f]) = (after t past).frame t f := by
  simp [after, List.foldl_append]

/-- While a graph is shown, its model is attentive to what the frames since have seen. -/
def Sound (t : Tracer σ) (s : Attended σ) : Prop :=
  ∀ m, s.app.phase = .ready m → m.Attentive t s.looks

theorem looks_of_taken? (s : Attended σ) (f : Moment σ) {entries : List Entry}
    (h : s.app.taken? f.input = some entries) : (s.frame t f).looks = [] := by
  simp only [frame, h]
  split
  · rename_i hn
    cases hn
  · rfl

theorem looks_of_ready (s : Attended σ) (f : Moment σ) {m : Model} (hp : s.app.phase = .ready m)
    (h : s.app.taken? f.input = none) : (s.frame t f).looks =
      s.looks ++ [⟨(m.hovered? f.input.model).map Entry.raw, f.world⟩] := by
  simp only [frame, h, hp]

theorem Sound.frame {s : Attended σ} (h : s.Sound t) (f : Moment σ) (hd : f.input.Described) :
    (s.frame t f).Sound t := by
  intro m hm
  -- elements taken up at the end of the frame are looked at from the next one on
  cases ht : s.app.taken? f.input with
  | some entries =>
    obtain ⟨m', hm', he, hh, hr⟩ := App.frame_of_taken? (t := t) (w := f.world) ht
    obtain rfl : m = m' := Phase.ready.inj (hm.symm.trans hm')
    obtain ⟨load, hl⟩ := App.arrival_of_taken? ht
    obtain ⟨text, rfl⟩ := hd load entries hl
    rw [looks_of_taken? s f ht]
    exact Model.attentive_fresh he hh hr
  | none =>
    obtain ⟨m', hp, rfl⟩ := App.frame_of_taken?_eq_none ht hm
    rw [looks_of_ready s f hp ht]
    exact (h m' hp).frame f.input.model f.world

theorem sound_after {past : List (Moment σ)} (hd : ∀ f ∈ past, f.input.Described) :
    (after t past).Sound t := by
  induction past using List.reverseRecOn with
  | nil => exact fun m hm => by cases hm
  | append_singleton past f ih =>
    rw [after_append]
    apply Sound.frame
    · exact ih fun g hg => hd g (by simp [hg])
    · exact hd f (by simp)

theorem before_eq {s : Attended σ} {m : Model} (h : m.Attentive t s.looks) :
    s.before = m.hover.target := by
  rw [h.kept.target, before]
  obtain hn | ⟨looks, l, he⟩ := s.looks.eq_nil_or_concat
  · rw [hn]
    rfl
  · have hl : l.seen = l.target := h.seen l (by simp [he])
    rw [he, List.concat_eq_append, Hover.lastSeen_append, hl]
    simp

/-- The pointer rests on the row of the frame before, and nothing else happens. -/
theorem frame_resting {past : List (Moment σ)} {last f : Moment σ} {m : Model}
    (h : (after t past).Sound t) (h' : (after t (past ++ [last])).Sound t)
    (hm : (after t (past ++ [last])).app.phase = .ready m)
    (ht : (after t past).app.taken? last.input = none)
    (hr : f.input.model.hoveredRow = last.input.model.hoveredRow) (hi : f.input.Idle) :
    m.frame f.input.model t f.world = (m, f.world) := by
  have hk := (h' m hm).kept.target
  rw [after_append] at hm hk
  obtain ⟨m', hp, rfl⟩ := App.frame_of_taken?_eq_none ht hm
  rw [looks_of_ready _ last hp ht, Hover.lastSeen_append] at hk
  apply Model.frame_idle hi
  rw [hk, Model.hovered?_frame (h m' hp).blank hi.typed.1 hr]
  rfl

/-- What holds of the tooltips of a model that the viewer shows after some frames. -/
structure Tooltips (t : Tracer σ) (past : List (Moment σ)) (m : Model) : Prop where
  /-- A frame asks for the chart due, and for no other of its kind. -/
  asked : ∀ f : Moment σ, ∃ new,
    ((after t past).app.frame f.input t f.world).2.calls = f.world.calls ++ new ∧
      new.filter TracerCall.isTooltip =
        ((m.tooltip? (after t past).before f.input.model).map TracerCall.render).toList
  resting : ∀ (earlier : List (Moment σ)) (last f : Moment σ), past = earlier ++ [last] →
    (after t earlier).app.taken? last.input = none →
    f.input.model.hoveredRow = last.input.model.hoveredRow → f.input.Idle →
    (after t past).app.frame f.input t f.world = ((after t past).app, f.world)
  /-- The error kept is that of the chart asked for when the present target was first seen. -/
  error : ∀ text, m.hoverError = some text ↔ ∃ first e,
    Hover.BlockStart (after t past).looks first ∧ first.seen = m.hover.target ∧
      first.Fails t e ∧ text = e.message
  apart : m.hoverError ≠ none → m.hover.managed = false ∧ m.hover.artifact = none
  reloaded : ∀ (f : Moment σ) (entries : List Entry),
    (after t past).app.taken? f.input = some entries →
    ∃ m', ((after t past).app.frame f.input t f.world).1.phase = .ready m' ∧
      m'.entries = entries ∧ m'.hover = {} ∧ m'.hoverError = none
  blank : m.entries = [] → m.hover = {}

/-- In every series of frames, tooltips follow the pointer. -/
theorem tooltips_follow_pointer (t : Tracer σ) (past : List (Moment σ)) (m : Model)
    (hd : ∀ f ∈ past, f.input.Described) (hm : (after t past).app.phase = .ready m) :
    Tooltips t past m := by
  have hs : (after t past).Sound t := sound_after hd
  have ha : m.Attentive t (after t past).looks := hs m hm
  constructor
  · intro f
    rw [before_eq ha]
    simp only [App.frame, hm]
    exact ha.frame_calls f.input.model f.world
  · rintro earlier last f rfl ht hr hi
    have he : (after t earlier).Sound t := sound_after fun g hg => hd g (by simp [hg])
    exact App.frame_idle hi hm (frame_resting he hs hm ht hr hi)
  · intro text
    rw [ha.error text, ha.kept.target]
    constructor
    · rintro ⟨first, e, hb, hf, rfl⟩
      exact ⟨first, e, hb, hb.seen.symm, hf, rfl⟩
    · rintro ⟨first, e, hb, -, hf, rfl⟩
      exact ⟨first, e, hb, hf, rfl⟩
  · exact ha.apart
  · exact fun f entries => App.frame_of_taken?
  · exact ha.blank

/-- A tooltip that failed is not tried again while the pointer rests. -/
theorem tooltips_follow_pointer_after_failure :
    let t := Script.tracer (.ofString "out")
    let world : World Script :=
      { files := .empty [], memory := { replies := [some (.fail "no display")] } }
    let entry : Entry := ⟨"r2ta-edge://topic=/a", "topic=/a", "/a", ⟨"topic=/a", .edge, none⟩⟩
    let load : Moment Script := ⟨{ arrival := fun _ => some (.loaded [entry]) }, world⟩
    let look : Moment Script := ⟨{ model := { hoveredRow := some 0 } }, world⟩
    let m : Model :=
      { entries := [entry]
        hover := { target := some entry.raw }
        hoverError := some (Script.failure "no display").message }
    (∀ f ∈ [load, look], f.input.Described) ∧
      (after t [load, look]).app.phase = .ready m ∧
      (after t [load, look]).app.frame look.input t world = ((after t [load, look]).app, world) := by
  dsimp only
  apply (and_iff_left_of_imp ?_).mpr
  · intro f hf
    rcases List.mem_pair.mp hf with rfl | rfl
    · rintro _ _ ⟨⟩
      exact ⟨"\"r2ta-edge://topic=/a\"", by decide +kernel⟩
    · rintro _ _ ⟨⟩
  · intro hd
    apply (and_iff_left_of_imp ?_).mpr
    · rfl
    · intro hm
      refine (tooltips_follow_pointer _ _ _ hd hm).resting [_] _ ⟨_, _⟩ rfl rfl rfl ?_
      exact ⟨⟨rfl, fun _ => rfl⟩, ⟨rfl, rfl, fun _ => ⟨rfl, rfl⟩⟩, fun _ _ => rfl, fun _ => rfl⟩

end Attended

end TraceViewer
