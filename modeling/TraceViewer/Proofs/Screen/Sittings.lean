import TraceViewer.Proofs.Screen.Layout
import TraceViewer.Proofs.Screen.Runs
import TraceViewer.Screen.Sitting

namespace TraceViewer

namespace Sitting

variable {σ : Type} {t : Tracer σ}

/-- Each window shown has a place, and no window has two. -/
def Placed (s : Sitting σ) : Prop :=
  s.layout.Places s.windows

/-- A sitting goes on by frames of the viewer alone, what loads bring describes a graph, and windows
have their places. -/
def Reaches (t : Tracer σ) (s s' : Sitting σ) : Prop :=
  (∃ past, App.Runs t s.app s.world past s'.app s'.world ∧ ∀ f ∈ past, f.input.Described) ∧
    (s.Placed → s'.Placed)

namespace Reaches

variable {s s' s'' : Sitting σ}

theorem refl (s : Sitting σ) : s.Reaches t s :=
  ⟨⟨[], .start, nofun⟩, id⟩

theorem trans (h : s.Reaches t s') (h' : s'.Reaches t s'') : s.Reaches t s'' := by
  obtain ⟨⟨past, hr, hd⟩, hp⟩ := h
  obtain ⟨⟨more, hr', hd'⟩, hp'⟩ := h'
  refine ⟨⟨past ++ more, hr.trans hr', ?_⟩, fun h => hp' (hp h)⟩
  intro f hf
  rcases List.mem_append.mp hf with hf | hf
  · exact hd f hf
  · exact hd' f hf

end Reaches

/-- What the pointer reaches at a text of a window belongs to a window that is shown. -/
theorem widget?_mem {s : Sitting σ} {id : Nat} {label : String} {v : ChartWindow}
    {widget : WindowWidget} (h : s.widget? id label = some (v, widget)) : v ∈ s.windows := by
  simp only [widget?, Option.bind_eq_bind, Option.bind_eq_some_iff, Option.some.injEq] at h
  obtain ⟨u, hu, painted, -, hr⟩ := h
  have hm : u ∈ s.windows := List.mem_of_find?_eq_some hu
  have hv := congrArg Prod.fst hr
  simp only [reached] at hv
  split at hv
  · exact hv ▸ hm
  · exact hv ▸ s.layout.reached_mem hm

variable (s : Sitting σ)

theorem frame_reaches {input : AppInput} (h : input.Described) :
    s.Reaches t (s.frame t input) := by
  refine ⟨⟨_, .frame .start _, ?_⟩, fun hp => hp.update _⟩
  intro f hf
  obtain rfl := List.mem_singleton.mp hf
  exact h

/-- A frame to which no load brings anything. -/
theorem frame_reaches_of_quiet {input : AppInput} (h : ∀ load, input.arrival load = none) :
    s.Reaches t (s.frame t input) := by
  apply frame_reaches
  intro load entries hl
  rw [h load] at hl
  cases hl

theorem clickFrame_reaches {input : AppInput} (h : ∀ load, input.arrival load = none) :
    s.Reaches t (s.clickFrame t input) :=
  s.frame_reaches_of_quiet h

theorem clickWindow_reaches (id : Nat) (input : WindowInput) :
    s.Reaches t (s.clickWindow t id input) := by
  have hc : Reaches t { s with layout := s.layout.raise id } (s.clickWindow t id input) :=
    clickFrame_reaches _ fun _ => rfl
  exact ⟨hc.1, fun h => hc.2 (h.raise id)⟩

theorem point_reaches (pointer : Pointer) : s.Reaches t (s.point t pointer) :=
  frame_reaches_of_quiet { s with pointer := pointer } fun _ => rfl

theorem settle_reaches : s.Reaches t (s.settle t) := by
  unfold settle
  split
  · exact .refl s
  · apply frame_reaches
    apply AppInput.described_of_loads
    intro load arrival hl
    exact .inr ⟨s.world.files, s.config.sourceFile, (Option.some.inj hl).symm⟩

theorem openRow_reaches (k : Nat) : s.Reaches t (s.openRow t k) :=
  (s.point_reaches _).trans (clickFrame_reaches _ fun _ => rfl)

theorem clickWidget_reaches (v : ChartWindow) (widget : WindowWidget) (dialog : Option Path) :
    s.Reaches t (s.clickWidget t v widget dialog) := by
  refine (s.point_reaches (.window v.id widget)).trans ?_
  cases widget with
  | button b => exact clickWindow_reaches _ _ _
  | text => exact clickWindow_reaches _ _ _
  | binsField =>
    simp only [clickWidget]
    split
    · split
      · exact .refl _
      · exact clickWindow_reaches _ v.id {}
    · exact clickWindow_reaches _ _ _

theorem typeBins_reaches (v : ChartWindow) (text : String) : s.Reaches t (s.typeBins t v text) := by
  have hc := s.clickWidget_reaches (t := t) (s.reached v .binsField).1 (s.reached v .binsField).2 none
  simp only [typeBins]
  split
  · exact hc.trans (clickWindow_reaches _ _ _)
  · exact hc

theorem closeWindow_reaches (v : ChartWindow) : s.Reaches t (s.closeWindow t v) :=
  (s.point_reaches .away).trans (clickWindow_reaches _ _ _)

theorem pressWidget_reaches (widget : PanelWidget) : s.Reaches t (s.pressWidget t widget) := by
  cases widget with
  | row k => exact s.openRow_reaches k
  | reload | retry | text => exact (s.point_reaches .away).trans (clickFrame_reaches _ fun _ => rfl)

theorem act_reaches (g : Gesture) : s.Reaches t (s.act t g).2 := by
  cases g with
  | pointRow k =>
    simp only [act]
    split <;> exact s.point_reaches _
  | pointWindow id label =>
    simp only [act]
    split <;> exact s.point_reaches _
  | openRow k =>
    simp only [act]
    split
    · exact s.openRow_reaches k
    · exact .refl s
  | search text => exact (s.point_reaches .away).trans (frame_reaches_of_quiet _ fun _ => rfl)
  | rest => exact s.point_reaches s.pointer
  | leave => exact .refl s
  | click id label =>
    simp only [act]
    split
    · exact s.clickWidget_reaches _ _ none
    · exact .refl s
  | typeBins id text =>
    simp only [act]
    split
    · exact s.typeBins_reaches _ text
    · exact .refl s
  | answerDialog id label answer =>
    simp only [act]
    split
    · exact s.clickWidget_reaches _ _ _
    · exact .refl s
  | close id =>
    simp only [act]
    split
    · exact s.closeWindow_reaches _
    · exact .refl s
  | pressButton label =>
    simp only [act]
    split
    · exact s.pressWidget_reaches _
    · exact .refl s

/-- Whatever a reader does, the viewer goes on by its frames. -/
theorem perform_reaches (g : Gesture) : s.Reaches t (s.perform t g).2 := by
  refine (s.act_reaches g).trans ?_
  refine .trans ?_ (settle_reaches _)
  split
  · exact .refl _
  · exact point_reaches _ _

/-- The sitting after some gestures. -/
def after (t : Tracer σ) (s : Sitting σ) (gs : List Gesture) : Sitting σ :=
  gs.foldl (fun s g => (s.perform t g).2) s

theorem after_reaches (gs : List Gesture) : s.Reaches t (s.after t gs) := by
  induction gs generalizing s with
  | nil => exact .refl s
  | cons g rest ih => exact (s.perform_reaches g).trans (ih _)

variable (config : Config) (world : World σ) (gs : List Gesture)

/-- A sitting from the start on is a run of the viewer. -/
theorem exists_run : ∃ past,
    App.Runs t .start world past ((start config world).after t gs).app
      ((start config world).after t gs).world ∧
    App.after t past = ((start config world).after t gs).app ∧
    ∀ f ∈ past, f.input.Described := by
  obtain ⟨⟨past, hr, hd⟩, -⟩ := (start config world).after_reaches (t := t) gs
  exact ⟨past, hr, hr.app_eq, hd⟩

theorem windows_start : (start config world).windows = [] := rfl

theorem placed_start : (start config world).Placed := by
  refine ⟨?_, ?_⟩
  · exact List.nodup_nil
  · rw [windows_start]
    simp

/-- Whatever is done at the screen, each window shown lies at one place. -/
theorem placed_after : ((start config world).after t gs).Placed := by
  obtain ⟨-, hp⟩ := (start config world).after_reaches (t := t) gs
  exact hp (placed_start config world)

theorem orderly_after : ((start config world).after t gs).app.Orderly := by
  obtain ⟨past, -, ha, -⟩ := exists_run (t := t) config world gs
  exact ha ▸ App.orderly_after t past

/-- The tooltips of a sitting follow the pointer as its frames have seen it. -/
theorem attentive_after {m : Model}
    (hm : ((start config world).after t gs).app.phase = .ready m) : ∃ past,
    App.Runs t .start world past ((start config world).after t gs).app
      ((start config world).after t gs).world ∧
    m.Attentive t (Attended.after t past).looks := by
  obtain ⟨past, hr, ha, hd⟩ := exists_run (t := t) config world gs
  refine ⟨past, hr, Attended.sound_after hd m ?_⟩
  rw [Attended.app_after, ha, hm]

/-- The windows of a sitting are honest about the drawings made in its frames. -/
theorem honest_after : ∃ past,
    App.Runs t .start world past ((start config world).after t gs).app
      ((start config world).after t gs).world ∧
    ∀ v ∈ ((start config world).after t gs).windows, v.Honest (Watched.after t past).drawings := by
  obtain ⟨past, hr, ha, -⟩ := exists_run (t := t) config world gs
  refine ⟨past, hr, ?_⟩
  intro v hv
  unfold windows model? at hv
  split at hv
  · rename_i m hm
    have hp : (Watched.after t past).app.phase = .ready m := by rw [Watched.app_after, ha, hm]
    exact (Watched.honest_after t past m hp).windows v hv
  · cases hv

/-- A window without a message shows the chart of its settings, and the tracer was called for it. -/
theorem shown_was_called {v : ChartWindow} (hv : v ∈ ((start config world).after t gs).windows)
    (hs : v.status.getD "" = "") : ∃ r text new, v.view.request? = some r ∧
      v.view.artifact = some (.ofString text) ∧
      ((start config world).after t gs).world.calls = world.calls ++ new ∧ .render r ∈ new := by
  obtain ⟨past, hp, hh⟩ := honest_after (t := t) config world gs
  obtain ⟨errands, hc, hl⟩ := hp.drawings_called
  obtain ⟨d, text, hd, -, -, ha, hr⟩ := (hh v hv).current hs
  refine ⟨d.request, text, errands.map Errand.call, hr, ha, hc, ?_⟩
  have hm : d ∈ (Watched.after t past).drawings :=
    (List.mem_filter.mp (List.mem_of_getLast? hd)).1
  obtain ⟨e, he, hx⟩ := List.mem_filterMap.mp (hl.subset hm)
  rw [← Errand.call_of_drawing? hx]
  exact List.mem_map_of_mem he

end Sitting

end TraceViewer
