import TraceViewer.Proofs.Screen.Current
import TraceViewer.Proofs.Screen.Tooltips

namespace TraceViewer

/-- What happens in a frame, but that no window is closed. -/
def ModelInput.keepOpen (input : ModelInput) : ModelInput :=
  { input with window := fun id => { input.window id with close := false } }

/-- Nothing is clicked, typed or committed in a window. -/
structure WindowInput.Idle (input : WindowInput) : Prop where
  clicked : input.clicked = []
  typed : input.binsInput = none
  committed : ∀ n, input.bins.committed n = none

namespace Model

variable {σ : Type} {t : Tracer σ} {world : World σ} {m : Model}

/-- The windows that a frame leaves open among some. -/
def leftOpen (input : ModelInput) (ws : List ChartWindow) : List ChartWindow :=
  ws.filter fun w => !(input.window w.id).close

/-- Closing takes windows away at the end: until then, all of them do what they would anyway. -/
theorem frameWindows_keepOpen (input : ModelInput) (ws : List ChartWindow) (world : World σ) :
    frameWindows input.window t ws world =
      (leftOpen input (frameWindows input.keepOpen.window t ws world).1,
        (frameWindows input.keepOpen.window t ws world).2) := by
  induction ws generalizing world with
  | nil => rfl
  | cons w rest ih =>
    have hf : w.frame (input.keepOpen.window w.id) t world = w.frame (input.window w.id) t world :=
      rfl
    have hc : (input.keepOpen.window w.id).close = false := rfl
    simp only [frameWindows, hf, hc, ih, leftOpen, Bool.false_eq_true, if_false,
      List.filter_cons, ChartWindow.id_frame]
    cases (input.window w.id).close <;> rfl

theorem ids_frameWindows (input : ModelInput) (ws : List ChartWindow) (world : World σ) :
    (frameWindows input.keepOpen.window t ws world).1.map ChartWindow.id =
      ws.map ChartWindow.id := by
  induction ws generalizing world with
  | nil => rfl
  | cons w rest ih =>
    have hc : (input.keepOpen.window w.id).close = false := rfl
    simp only [frameWindows, hc, Bool.false_eq_true, if_false, List.map_cons, ih,
      ChartWindow.id_frame]

/-- A window in which nothing happens stays as it is, whatever happens in others. -/
theorem mem_frameWindows_of_idle {input : Nat → WindowInput} {ws : List ChartWindow}
    {w : ChartWindow} (hw : w ∈ ws) (hi : (input w.id).Idle) (hc : (input w.id).close = false) :
    w ∈ (frameWindows input t ws world).1 := by
  induction ws generalizing world with
  | nil => cases hw
  | cons v rest ih =>
    simp only [frameWindows]
    rcases List.mem_cons.mp hw with rfl | hw
    · rw [hc, w.frame_idle hi.clicked hi.typed hi.committed]
      exact List.mem_cons_self
    · split
      · exact ih hw
      · exact List.mem_cons_of_mem _ (ih hw)

/-- A frame of the list of elements adds one window at most, with the next number. -/
theorem windows_frameElements (m : Model) (input : ModelInput) (world : World σ) :
    let shown := (m.frameElements input t world).1
    (shown.windows = m.windows ∧ shown.nextWindowId = m.nextWindowId) ∨
      ∃ w : ChartWindow, w.id = m.nextWindowId ∧ shown.windows = m.windows ++ [w] ∧
        shown.nextWindowId = m.nextWindowId + 1 := by
  intro shown
  simp only [shown, frameElements]
  split
  · exact .inl ⟨rfl, rfl⟩
  · split
    · exact .inr ⟨_, rfl, rfl, rfl⟩
    · exact .inl ⟨rfl, rfl⟩

/-- The windows stand in the order of their numbers, and the next number is above them all. -/
structure Numbered (m : Model) : Prop where
  rising : (m.windows.map ChartWindow.id).Pairwise (· < ·)
  below : ∀ id ∈ m.windows.map ChartWindow.id, id < m.nextWindowId

theorem numbered_fresh (entries : List Entry) : ({ entries := entries } : Model).Numbered :=
  ⟨.nil, nofun⟩

theorem Numbered.frameElements (h : m.Numbered) (input : ModelInput) (t : Tracer σ)
    (world : World σ) : (m.frameElements input t world).1.Numbered := by
  obtain ⟨hw, hn⟩ | ⟨w, hi, hw, hn⟩ := windows_frameElements (t := t) m input world
  · exact ⟨hw ▸ h.rising, by rw [hw, hn]; exact h.below⟩
  · constructor
    · rw [hw, List.map_append, List.pairwise_append]
      refine ⟨h.rising, List.pairwise_singleton _ _, ?_⟩
      intro id hm next hx
      rw [List.map_singleton, List.mem_singleton, hi] at hx
      exact hx ▸ h.below id hm
    · rw [hw, hn, List.map_append]
      intro id hm
      rcases List.mem_append.mp hm with hm | hm
      · exact Nat.lt_succ_of_lt (h.below id hm)
      · rw [List.map_singleton, List.mem_singleton, hi] at hm
        exact hm ▸ Nat.lt_succ_self _

theorem Numbered.frame (h : m.Numbered) (input : ModelInput) (t : Tracer σ) (world : World σ) :
    (m.frame input t world).1.Numbered := by
  have he := h.frameElements input t world
  have hs := frameWindows_sublist input.window t (m.frameElements input t world).1.windows
    (m.frameElements input t world).2
  exact ⟨he.rising.sublist hs, fun id hm => he.below id (hs.subset hm)⟩

theorem frame_keepOpen (m : Model) (input : ModelInput) (t : Tracer σ) (world : World σ) :
    m.frame input t world =
      ({ (m.frame input.keepOpen t world).1 with
          windows := leftOpen input (m.frame input.keepOpen t world).1.windows },
        (m.frame input.keepOpen t world).2) := by
  have he : m.frameElements input.keepOpen t world = m.frameElements input t world := rfl
  simp only [frame, he]
  rw [frameWindows_keepOpen]

theorem ids_frame_keepOpen (m : Model) (input : ModelInput) (t : Tracer σ) (world : World σ) :
    m.windows.map ChartWindow.id <+:
      (m.frame input.keepOpen t world).1.windows.map ChartWindow.id := by
  simp only [frame, ids_frameWindows]
  obtain ⟨hw, -⟩ | ⟨w, -, hw, -⟩ := windows_frameElements (t := t) m input.keepOpen world
  · exact hw ▸ List.prefix_rfl
  · rw [hw, List.map_append]
    exact List.prefix_append _ _

theorem mem_frame_of_idle {input : ModelInput} {w : ChartWindow} (hw : w ∈ m.windows)
    (hi : (input.window w.id).Idle) (hc : (input.window w.id).close = false) :
    w ∈ (m.frame input t world).1.windows := by
  apply mem_frameWindows_of_idle ?_ hi hc
  obtain ⟨hs, -⟩ | ⟨v, -, hs, -⟩ := windows_frameElements (t := t) m input world
  · exact hs ▸ hw
  · exact hs ▸ List.mem_append_left [v] hw

end Model

end TraceViewer
