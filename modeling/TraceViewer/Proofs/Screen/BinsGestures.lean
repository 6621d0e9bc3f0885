import TraceViewer.Proofs.Interaction.Calls
import TraceViewer.Screen.BinsField

namespace TraceViewer

/-- One frame of the field for the bin count, with the value then in it. -/
structure BinsFrame where
  edit : BinsEdit
  input : Nat
deriving DecidableEq

namespace BinsFrame

def committed (f : BinsFrame) : Option (Option Nat) :=
  f.edit.committed f.input

/-- The value is dragged or typed, and that does not end in this frame. -/
structure Held (f : BinsFrame) : Prop where
  busy : f.edit.dragging = true ∨ f.edit.editing = true
  pressed : f.edit.dragStopped = false
  focused : f.edit.lostFocus = false

/-- The value is let go, the field is left, or the value changes at one stroke. -/
def Ends (f : BinsFrame) : Prop :=
  f.edit.dragStopped = true ∨ f.edit.lostFocus = true ∨
    f.edit.changed = true ∧ f.edit.dragging = false ∧ f.edit.editing = false

instance (f : BinsFrame) : Decidable f.Held :=
  decidable_of_iff ((f.edit.dragging = true ∨ f.edit.editing = true) ∧
      f.edit.dragStopped = false ∧ f.edit.lostFocus = false)
    ⟨fun h => ⟨h.1, h.2.1, h.2.2⟩, fun h => ⟨h.busy, h.pressed, h.focused⟩⟩

instance (f : BinsFrame) : Decidable f.Ends :=
  inferInstanceAs (Decidable (_ ∨ _ ∨ _ ∧ _ ∧ _))

theorem Held.committed {f : BinsFrame} (h : f.Held) : f.committed = none := by
  simp only [BinsFrame.committed, BinsEdit.committed, h.pressed, h.focused]
  rcases h.busy with hb | hb <;> simp [hb]

theorem Ends.committed {f : BinsFrame} (h : f.Ends) :
    f.committed = some (if f.input = 0 then none else some f.input) := by
  have hc : (f.edit.dragStopped || f.edit.lostFocus ||
      (f.edit.changed && !f.edit.dragging && !f.edit.editing)) = true := by
    rcases h with h | h | ⟨hc, hd, he⟩
    · simp [h]
    · simp [h]
    · simp [hc, hd, he]
  rw [BinsFrame.committed, BinsEdit.committed, if_pos hc, BinsEdit.binCount]
  by_cases hz : f.input = 0
  · rw [if_pos hz, if_neg (by omega)]
  · rw [if_neg hz, if_pos (by omega)]

variable {σ : Type}

/-- A view and the world around it after one more frame: what is committed becomes its bin count. -/
def feed (t : Tracer σ) (s : View × World σ) (f : BinsFrame) : View × World σ :=
  match f.committed with
  | some n => ((s.1.change (.bins n) t s.2).view, (s.1.change (.bins n) t s.2).world)
  | none => s

/-- What is only held is not taken over. -/
theorem foldl_held {frames : List BinsFrame} (h : ∀ f ∈ frames, f.Held) (t : Tracer σ)
    (s : View × World σ) : frames.foldl (feed t) s = s := by
  induction frames with
  | nil => rfl
  | cons f frames ih =>
    have hf : feed t s f = s := by rw [feed, (h f List.mem_cons_self).committed]
    rw [List.foldl_cons, hf]
    exact ih fun f hm => h f (List.mem_cons_of_mem _ hm)

end BinsFrame

/-- The frames from where the field is taken hold of to where the value is left. -/
structure BinsGesture where
  held : List BinsFrame
  last : BinsFrame
  held_of_mem : ∀ f ∈ held, f.Held := by decide
  ends : last.Ends := by decide

namespace BinsGesture

def frames (g : BinsGesture) : List BinsFrame :=
  g.held ++ [g.last]

/-- The value left behind, none if that is zero. -/
def value (g : BinsGesture) : Option Nat :=
  if g.last.input = 0 then none else some g.last.input

/-- The value left behind by the last of some gestures, at first the one that was there before. -/
def valueAfter (initial : Option Nat) (gs : List BinsGesture) : Option Nat :=
  (gs.getLast?.map value).getD initial

theorem valueAfter_cons (initial : Option Nat) (g : BinsGesture) (gs : List BinsGesture) :
    valueAfter initial (g :: gs) = valueAfter g.value gs := by
  rw [valueAfter, List.getLast?_cons, valueAfter]
  cases gs.getLast? <;> rfl

theorem map_committed (g : BinsGesture) :
    g.frames.map BinsFrame.committed = List.replicate g.held.length none ++ [some g.value] := by
  rw [frames, List.map_append, List.map_singleton, g.ends.committed, ← value,
    List.append_cancel_right_eq, List.eq_replicate_iff]
  refine ⟨List.length_map _, fun c hc => ?_⟩
  obtain ⟨f, hf, rfl⟩ := List.mem_map.mp hc
  exact (g.held_of_mem f hf).committed

variable {σ : Type} {t : Tracer σ} {s : View × World σ}

/-- A gesture of any length is one change of the bin count. -/
theorem foldl_frames (g : BinsGesture) : g.frames.foldl (BinsFrame.feed t) s =
    ((s.1.change (.bins g.value) t s.2).view, (s.1.change (.bins g.value) t s.2).world) := by
  rw [frames, List.foldl_append, BinsFrame.foldl_held g.held_of_mem, List.foldl_cons,
    List.foldl_nil, BinsFrame.feed, g.ends.committed, ← value]

/-- The view is another one with a bin count of its own; the images may differ. -/
def Bears (v : View) (n : Option Nat) (u : View) : Prop :=
  { u with artifact := v.artifact } = { v with binCount := n }

theorem Bears.set {v u : View} {n : Option Nat} (h : Bears v n u) (m : Option Nat) :
    Bears v m (u.set (.bins m)) := by
  have hm := congrArg (fun u : View => { u with binCount := m }) h
  exact hm

/-- Whether or not the drawing fails, the new value stays. -/
theorem Bears.frames {v : View} {n : Option Nat} (h : Bears v n s.1) (g : BinsGesture) :
    Bears v g.value (g.frames.foldl (BinsFrame.feed t) s).1 := by
  rw [foldl_frames]
  have hk := View.change_keeps (t := t) (w := s.2) s.1 (.bins g.value)
  have hs := h.set g.value
  rw [← hk] at hs
  exact hs

theorem Bears.gestures {v : View} {n : Option Nat} (h : Bears v n s.1) (gs : List BinsGesture) :
    Bears v (valueAfter n gs) ((gs.flatMap BinsGesture.frames).foldl (BinsFrame.feed t) s).1 := by
  induction gs generalizing n s with
  | nil => exact h
  | cons g gs ih =>
    rw [List.flatMap_cons, List.foldl_append, valueAfter_cons]
    exact ih (h.frames g)

/-- Only a value other than the one before is drawn. -/
theorem Bears.calls_frames {v : View} {n : Option Nat} (h : Bears v n s.1) (g : BinsGesture) :
    (g.frames.foldl (BinsFrame.feed t) s).2.calls = s.2.calls ++
      (if g.value = n then none
        else { v with binCount := g.value }.request?.map TracerCall.render).toList := by
  have hr : (s.1.set (.bins g.value)).request? = { v with binCount := g.value }.request? := by
    have hs := congrArg View.request? (h.set g.value)
    exact hs
  have hn : s.1.binCount = n := congrArg View.binCount h
  rw [foldl_frames, View.change_calls, hr, View.isSame, hn]
  simp only [beq_iff_eq, eq_comm (a := n)]

/-- Of a gesture on the field for the bin count only the last frame commits: the value left behind,
none if that is zero. So after any gestures a further one asks the tracer for at most one chart, and
for exactly one if the view has a metric and the value is another than that of the gesture before it.
Failed drawings make no difference. Before the first gesture the bin count is that of the view, none
if it was just opened. -/
theorem gesture_draws_once (t : Tracer σ) (w : World σ) (v : View) (gs : List BinsGesture)
    (g : BinsGesture) :
    g.frames.map BinsFrame.committed = List.replicate g.held.length none ++ [some g.value] ∧
    (∀ e, (View.openFor e t w).view.binCount = none) ∧
    let before := (gs.flatMap BinsGesture.frames).foldl (BinsFrame.feed t) (v, w)
    let after := g.frames.foldl (BinsFrame.feed t) before
    after.1.binCount = g.value ∧
    ∃ new, after.2.calls = before.2.calls ++ new ∧ new.length ≤ 1 ∧
      (new.length = 1 ↔ g.value ≠ valueAfter v.binCount gs ∧ v.metric ≠ none) ∧
      ∀ call ∈ new, ∃ r, { v with binCount := g.value }.request? = some r ∧ call = .render r := by
  refine ⟨g.map_committed, ?_, ?_⟩
  · intro e
    exact congrArg View.binCount (View.render_keeps (View.start e))
  intro before after
  have hb : Bears v (valueAfter v.binCount gs) before.1 := Bears.gestures (s := (v, w)) rfl gs
  refine ⟨congrArg View.binCount (hb.frames g), _, hb.calls_frames g, ?_⟩
  by_cases hs : g.value = valueAfter v.binCount gs
  · simp [hs]
  cases v.metric with
  | none => simp [View.request?]
  | some m => simp [hs, View.request?]

example :
    let typing (n : Nat) : BinsFrame := ⟨{ changed := true, editing := true }, n⟩
    let g : BinsGesture :=
      { held := [typing 1, typing 15], last := ⟨{ changed := true, lostFocus := true }, 150⟩ }
    g.frames.map BinsFrame.committed = [none, none, some (some 150)] := by
  decide

end BinsGesture

end TraceViewer
