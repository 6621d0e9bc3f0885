import Mathlib.Data.List.Nodup
import TraceViewer.Screen.Layout

namespace TraceViewer

namespace Layout

variable {layout : Layout} {shown windows before after : List ChartWindow} {v : ChartWindow}
  {place : WindowPlace} {id n : Nat}

/-- The numbers of the windows that were given a place so far. -/
def ids (layout : Layout) : List Nat :=
  layout.map WindowPlace.id

theorem of_place? (h : layout.place? id = some place) : place ∈ layout ∧ place.id = id :=
  ⟨List.mem_of_find?_eq_some h, by simpa using List.find?_some h⟩

theorem place?_eq_none_iff : layout.place? id = none ↔ id ∉ layout.ids := by
  simp [place?, ids]

theorem mem_ids_of_place? (h : layout.place? id = some place) : id ∈ layout.ids :=
  List.mem_map.mpr ⟨place, of_place? h⟩

theorem ids_raise (h : layout.place? id = some place) :
    (layout.raise id).ids = layout.ids.filter (· != id) ++ [id] := by
  have he := (of_place? h).2
  simp only [raise, h, ids, List.map_append, List.map_singleton, he, List.filter_map]
  rfl

/-- A window that is raised keeps its place, and so do the others. -/
theorem mem_ids_raise : n ∈ (layout.raise id).ids ↔ n ∈ layout.ids := by
  cases hp : layout.place? id with
  | none => simp only [raise, hp]
  | some place =>
    have hi := mem_ids_of_place? hp
    rw [ids_raise hp]
    by_cases hn : n = id <;> simp [hn, hi]

theorem nodup_raise (h : layout.ids.Nodup) (id : Nat) : (layout.raise id).ids.Nodup := by
  cases hp : layout.place? id with
  | none => simpa only [raise, hp] using h
  | some place =>
    rw [ids_raise hp, ← List.concat_eq_append]
    refine List.Nodup.concat ?_ (h.sublist List.filter_sublist)
    simp

theorem ids_add_of_new (h : layout.place? id = none) :
    (layout.add shown id).ids = layout.ids ++ [id] := by
  simp only [add, h, ids, List.map_append, List.map_singleton]

theorem mem_ids_add : n ∈ (layout.add shown id).ids ↔ n ∈ layout.ids ∨ n = id := by
  cases hp : layout.place? id with
  | none => simp [ids_add_of_new hp]
  | some place =>
    have hi := mem_ids_of_place? hp
    simp only [add, hp, mem_ids_raise]
    exact ⟨.inl, fun h => h.elim (fun h => h) fun h => h ▸ hi⟩

theorem nodup_add (h : layout.ids.Nodup) (shown : List ChartWindow) (id : Nat) :
    (layout.add shown id).ids.Nodup := by
  cases hp : layout.place? id with
  | none =>
    rw [ids_add_of_new hp, ← List.concat_eq_append]
    exact List.Nodup.concat (place?_eq_none_iff.mp hp) h
  | some place =>
    simp only [add, hp]
    exact nodup_raise h id

/-- Each window shown has a place, and no window has two. -/
structure Places (layout : Layout) (windows : List ChartWindow) : Prop where
  once : layout.ids.Nodup
  all : ∀ v ∈ windows, v.id ∈ layout.ids

theorem Places.raise (h : layout.Places windows) (id : Nat) : (layout.raise id).Places windows :=
  ⟨nodup_raise h.once id, fun v hv => mem_ids_raise.mpr (h.all v hv)⟩

/-- Places are given to some windows one after another. -/
theorem Places.foldl_add (h : layout.Places windows) (shown new : List ChartWindow) :
    (new.foldl (fun layout v => layout.add shown v.id) layout).Places (windows ++ new) := by
  induction new generalizing layout windows with
  | nil => simpa using h
  | cons v rest ih =>
    have hv : (layout.add shown v.id).Places (windows ++ [v]) := by
      refine ⟨nodup_add h.once shown v.id, ?_⟩
      intro u hu
      rw [mem_ids_add]
      rcases List.mem_append.mp hu with hu | hu
      · exact .inl (h.all u hu)
      · exact .inr (congrArg ChartWindow.id (List.mem_singleton.mp hu))
    rw [List.append_cons]
    exact ih hv

/-- A frame leaves each window that it shows a place. -/
theorem Places.update (h : layout.Places before) (after : List ChartWindow) :
    (layout.update before after).Places after := by
  have ha := h.foldl_add (after.filter fun v => before.any (·.id == v.id))
    (after.filter fun v => !before.any (·.id == v.id))
  refine ⟨ha.once, ?_⟩
  intro v hv
  cases hs : before.any (·.id == v.id) with
  | false => exact ha.all v (List.mem_append_right _ (List.mem_filter.mpr ⟨hv, by simp [hs]⟩))
  | true =>
    obtain ⟨u, hu, he⟩ := List.any_eq_true.mp hs
    rw [← beq_iff_eq.mp he]
    exact ha.all u (List.mem_append_left _ hu)

/-- Nothing lies above a window that is raised. -/
theorem above_raise (layout : Layout) (windows : List ChartWindow) (id : Nat) :
    (layout.raise id).above windows id = [] := by
  have hd (l last : Layout) (h : ∀ place ∈ l, place.id ≠ id) :
      (l ++ last).dropWhile (·.id != id) = last.dropWhile (·.id != id) := by
    apply List.dropWhile_append_of_pos
    simpa using h
  cases hp : layout.place? id with
  | none =>
    have hl := hd layout [] (by simpa [place?] using hp)
    rw [List.append_nil] at hl
    simp only [raise, hp, above, hl]
    rfl
  | some place =>
    have he := (of_place? hp).2
    simp only [raise, hp, above]
    rw [hd _ _ (by simp), List.dropWhile_cons_of_neg (by simp [he])]
    rfl

/-- A click on the tools of a window that was raised reaches it. -/
theorem reached_raise (layout : Layout) (windows : List ChartWindow) (v : ChartWindow) :
    (layout.raise v.id).reached windows v = v := by
  rw [reached, above_raise]
  rfl

/-- Clicks reach windows that are shown. -/
theorem reached_mem (layout : Layout) (hv : v ∈ windows) : layout.reached windows v ∈ windows := by
  rcases List.mem_cons.mp (List.getLastD_mem_cons
      (l := (layout.above windows v.id).filter (layout.liesOver · v)) (a := v)) with he | hm
  · rw [reached, he]
    exact hv
  · obtain ⟨place, -, hf⟩ := List.mem_filterMap.mp (List.mem_filter.mp hm).1
    exact List.mem_of_find?_eq_some hf

end Layout

end TraceViewer
