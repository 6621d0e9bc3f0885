import TraceViewer.Proofs.Interaction.Calls

namespace TraceViewer

theorem Path.ofString_ne {text : String} (h : text ≠ "") : (Path.ofString text).bytes ≠ [] := by
  intro he
  have hd := Utf8.decodeLossy_encode text
  rw [show Utf8.encode text = [] from he] at hd
  exact h hd.symm

namespace View

variable {σ : Type} {t : Tracer σ} {w : World σ}

/-- All that can come of drawing the chart of a view, with what the tracer answers. -/
inductive Comes (t : Tracer σ) (w : World σ) (v : View) : Rendering σ → Prop where
  | awaiting (hr : v.request? = none) : Comes t w v ⟨v, .ok .awaitingMetric, w⟩
  | drawn {r : ChartRequest} {text : String} {w' : World σ} (hr : v.request? = some r)
      (ha : (t.render r w.files w.memory).result = .ok text) (ht : text ≠ "") :
      Comes t w v
        ⟨{ v with artifact := some (.ofString text) }, .ok (.rendered (.ofString text)), w'⟩
  | failed {r : ChartRequest} {e : ViewerError} {w' : World σ} (hr : v.request? = some r)
      (ha : ∀ text, (t.render r w.files w.memory).result = .ok text → text = "") :
      Comes t w v ⟨v, .error e, w'⟩

theorem render_comes (t : Tracer σ) (w : World σ) (v : View) : Comes t w v (v.render t w) := by
  unfold render
  split
  · rename_i hr
    exact .awaiting hr
  · rename_i r hr
    split
    · rename_i e w' ha
      refine .failed hr fun text hx => ?_
      rcases World.artifact_eq_error_iff.mp (congrArg Prod.fst ha) with he | ⟨he, -⟩
      · rw [he] at hx
        cases hx
      · rw [he] at hx
        exact (Except.ok.inj hx).symm
    · rename_i p w' ha
      obtain ⟨text, hx, ht, rfl⟩ := World.artifact_eq_ok_iff.mp (congrArg Prod.fst ha)
      exact .drawn hr hx ht

/-- Drawing waits for a metric exactly if there is nothing to ask of the tracer. -/
theorem render_awaits_iff (t : Tracer σ) (w : World σ) (v : View) :
    (v.render t w).outcome = .ok .awaitingMetric ↔ v.request? = none := by
  have hc := render_comes t w v
  generalize v.render t w = r at hc
  cases hc with
  | awaiting hr => simp [hr]
  | drawn hr => simp [hr]
  | failed hr => simp [hr]

theorem change_of_same {v : View} {c : Change} (h : v.set c = v) :
    v.change c t w = ⟨v, .ok .unchanged, w⟩ :=
  if_pos ((isSame_iff v c).mpr h)

theorem change_of_new {v : View} {c : Change} (h : v.set c ≠ v) :
    v.change c t w = (v.set c).render t w :=
  if_neg fun hs => h ((isSame_iff v c).mp hs)

theorem request?_eq_none_iff {v : View} : v.request? = none ↔ v.metric = none := by
  simp [request?]

theorem metric_of_request? {v : View} {r : ChartRequest} (h : v.request? = some r) :
    v.metric ≠ none := by
  intro hm
  rw [request?_eq_none_iff.mpr hm] at h
  cases h

theorem metric_set {v : View} (h : v.metric ≠ none) (c : Change) : (v.set c).metric ≠ none := by
  cases c <;> simp [set, h]

/-- A view without a metric has no image, whatever is drawn for it. -/
theorem Comes.blank {v : View} {r : Rendering σ} (h : Comes t w v r)
    (hb : v.metric = none → v.artifact = none) : r.view.metric = none → r.view.artifact = none := by
  cases h with
  | awaiting => exact hb
  | drawn hr => exact fun hm => absurd hm (metric_of_request? hr)
  | failed => exact hb

theorem blank_set {v : View} (hb : v.metric = none → v.artifact = none) (c : Change) :
    (v.set c).metric = none → (v.set c).artifact = none := by
  intro hm
  rw [artifact_set]
  cases c with
  | metric m => cases hm
  | chartKind k => exact hb hm
  | bins n => exact hb hm

end View

end TraceViewer
