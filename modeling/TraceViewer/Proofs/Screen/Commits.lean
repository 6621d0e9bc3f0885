import TraceViewer.Proofs.Screen.Current

namespace TraceViewer.ChartWindow

/-- The toolbar shows a button, and it reacts to clicks. -/
def Offers (w : ChartWindow) (b : Button) : Prop :=
  (b ∈ buttonsBefore ∨ b ∈ w.buttonsAfter) ∧ w.isEnabled b = true

variable {σ : Type} {t : Tracer σ} {world : World σ} {w : ChartWindow} {input : WindowInput}

theorem clickedActions_of_not_mem {buttons : List Button} (hb : ∀ b ∈ input.clicked, b ∉ buttons) :
    w.clickedActions input buttons = [] := by
  simp only [clickedActions, List.map_eq_nil_iff, List.filter_eq_nil_iff]
  intro b hm he
  obtain ⟨hc, -⟩ := Bool.and_eq_true_iff.mp he
  exact hb b (List.contains_iff_mem.mp hc) hm

theorem clickedActions_of_mem {b : Button} {buttons : List Button} (hc : input.clicked = [b])
    (hb : b ∈ buttons) (he : w.isEnabled b = true) :
    (w.clickedActions input buttons).getLast? = some (actionOf b) := by
  have hm : actionOf b ∈ w.clickedActions input buttons := by
    refine List.mem_map.mpr ⟨b, List.mem_filter.mpr ⟨hb, ?_⟩, rfl⟩
    simp [hc, he]
  cases hl : (w.clickedActions input buttons).getLast? with
  | none =>
    rw [List.getLast?_eq_none_iff.mp hl] at hm
    cases hm
  | some a =>
    obtain ⟨x, hx, rfl⟩ := List.mem_map.mp (List.mem_of_getLast? hl)
    obtain ⟨-, hx⟩ := List.mem_filter.mp hx
    obtain ⟨hx, -⟩ := Bool.and_eq_true_iff.mp hx
    rw [hc, List.contains_iff_mem, List.mem_singleton] at hx
    rw [hx]

/-- A button drawn after the field is heard, whatever the field commits. -/
theorem action?_of_mem {b : Button} (hc : input.clicked = [b]) (hb : b ∈ w.buttonsAfter)
    (he : w.isEnabled b = true) : w.action? input = some (actionOf b) := by
  rw [action?, reported, List.getLast?_append, clickedActions_of_mem hc hb he, Option.some_or]

/-- A commit is heard unless a button drawn after the field is clicked. -/
theorem action?_of_commit {n : Option Nat} (hn : input.bins.committed w.binsInput = some n)
    (hb : ∀ b ∈ input.clicked, b ∉ w.buttonsAfter) :
    w.action? input = some (.change (.bins n)) := by
  rw [action?, reported, clickedActions_of_not_mem hb, hn, List.append_nil]
  exact List.getLast?_concat

theorem mem_buttonsAfter_of_offers {b : Button} (ho : w.Offers b) (hk : ∀ k, b ≠ .chartKind k) :
    b ∈ w.buttonsAfter := by
  obtain ⟨hb | hb, -⟩ := ho
  · cases b with
    | chartKind k => exact absurd rfl (hk k)
    | metric m => simp [buttonsBefore] at hb
    | saveAs => simp [buttonsBefore] at hb
    | exportData => simp [buttonsBefore] at hb
  · exact hb

theorem chartKind_not_mem_buttonsAfter (w : ChartWindow) (k : ChartKind) :
    .chartKind k ∉ w.buttonsAfter := by
  simp [buttonsAfter]

theorem frame_of_commit (input : WindowInput) {n : Option Nat}
    (hn : input.bins.committed (w.typed input).binsInput = some n)
    (hb : ∀ b ∈ input.clicked, b ∉ w.buttonsAfter) :
    w.frame input t world = (w.typed input).change (.bins n) t world := by
  rw [frame_eq, action?_of_commit hn hb]
  rfl

theorem frame_of_click (input : WindowInput) {b : Button} (hc : input.clicked = [b])
    (hb : b ∈ w.buttonsAfter) (he : w.isEnabled b = true) :
    w.frame input t world = (w.typed input).perform input.dialog t world (actionOf b) := by
  have ha : (w.typed input).action? input = some (actionOf b) := action?_of_mem hc hb he
  rw [frame_eq, ha]

theorem settings_change (w : ChartWindow) (c : Change) (t : Tracer σ) (world : World σ) :
    (w.change c t world).1.view.chartKind = (w.view.set c).chartKind ∧
      (w.change c t world).1.view.binCount = (w.view.set c).binCount := by
  have h := View.change_keeps (t := t) (w := world) w.view c
  exact ⟨h ▸ rfl, h ▸ rfl⟩

theorem binCount_perform (w : ChartWindow) (dialog : Option Path) (b : Button) :
    (w.perform dialog t world (actionOf b)).1.view.binCount = w.view.binCount := by
  cases b with
  | chartKind k => exact (settings_change w (.chartKind k) t world).2
  | metric m => exact (settings_change w (.metric m) t world).2
  | saveAs => cases dialog <;> rfl
  | exportData => cases dialog <;> rfl

/-- Before a later button a commit is as if it had not been made. -/
theorem frame_loses_commit (n : Option Nat) {b : Button} (hc : input.clicked = [b])
    (hb : b ∈ w.buttonsAfter) (he : w.isEnabled b = true) :
    w.frame input t world = w.frame { input with bins := {} } t world ∧
      w.frame input t world = (w.typed input).perform input.dialog t world (actionOf b) ∧
      ((w.frame input t world).1.view.binCount = n ↔ w.view.binCount = n) := by
  have hf : w.frame input t world = (w.typed input).perform input.dialog t world (actionOf b) :=
    frame_of_click input hc hb he
  refine ⟨?_, hf, ?_⟩
  · rw [hf]
    exact (frame_of_click { input with bins := {} } hc hb he).symm
  · rw [hf, binCount_perform]
    rfl

/-- After a button for the kind of chart, the click is as if it had not been made. -/
theorem frame_loses_click {n : Option Nat} {k : ChartKind}
    (hn : input.bins.committed (w.typed input).binsInput = some n)
    (hc : input.clicked = [.chartKind k]) :
    w.frame input t world = w.frame { input with clicked := [] } t world ∧
      (w.frame input t world).1.view.binCount = n ∧
      ((w.frame input t world).1.view.chartKind = k ↔ w.view.chartKind = k) := by
  have hb : ∀ b ∈ input.clicked, b ∉ w.buttonsAfter := by
    rw [hc]
    simpa using chartKind_not_mem_buttonsAfter w k
  have hf : w.frame input t world = (w.typed input).change (.bins n) t world :=
    frame_of_commit input hn hb
  obtain ⟨hkind, hbins⟩ := settings_change (w.typed input) (.bins n) t world
  refine ⟨?_, hf ▸ hbins, ?_⟩
  · rw [hf]
    exact (frame_of_commit { input with clicked := [] } hn (by simp)).symm
  · rw [hf, hkind]
    rfl

/-- A frame in which the field commits and a button is clicked carries out one of the two: the commit
if the button is drawn before the field, else the button's action. The other is lost, unless it asks
for what is set already. -/
theorem commit_or_click_is_lost (w : ChartWindow) (input : WindowInput) (n : Option Nat)
    (b : Option Button) (t : Tracer σ) (world : World σ)
    (hn : input.bins.committed (w.typed input).binsInput = some n)
    (hc : input.clicked = b.toList) (ho : ∀ x ∈ b, w.Offers x) :
    let after := w.frame input t world
    match b with
    | none => after = (w.typed input).change (.bins n) t world ∧ after.1.view.binCount = n
    | some (.chartKind k) =>
      after = w.frame { input with clicked := [] } t world ∧ after.1.view.binCount = n ∧
        (after.1.view.chartKind = k ↔ w.view.chartKind = k)
    | some x =>
      after = w.frame { input with bins := {} } t world ∧
        after = (w.typed input).perform input.dialog t world (actionOf x) ∧
        (after.1.view.binCount = n ↔ w.view.binCount = n) := by
  intro after
  cases b with
  | none =>
    have hf : after = (w.typed input).change (.bins n) t world :=
      frame_of_commit input hn (by simp [hc])
    exact ⟨hf, hf ▸ (settings_change (w.typed input) (.bins n) t world).2⟩
  | some x =>
    have hx : w.Offers x := ho x rfl
    cases x with
    | chartKind k => exact frame_loses_click hn hc
    | metric m => exact frame_loses_commit n hc (mem_buttonsAfter_of_offers hx (by simp)) hx.2
    | saveAs => exact frame_loses_commit n hc (mem_buttonsAfter_of_offers hx (by simp)) hx.2
    | exportData => exact frame_loses_commit n hc (mem_buttonsAfter_of_offers hx (by simp)) hx.2

theorem commit_or_click_is_lost_of_metric :
    let w : ChartWindow := ⟨0, "/a", .start ⟨"node=/a", .node, some .callback⟩, 0, none⟩
    let b : Button := .metric .activationDelay
    let input : WindowInput :=
      { clicked := [b], bins := { changed := true, lostFocus := true }, binsInput := some 150 }
    let t := Script.tracer (.ofString "out")
    let world : World Script := { files := .empty [], memory := { replies := [] } }
    input.bins.committed (w.typed input).binsInput = some (some 150) ∧
      input.clicked = (some b).toList ∧ (∀ x ∈ some b, w.Offers x) ∧
      (w.frame input t world).1.view.binCount ≠ some 150 := by
  intro w b input t world
  have hn : input.bins.committed (w.typed input).binsInput = some (some 150) := rfl
  have ho : ∀ x ∈ some b, w.Offers x := by
    rintro x ⟨⟩
    exact ⟨by decide, rfl⟩
  refine ⟨hn, rfl, ho, ?_⟩
  obtain ⟨-, -, hl⟩ := commit_or_click_is_lost w input (some 150) (some b) t world hn rfl ho
  rw [ne_eq, hl]
  decide

/-- A bin count left behind by a click on a metric is lost, and so is the click on a kind of chart
that leaves the field. -/
theorem commit_and_click_are_not_both_served :
    let w : ChartWindow := ⟨0, "/a", .start ⟨"node=/a", .node, some .callback⟩, 0, none⟩
    let left : BinsEdit := { changed := true, lostFocus := true }
    let onMetric : WindowInput :=
      { clicked := [.metric .activationDelay], bins := left, binsInput := some 150 }
    let onKind : WindowInput := { clicked := [.chartKind .scatter], bins := left }
    let t := Script.tracer (.ofString "out")
    let world : World Script := { files := .empty [], memory := { replies := [] } }
    left.committed 150 = some (some 150) ∧ w.Offers (.metric .activationDelay) ∧
      (w.frame onMetric t world).1.view.binCount = none ∧
      left.committed 0 = some none ∧ w.Offers (.chartKind .scatter) ∧
      (w.frame onKind t world).1.view.chartKind = .histogram :=
  ⟨rfl, ⟨by decide, rfl⟩, rfl, rfl, ⟨by decide, rfl⟩, rfl⟩

end TraceViewer.ChartWindow
