import TraceViewer.Proofs.Graph.Elements
import TraceViewer.Proofs.Screen.Calls

namespace TraceViewer

namespace Model

/-- The entry that the pointer rests on in a frame. -/
def hovered? (m : Model) (input : ModelInput) : Option Entry :=
  ({ m with search := input.search.getD m.search } : Model).row? input.hoveredRow

/-- The small chart due in a frame, when the frame before has seen an identifier under the pointer. -/
def tooltip? (m : Model) (before : Option String) (input : ModelInput) : Option ChartRequest := do
  let entry ← m.hovered? input
  let metric ← entry.element.defaultMetric
  if before = some entry.raw then none
  else
    some
      { elementId := entry.element.identifier
        metric := metric
        chartKind := .histogram
        binCount := none
        size := 400
        format := .svg }

variable {σ : Type} {t : Tracer σ} {w : World σ} {m m' : Model} {looks : List (Hover.Look σ)}

/-- What holds of the pointer's part of a model after the looks at the elements that it shows. -/
structure Attentive (t : Tracer σ) (looks : List (Hover.Look σ)) (m : Model) : Prop where
  named : ∀ e ∈ m.entries,
    trimBlank e.raw = e.raw ∧ Element.ofIdentifier? e.raw = some e.element
  seen : ∀ l ∈ looks, l.seen = l.target
  kept : Hover.Kept t looks m.hover
  error : ∀ text, m.hoverError = some text ↔
    ∃ first e, Hover.BlockStart looks first ∧ first.Fails t e ∧ text = e.message
  apart : m.hoverError ≠ none → m.hover.managed = false ∧ m.hover.artifact = none
  blank : m.entries = [] → m.hover = {}

/-- Windows and the text of the search are no matter of the pointer. -/
theorem Attentive.congr (h : m.Attentive t looks) (he : m'.entries = m.entries)
    (hh : m'.hover = m.hover) (hr : m'.hoverError = m.hoverError) : m'.Attentive t looks := by
  constructor
  · exact he ▸ h.named
  · exact h.seen
  · exact hh ▸ h.kept
  · exact hr ▸ h.error
  · rw [hr, hh]
    exact h.apart
  · rw [he, hh]
    exact h.blank

theorem not_blockStart_nil (first : Hover.Look σ) : ¬ Hover.BlockStart [] first := by
  rintro ⟨before, rest, he, -, -⟩
  simp at he

theorem attentive_fresh {text : String} (he : m.entries = Entry.scan text) (hh : m.hover = {})
    (hr : m.hoverError = none) : m.Attentive t [] := by
  constructor
  · rw [he]
    exact fun e hm => Entry.names_of_mem_scan hm
  · simp
  · rw [hh]
    exact Hover.kept_start t
  · intro text
    simp [hr, not_blockStart_nil]
  · exact fun hn => absurd hr hn
  · exact fun _ => hh

theorem Attentive.look (h : m.Attentive t looks) (l : Hover.Look σ) (hs : l.seen = l.target)
    (hb : m.entries = [] → l.target = none) :
    (m.look l.target t l.world).1.Attentive t (looks ++ [l]) := by
  have hk := h.kept.look l
  have hc := Hover.look_comes t m.hover l
  have ht := h.kept.target
  have hrest : m.entries = [] → l.seen = m.hover.target := by
    intro he
    rw [hs, hb he, h.blank he]
  have hseen : ∀ x ∈ looks ++ [l], x.seen = x.target := by
    intro x hx
    rcases List.mem_append.mp hx with hx | hx
    · exact h.seen x hx
    · rw [List.mem_singleton.mp hx, hs]
  unfold Model.look
  generalize m.hover.look l.target t l.world = s at hc hk
  -- unless the target is the same, this look begins the block whose failure is kept
  cases hc with
  | same hl =>
    refine ⟨h.named, hseen, hk, ?_, h.apart, h.blank⟩
    intro text
    simp only [Hover.blockStart_append_iff, if_pos (hl.trans ht)]
    exact h.error text
  | hidden hl hr =>
    refine ⟨h.named, hseen, hk, ?_, fun hn => absurd rfl hn, fun he => absurd (hrest he) hl⟩
    intro text
    simp [Hover.blockStart_append_iff, ht ▸ hl, Hover.Look.not_fails hr]
  | drawn hl hr hp hw =>
    refine ⟨h.named, hseen, hk, ?_, fun hn => absurd rfl hn, fun he => absurd (hrest he) hl⟩
    intro text
    simp [Hover.blockStart_append_iff, ht ▸ hl, Hover.Look.fails_iff hr, hp]
  | failed hl hr he hw =>
    refine ⟨h.named, hseen, hk, ?_, fun _ => ⟨rfl, rfl⟩, fun he => absurd (hrest he) hl⟩
    intro text
    simp [Hover.blockStart_append_iff, ht ▸ hl, Hover.Look.fails_iff hr, he, eq_comm]

theorem look_same {target : Option String} (h : m.hover.target = target.map trimBlank) :
    m.look target t w = (m, w) := by
  have hl : m.hover.look target t w = ⟨m.hover, .ok .unchanged, w⟩ := if_pos h
  rw [Model.look, hl]

theorem hovered?_eq_none (he : m.entries = []) (input : ModelInput) : m.hovered? input = none := by
  simp [hovered?, row?, visible, he]

theorem mem_of_hovered? {input : ModelInput} {e : Entry} (h : m.hovered? input = some e) :
    e ∈ m.entries := by
  rw [hovered?, row?] at h
  obtain ⟨k, -, hk⟩ := Option.bind_eq_some_iff.mp h
  obtain ⟨i, -, hi⟩ := List.mem_filterMap.mp (List.mem_of_getElem? hk)
  exact List.mem_of_getElem? hi

/-- A frame looks at the pointer first; what follows is no matter of the pointer. -/
theorem frame_looks (input : ModelInput) (hb : m.entries = [] → m.hover = {}) :
    let looked := (m.look ((m.hovered? input).map Entry.raw) t w).1
    let after := (m.frame input t w).1
    after.entries = m.entries ∧ after.hover = looked.hover ∧ after.hoverError = looked.hoverError := by
  intro looked after
  by_cases he : m.entries = []
  -- an empty list is not looked at, and a look at it would change nothing
  · have hn : looked = m := by
      have hl : m.look ((m.hovered? input).map Entry.raw) t w = (m, w) := by
        apply look_same
        rw [hovered?_eq_none he, hb he]
        rfl
      exact congrArg Prod.fst hl
    simp [after, frame, frameElements, he, hn]
  · simp only [after, frame, frameElements, if_neg he]
    split <;> exact ⟨rfl, rfl, rfl⟩

theorem search_frame (m : Model) (input : ModelInput) :
    (m.frame input t w).1.search = input.search.getD m.search := by
  simp only [frame, frameElements]
  split
  · rfl
  · split <;> rfl

/-- Without a new text in the search, a row has the entry that it had in the frame before. -/
theorem hovered?_frame (hb : m.entries = [] → m.hover = {}) {input next : ModelInput}
    (hs : next.search = none) (hr : next.hoveredRow = input.hoveredRow) :
    (m.frame input t w).1.hovered? next = m.hovered? input := by
  obtain ⟨he, -⟩ := frame_looks (t := t) (w := w) input hb
  simp only [hovered?, row?, visible, he, search_frame, hs, hr, Option.getD_none]

theorem Attentive.frame (h : m.Attentive t looks) (input : ModelInput) (w : World σ) :
    (m.frame input t w).1.Attentive t
      (looks ++ [⟨(m.hovered? input).map Entry.raw, w⟩]) := by
  obtain ⟨he, hh, hr⟩ := frame_looks (t := t) (w := w) input h.blank
  refine (h.look ⟨(m.hovered? input).map Entry.raw, w⟩ ?_ ?_).congr he hh hr
  · cases hm : m.hovered? input with
    | none => rfl
    | some e =>
      rw [Hover.Look.seen, Option.map_some, Option.map_some, (h.named e (mem_of_hovered? hm)).1]
  · intro hn
    rw [hovered?_eq_none hn]
    rfl

/-- The chart due is the one that a frame asks for. -/
theorem Attentive.tooltip?_eq (h : m.Attentive t looks) (input : ModelInput) :
    m.tooltip? m.hover.target input = m.pointed? input := by
  have hp : m.pointed? input = if m.entries = [] ∨
      ((m.hovered? input).map Entry.raw).map trimBlank = m.hover.target then none
    else Hover.request? (((m.hovered? input).map Entry.raw).map trimBlank) := rfl
  rw [hp]
  cases hm : m.hovered? input with
  | none => simp [tooltip?, hm, Hover.request?]
  | some e =>
    obtain ⟨hr, he⟩ := h.named e (mem_of_hovered? hm)
    have hn : m.entries ≠ [] := List.ne_nil_of_mem (mem_of_hovered? hm)
    rw [Option.map_some, Option.map_some, hr, Hover.request?_of_element he]
    cases hd : e.element.defaultMetric with
    | none => simp [tooltip?, hm, hd, View.request?, View.start]
    | some metric =>
      by_cases hb : m.hover.target = some e.raw
      · simp [tooltip?, hm, hd, hb]
      · rw [if_neg (not_or.mpr ⟨hn, Ne.symm hb⟩)]
        simp [tooltip?, hm, hd, hb, View.request?, View.start, tooltipChartSize, OutputFormat.default]

/-- Of the calls that a frame makes, the chart due is the only one for a tooltip. -/
theorem Attentive.frame_calls (h : m.Attentive t looks) (input : ModelInput) (w : World σ) :
    ∃ new, (m.frame input t w).2.calls = w.calls ++ new ∧ new.filter TracerCall.isTooltip =
      ((m.tooltip? m.hover.target input).map TracerCall.render).toList := by
  rw [h.tooltip?_eq]
  exact ⟨_, m.calls_frame input w, m.tooltips_errands input w⟩

end Model

end TraceViewer
