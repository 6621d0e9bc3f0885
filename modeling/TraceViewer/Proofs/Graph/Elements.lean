import Mathlib.Data.List.Induction
import Mathlib.Data.List.Nodup
import TraceViewer.Proofs.Graph.Entries
import TraceViewer.Proofs.Interaction.Looks
import TraceViewer.Proofs.Interaction.Renders
import TraceViewer.Proofs.Text.Blank
import TraceViewer.Tracer.Script

namespace TraceViewer

/-- The text of an element is given back by its kind and its identifier. -/
theorem Element.raw_of_ofIdentifier? {raw : String} {e : Element} (h : ofIdentifier? raw = some e) :
    raw = e.kind.scheme ++ e.identifier := by
  obtain ⟨kind, body, hr, -, rfl⟩ := ofIdentifier?_eq_some_iff.mp h
  exact hr

theorem Element.ofIdentifier?_inj {raw raw' : String} {e : Element} (h : ofIdentifier? raw = some e)
    (h' : ofIdentifier? raw' = some e) : raw = raw' :=
  (raw_of_ofIdentifier? h).trans (raw_of_ofIdentifier? h').symm

/-- The chart with which an element is first shown, in some size. -/
def Element.firstChart (e : Element) (m : Metric) (size : Nat) : ChartRequest :=
  { elementId := e.identifier
    metric := m
    chartKind := .histogram
    binCount := none
    size := size
    format := .svg }

theorem View.request?_start (e : Element) :
    (start e).request? = e.defaultMetric.map fun m => e.firstChart m windowChartSize :=
  rfl

/-- A tooltip asks for the chart with which a window of the element opens, only smaller. -/
theorem Hover.request?_of_element {raw : String} {e : Element}
    (h : Element.ofIdentifier? raw = some e) :
    request? (some raw) = (View.start e).request?.map fun r => { r with size := tooltipChartSize } := by
  cases hm : e.defaultMetric <;> simp [request?, h, hm, View.request?, View.start]

namespace Entry

theorem nodup_eraseDups [BEq α] [LawfulBEq α] (as : List α) : as.eraseDups.Nodup := by
  induction as using List.reverseRecOn with
  | nil => simp
  | append_singleton as a ih =>
    rw [eraseDups_concat]
    split
    · exact ih
    · rename_i ha
      rw [List.nodup_append]
      refine ⟨ih, by simp, ?_⟩
      rintro x hx y hy rfl
      rw [List.mem_singleton] at hy
      exact ha (hy ▸ List.mem_eraseDups.mp hx)

theorem map_element_scan (text : String) :
    (scan text).map element =
      ((Quoted.values text).map trimBlank).eraseDups.filterMap Element.ofIdentifier? := by
  rw [scan_eq_named, named, List.map_filterMap]
  congr 1
  funext raw
  simp [ofRaw?, Function.comp_def]

/-- No element is listed twice. -/
theorem nodup_elements (text : String) : ((scan text).map element).Nodup := by
  rw [map_element_scan]
  refine (nodup_eraseDups _).filterMap ?_
  intro raw raw' e h h'
  exact Element.ofIdentifier?_inj h h'

/-- What the text of a listed entry says. -/
theorem names_of_mem_scan {text : String} {entry : Entry} (h : entry ∈ scan text) :
    trimBlank entry.raw = entry.raw ∧ Element.ofIdentifier? entry.raw = some entry.element := by
  rw [scan_eq_named, named] at h
  obtain ⟨raw, hm, he⟩ := List.mem_filterMap.mp h
  obtain ⟨value, -, rfl⟩ := List.mem_map.mp (List.mem_eraseDups.mp hm)
  rw [raw_of_ofRaw? he]
  obtain ⟨e, hi, rfl⟩ := Option.map_eq_some_iff.mp he
  exact ⟨trimBlank_trimBlank value, hi⟩

variable {σ : Type}

/-- Pointing at an element asks of the tracer what opening it does, but for the size. -/
theorem fresh_look_calls {raw before after : String} {e : Element} (t : Tracer σ) (w : World σ)
    (hr : trimBlank raw = raw) (he : Element.ofIdentifier? raw = some e)
    (hb : isAllBlank before = true) (ha : isAllBlank after = true) :
    (({} : Hover).look (some (before ++ raw ++ after)) t w).world.calls =
      w.calls ++ ((View.start e).request?.map fun r =>
        TracerCall.render { r with size := tooltipChartSize }).toList := by
  rw [Hover.look_calls, Option.map_some, trimBlank_pad hb ha, hr, if_neg (by simp),
    Hover.request?_of_element he, Option.map_map]
  rfl

/-- Pointing at a text and opening an element ask the tracer for the same chart in two sizes, or
both for nothing, since no metric is chosen yet. -/
inductive AskAlike (t : Tracer σ) (w : World σ) (pointed : String) (e : Element) : Prop where
  | bare (awaits : (View.openFor e t w).outcome = .ok .awaitingMetric)
      (metric : e.defaultMetric = none)
      (opened : (View.openFor e t w).world.calls = w.calls)
      (shown : (({} : Hover).look (some pointed) t w).world.calls = w.calls)
  | chart (m : Metric) (draws : (View.openFor e t w).outcome ≠ .ok .awaitingMetric)
      (metric : e.defaultMetric = some m)
      (opened : (View.openFor e t w).world.calls = w.calls ++ [.render (e.firstChart m 800)])
      (shown : (({} : Hover).look (some pointed) t w).world.calls =
        w.calls ++ [.render (e.firstChart m 400)])

theorem askAlike_padded {raw before after : String} {e : Element} (t : Tracer σ) (w : World σ)
    (hr : trimBlank raw = raw) (he : Element.ofIdentifier? raw = some e)
    (hb : isAllBlank before = true) (ha : isAllBlank after = true) :
    AskAlike t w (before ++ raw ++ after) e := by
  have hshown := fresh_look_calls t w hr he hb ha
  have hopened : (View.openFor e t w).world.calls = _ := View.render_calls (View.start e)
  have hawaits : (View.openFor e t w).outcome = .ok .awaitingMetric ↔ _ :=
    View.render_awaits_iff t w (View.start e)
  rw [View.request?_start] at hshown hopened hawaits
  cases hm : e.defaultMetric with
  | none =>
    rw [hm] at hshown hopened hawaits
    exact .bare (hawaits.mpr rfl) hm (hopened.trans (List.append_nil _))
      (hshown.trans (List.append_nil _))
  | some m =>
    rw [hm] at hshown hopened hawaits
    refine .chart m (fun h => ?_) hm hopened hshown
    cases hawaits.mp h

/-- Reading, pointing at and opening what a graph description names all mean the same element. -/
theorem scanned_entries_name_elements (text : String) :
    ((scan text).map element).Nodup ∧
    (∀ raw e, Element.ofIdentifier? raw = some e ↔ ∃ kind body, raw = ElementKind.scheme kind ++ body ∧
      isAllBlank body = false ∧ e = ⟨body, kind, NodeRole.detect body⟩) ∧
    (∀ raw raw' e, Element.ofIdentifier? raw = some e → Element.ofIdentifier? raw' = some e →
      raw = raw') ∧
    ∀ entry ∈ scan text,
      trimBlank entry.raw = entry.raw ∧
      entry.raw = entry.element.kind.scheme ++ entry.element.identifier ∧
      Element.ofIdentifier? entry.raw = some entry.element ∧
      ∀ before after : String, isAllBlank before = true → isAllBlank after = true →
        ∀ (t : Tracer σ) (w : World σ), AskAlike t w (before ++ entry.raw ++ after) entry.element := by
  refine ⟨nodup_elements text, fun _ _ => Element.ofIdentifier?_eq_some_iff,
    fun _ _ _ => Element.ofIdentifier?_inj, ?_⟩
  intro entry hentry
  obtain ⟨hr, he⟩ := names_of_mem_scan hentry
  exact ⟨hr, Element.raw_of_ofIdentifier? he, he, fun before after hb ha t w =>
    askAlike_padded t w hr he hb ha⟩

theorem scanned_entries_name_elements_of_timer :
    let text := "a [URL=\" r2ta-node://node=/a&interface_type=Timer\"];"
    let e : Element := ⟨"node=/a&interface_type=Timer", .node, some .timer⟩
    let raw := "r2ta-node://node=/a&interface_type=Timer"
    let entry : Entry := ⟨raw, "node=/a interface_type=Timer", "/a", e⟩
    let t := Script.tracer (.ofString "out")
    let world : World Script := { files := .empty [], memory := { replies := [] } }
    entry ∈ scan text ∧ isAllBlank "\t" = true ∧ isAllBlank "\n " = true ∧
      (({} : Hover).look (some ("\t" ++ entry.raw ++ "\n ")) t world).world.calls =
        world.calls ++ [.render ⟨e.identifier, .activationDelay, .histogram, none, 400, .svg⟩] := by
  intro text e raw entry t world
  have hm : entry ∈ scan text := by decide +kernel
  have hb : isAllBlank "\t" = true := by decide
  have ha : isAllBlank "\n " = true := by decide
  refine ⟨hm, hb, ha, ?_⟩
  obtain ⟨-, -, -, h⟩ := scanned_entries_name_elements text
  obtain ⟨-, -, -, h⟩ := h entry hm
  cases h "\t" "\n " hb ha t world with
  | bare _ metric => cases metric
  | chart m _ metric _ shown =>
    obtain rfl := Option.some.inj metric
    exact shown

end Entry

end TraceViewer
