import Mathlib.Data.List.Induction
import TraceViewer.Proofs.Graph.Entries

namespace TraceViewer

namespace Quoted

/-- A text at whose end a reader is outside any quoted value. -/
def Closed (text : String) : Prop :=
  stateAfter .outside text.toList = .outside

theorem values_append (a b : String) :
    values (a ++ b) = values a ++ valuesFrom (stateAfter .outside a.toList) b.toList := by
  rw [values, String.toList_append, valuesFrom_append, values]

/-- Within a value, a quote ends it or two quotes put the first of them into it. -/
theorem outside_of_quotes {s : State} (hq : valuesFrom s ['"'] = [])
    (hqq : valuesFrom s ['"', '"'] = [""]) : s = .outside := by
  cases s with
  | outside => rfl
  | inside text => simp [valuesFrom, step, insideStep] at hq
  | escaped text => simp [valuesFrom, step, insideStep] at hqq
  | continued text => simp [valuesFrom, step, insideStep] at hq

/-- After a closed text, and only there, whatever follows is read as it is alone. -/
theorem closed_iff {a : String} : Closed a ↔ ∀ b, values (a ++ b) = values a ++ values b := by
  constructor
  · intro h b
    rw [values_append, h]
    rfl
  · intro h
    have hrest (b : String) : valuesFrom (stateAfter .outside a.toList) b.toList = values b := by
      have hb := h b
      rw [values_append] at hb
      exact List.append_cancel_left hb
    exact outside_of_quotes (hrest "\"") (hrest "\"\"")

end Quoted

namespace Entry

theorem ofRaw?_of_mem_named {values : List String} {entry : Entry} (h : entry ∈ named values) :
    ofRaw? entry.raw = some entry := by
  obtain ⟨raw, -, he⟩ := List.mem_filterMap.mp h
  rwa [raw_of_ofRaw? he]

/-- An element is left out if its text has been seen. -/
theorem filter_ofRaw? (raw : String) (seen : List String) :
    ((ofRaw? raw).toList.filter fun e => e.raw ∉ seen) =
      if raw ∈ seen then [] else (ofRaw? raw).toList := by
  cases h : ofRaw? raw with
  | none => simp
  | some e => by_cases hs : raw ∈ seen <;> simp [raw_of_ofRaw? h, hs]

/-- Further values add the elements that they name, less those named before. -/
theorem named_append_values (before more : List String) :
    named (before ++ more) =
      named before ++ (named more).filter fun e => e.raw ∉ before.map trimBlank := by
  induction more using List.reverseRecOn with
  | nil => simp [named]
  | append_singleton more value ih =>
    rw [← List.append_assoc, named_append, named_append, ih, List.map_append]
    by_cases hm : trimBlank value ∈ more.map trimBlank
    · rw [if_pos hm, if_pos (List.mem_append_right _ hm)]
    · rw [if_neg hm, List.filter_append, filter_ofRaw?, ← List.append_assoc]
      by_cases hb : trimBlank value ∈ before.map trimBlank
      · rw [if_pos hb, if_pos (List.mem_append_left _ hb), List.append_nil]
      · rw [if_neg hb, if_neg (by simp only [List.mem_append, hb, hm, or_self, not_false_eq_true])]

/-- Whether an element is listed already is told by the texts read, or by those that the list shows. -/
theorem raw_mem_named_iff {values : List String} {entry : Entry} (h : ofRaw? entry.raw = some entry) :
    entry.raw ∈ (named values).map raw ↔ entry.raw ∈ values.map trimBlank := by
  rw [← any_named_iff (by rw [h]; rfl), List.any_eq_true, List.mem_map]
  simp only [beq_iff_eq]

/-- Whatever is written after a text, its elements stay listed first. Where the text leaves no value
open, the rest adds just what it would list alone, less what is listed already. -/
theorem scan_joined (a b : String) :
    scan a <+: scan (a ++ b) ∧
    (Quoted.Closed a ↔
      ∀ more, Quoted.values (a ++ more) = Quoted.values a ++ Quoted.values more) ∧
    (Quoted.Closed a →
      scan (a ++ b) = scan a ++ (scan b).filter fun e => e.raw ∉ (scan a).map raw) := by
  simp only [scan_eq_named]
  refine ⟨?_, Quoted.closed_iff, ?_⟩
  · rw [Quoted.values_append, named_append_values]
    exact List.prefix_append _ _
  · intro h
    rw [Quoted.closed_iff.mp h, named_append_values]
    congr 1
    apply List.filter_congr
    intro e he
    exact decide_eq_decide.mpr (not_congr (raw_mem_named_iff (ofRaw?_of_mem_named he)).symm)

theorem scan_joined_again :
    let a := "a [URL=\"r2ta-node://node=/a\"; "
    let b := "href=\" r2ta-edge://b\", tooltip=\"r2ta-node://node=/a \"]"
    Quoted.Closed a ∧ (scan b).map raw = ["r2ta-edge://b", "r2ta-node://node=/a"] ∧
      (scan (a ++ b)).map raw = ["r2ta-node://node=/a", "r2ta-edge://b"] := by
  intro a b
  have hc : Quoted.Closed a := by
    unfold Quoted.Closed
    decide +kernel
  have hb : (scan b).map raw = ["r2ta-edge://b", "r2ta-node://node=/a"] := by decide +kernel
  refine ⟨hc, hb, ?_⟩
  rw [(scan_joined a b).2.2 hc]
  decide +kernel

end Entry

end TraceViewer
