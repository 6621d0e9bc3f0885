import TraceViewer.Proofs.Graph.Delimiters

namespace TraceViewer

namespace Quoted

/-- Writes a carriage return before each line feed. -/
def returned (cs : List Char) : List Char :=
  cs.flatMap fun c => if c = '\n' then ['\r', '\n'] else [c]

/-- A text with the other kind of line ends: each line feed has a carriage return before it. -/
def withReturns (text : String) : String :=
  String.ofList (returned text.toList)

/-- The place between two parts of a text is within a quoted value: one is open there and closed
later. -/
def Enclosed (before after : String) : Prop :=
  ¬Closed before ∧ ∃ rest last, after = rest ++ last ∧ Closed (before ++ rest)

/-- A line ends within a quoted value only if a backslash continues the value. -/
def LinesContinued (text : String) : Prop :=
  ∀ before after, text = before ++ "\n" ++ after → Enclosed before ("\n" ++ after) →
    before.toList.getLast? = some '\\'

/-- Two readers at the same kind of place, with whatever text they have met. -/
inductive Alike : State → State → Prop where
  | outside : Alike .outside .outside
  | inside (text text' : String) : Alike (.inside text) (.inside text')
  | escaped (text text' : String) : Alike (.escaped text) (.escaped text')
  | continued (text text' : String) : Alike (.continued text) (.continued text')

theorem Alike.refl (s : State) : Alike s s := by
  cases s <;> constructor

theorem insideStep_alike (text text' : String) (c : Char) :
    ((insideStep text c).1 = none ↔ (insideStep text' c).1 = none) ∧
      Alike (insideStep text c).2 (insideStep text' c).2 := by
  unfold insideStep
  split
  · exact ⟨by simp, .outside⟩
  split
  · exact ⟨Iff.rfl, .escaped _ _⟩
  · exact ⟨Iff.rfl, .inside _ _⟩

/-- A character that both readers meet closes a value for both or for neither. -/
theorem Alike.step {s s' : State} (h : Alike s s') (c : Char) :
    ((step s c).1 = none ↔ (step s' c).1 = none) ∧ Alike (step s c).2 (step s' c).2 := by
  cases h with
  | outside => exact ⟨Iff.rfl, .refl _⟩
  | inside text text' => exact insideStep_alike text text' c
  | escaped text text' =>
    simp only [Quoted.step]
    split
    · exact ⟨Iff.rfl, .inside _ _⟩
    split
    · exact ⟨Iff.rfl, .inside _ _⟩
    split
    · exact ⟨Iff.rfl, .continued _ _⟩
    · exact insideStep_alike _ _ c
  | continued text text' =>
    simp only [Quoted.step]
    split
    · exact ⟨Iff.rfl, .inside _ _⟩
    · exact insideStep_alike _ _ c

/-- No line end closes a value, and after either kind readers are alike. -/
theorem Alike.lineEnd {s s' : State} (h : Alike s s') :
    (Quoted.step s '\n').1 = none ∧ valuesFrom s' ['\r', '\n'] = [] ∧
      Alike (Quoted.step s '\n').2 (stateAfter s' ['\r', '\n']) := by
  cases h with
  | outside => exact ⟨rfl, rfl, .outside⟩
  | inside text text' => exact ⟨rfl, rfl, .inside _ _⟩
  | escaped text text' => exact ⟨rfl, rfl, .inside _ _⟩
  | continued text text' => exact ⟨rfl, rfl, .inside _ _⟩

theorem returned_lineEnd (cs : List Char) : returned ('\n' :: cs) = ['\r', '\n'] ++ returned cs :=
  rfl

theorem returned_cons {c : Char} (hc : c ≠ '\n') (cs : List Char) :
    returned (c :: cs) = c :: returned cs := by
  simp [returned, hc]

theorem valuesFrom_cons_eq_nil_iff {s : State} {c : Char} {cs : List Char} :
    valuesFrom s (c :: cs) = [] ↔ (step s c).1 = none ∧ valuesFrom (step s c).2 cs = [] := by
  rw [valuesFrom, List.append_eq_nil_iff, Option.toList_eq_nil_iff]

/-- What is left open stays open, whatever the line ends put into it. -/
theorem Alike.unclosed {s s' : State} (h : Alike s s') {cs : List Char}
    (hcs : valuesFrom s cs = []) : valuesFrom s' (returned cs) = [] := by
  induction cs generalizing s s' with
  | nil => rfl
  | cons c cs ih =>
    obtain ⟨hn, hrest⟩ := valuesFrom_cons_eq_nil_iff.mp hcs
    by_cases hc : c = '\n'
    · subst hc
      obtain ⟨-, hv, ha⟩ := h.lineEnd
      rw [returned_lineEnd, valuesFrom_append, hv, ih ha hrest, List.append_nil]
    · obtain ⟨hi, ha⟩ := h.step c
      rw [returned_cons hc]
      exact valuesFrom_cons_eq_nil_iff.mpr ⟨hi.mp hn, ih ha hrest⟩

/-- A line end in what is still to be read, within a value that is closed later, is one that a
backslash has made the reader wait for. -/
def Continues (s : State) (cs : List Char) : Prop :=
  ∀ before after, cs = before ++ '\n' :: after → stateAfter s before ≠ .outside →
    valuesFrom (stateAfter s before) ('\n' :: after) ≠ [] →
    ∃ text, stateAfter s before = .escaped text

theorem Continues.tail {s : State} {c : Char} {cs : List Char} (h : Continues s (c :: cs)) :
    Continues (step s c).2 cs :=
  fun before after he => h (c :: before) after (congrArg (List.cons c) he)

/-- With either kind of line ends a reader meets the same values. -/
theorem valuesFrom_returned {s : State} {cs : List Char} (h : Continues s cs)
    (hr : '\r' ∉ cs) : valuesFrom s (returned cs) = valuesFrom s cs := by
  induction cs generalizing s with
  | nil => rfl
  | cons c cs ih =>
    have hrest := ih h.tail fun hm => hr (List.mem_cons_of_mem c hm)
    by_cases hc : c = '\n'
    · subst hc
      by_cases hv : valuesFrom s ('\n' :: cs) = []
      · rw [hv, (Alike.refl s).unclosed hv]
      by_cases ho : s = .outside
      · subst ho
        exact hrest
      · obtain ⟨text, ht⟩ := h [] cs rfl ho hv
        obtain rfl : s = .escaped text := ht
        exact hrest
    · rw [returned_cons hc, valuesFrom, valuesFrom, hrest]

theorem outside_of_insideStep {text value : String} {c : Char}
    (h : (insideStep text c).1 = some value) : (insideStep text c).2 = .outside := by
  unfold insideStep at h ⊢
  split at h
  · rw [if_pos (by assumption)]
  split at h <;> cases h

/-- A character that puts out a value ends it. -/
theorem outside_of_value {s : State} {c : Char} {value : String} (h : (step s c).1 = some value) :
    (step s c).2 = .outside := by
  cases s with
  | outside => cases h
  | inside text => exact outside_of_insideStep h
  | escaped text =>
    simp only [step] at h ⊢
    split at h
    · cases h
    split at h
    · cases h
    split at h
    · cases h
    · simp only [*, if_false]
      exact outside_of_insideStep h
  | continued text =>
    simp only [step] at h ⊢
    split at h
    · cases h
    · simp only [*, if_false]
      exact outside_of_insideStep h

/-- A value that is put out has been closed. -/
theorem exists_closing {s : State} {cs : List Char} (h : valuesFrom s cs ≠ []) :
    ∃ rest last, cs = rest ++ last ∧ stateAfter s rest = .outside := by
  induction cs generalizing s with
  | nil => exact absurd rfl h
  | cons c cs ih =>
    cases hn : (step s c).1 with
    | none =>
      obtain ⟨rest, last, rfl, ho⟩ := ih fun hv => h (valuesFrom_cons_eq_nil_iff.mpr ⟨hn, hv⟩)
      exact ⟨c :: rest, last, rfl, ho⟩
    | some value => exact ⟨[c], cs, rfl, outside_of_value hn⟩

/-- After a backslash a reader waits, or is outside any value. -/
theorem escaped_of_getLast? {before : List Char} (hl : before.getLast? = some '\\')
    (ho : stateAfter .outside before ≠ .outside) :
    ∃ text, stateAfter .outside before = .escaped text := by
  obtain ⟨start, rfl⟩ := List.getLast?_eq_some_iff.mp hl
  refine (escaped_iff ho).mpr ?_
  simp [backslashesAtEnd_concat]

theorem LinesContinued.continues {text : String} (h : LinesContinued text) :
    Continues .outside text.toList := by
  intro before after he ho hv
  obtain ⟨rest, last, hrest, hclosed⟩ := exists_closing hv
  have htext : text = String.ofList before ++ "\n" ++ String.ofList after := by
    simp [← String.toList_inj, he]
  have hlast : "\n" ++ String.ofList after = String.ofList rest ++ String.ofList last := by
    simp [← String.toList_inj, hrest]
  have hin : Enclosed (String.ofList before) ("\n" ++ String.ofList after) := by
    refine ⟨by simpa [Closed] using ho, _, _, hlast, ?_⟩
    simpa [Closed, stateAfter_append] using hclosed
  exact escaped_of_getLast? (by simpa using h _ _ htext hin) ho

theorem values_withReturns {text : String} (hr : '\r' ∉ text.toList) (h : LinesContinued text) :
    values (withReturns text) = values text := by
  rw [values, withReturns, String.toList_ofList, valuesFrom_returned h.continues hr, values]

end Quoted

namespace Entry
open Quoted

/-- A graph description whose values continue their lines says the same with either kind of line
ends. -/
theorem scan_withReturns {text : String} (hr : '\r' ∉ text.toList) (h : LinesContinued text) :
    Quoted.values (withReturns text) = Quoted.values text ∧
      scan (withReturns text) = scan text := by
  have hv := values_withReturns hr h
  exact ⟨hv, by rw [scan_eq_named, scan_eq_named, hv]⟩

theorem scan_withReturns_of_edge :
    let text := "a [label=\"x\\\\\n\",\nURL=\"r2ta-edge://a\\\nb\"];\n\"c"
    '\r' ∉ text.toList ∧ LinesContinued text ∧
      Quoted.values (withReturns text) = ["x\\", "r2ta-edge://ab"] ∧
      scan (withReturns text) = scan text := by
  intro text
  have hr : '\r' ∉ text.toList := by decide
  have hends : ∀ before ∈ text.toList.inits, before ++ ['\n'] ∈ text.toList.inits →
      stateAfter .outside before ≠ .outside → before.getLast? = some '\\' := by decide +kernel
  have hl : LinesContinued text := by
    intro before after he hin
    exact of_inits hends _ after.toList (by simp [he]) hin.1
  obtain ⟨hv, hs⟩ := scan_withReturns hr hl
  refine ⟨hr, hl, ?_, hs⟩
  rw [hv]
  decide +kernel

end Entry

end TraceViewer
