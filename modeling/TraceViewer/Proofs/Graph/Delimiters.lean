import Mathlib.Algebra.Group.Nat.Even
import Mathlib.Data.List.Infix
import TraceViewer.Proofs.Graph.Document
import TraceViewer.Proofs.Graph.Joined

namespace TraceViewer

/-- The number of backslashes at the end of a text. -/
def backslashesAtEnd (cs : List Char) : Nat :=
  (cs.reverse.takeWhile (· == '\\')).length

theorem backslashesAtEnd_concat (cs : List Char) (c : Char) :
    backslashesAtEnd (cs ++ [c]) = if c = '\\' then backslashesAtEnd cs + 1 else 0 := by
  by_cases hc : c = '\\' <;> simp [backslashesAtEnd, hc]

/-- What is checked of the beginnings of a text holds wherever the text is split. -/
theorem of_inits {p : List Char → Prop} {c : Char} {text : List Char}
    (h : ∀ start ∈ text.inits, start ++ [c] ∈ text.inits → p start) (before after : List Char)
    (he : text = before ++ c :: after) : p before := by
  have hp : before ++ [c] <+: text := ⟨after, by simp [he]⟩
  have hmem (start : List Char) (hs : start <+: text) : start ∈ text.inits :=
    (List.mem_inits start text).mpr hs
  exact h before (hmem _ ((List.prefix_append _ _).trans hp)) (hmem _ hp)

namespace Dot

/-- Where a reader of the graph language stands: outside any quoted value, within one, or there
after a backslash that belongs to the next character. -/
inductive State where
  | outside
  | inside
  | escaped
deriving DecidableEq

/-- Within a value a backslash and the character after it are a pair, a second backslash included. -/
def step : State → Char → State
  | .outside, c => if c = '"' then .inside else .outside
  | .inside, c => if c = '"' then .outside else if c = '\\' then .escaped else .inside
  | .escaped, _ => .inside

def stateAfter (cs : List Char) : State :=
  cs.foldl step .outside

/-- A text at whose end the graph language has no quoted value open. -/
def Closed (text : String) : Prop :=
  stateAfter text.toList = .outside

theorem stateAfter_concat (cs : List Char) (c : Char) :
    stateAfter (cs ++ [c]) = step (stateAfter cs) c := by
  simp [stateAfter]

/-- A backslash waits for the next character exactly if it is the last of an odd number. -/
theorem escaped_iff {cs : List Char} (h : stateAfter cs ≠ .outside) :
    stateAfter cs = .escaped ↔ ¬Even (backslashesAtEnd cs) := by
  induction cs using List.reverseRecOn with
  | nil => exact absurd rfl h
  | append_singleton cs c ih =>
    rw [stateAfter_concat] at h ⊢
    rw [backslashesAtEnd_concat]
    cases hs : stateAfter cs with
    | outside =>
      rw [hs] at h
      by_cases hq : c = '"'
      · subst hq
        simp [step]
      · simp [step, hq] at h
    | inside =>
      have he : Even (backslashesAtEnd cs) := by simpa [hs] using ih
      rw [hs] at h
      by_cases hq : c = '"'
      · simp [step, hq] at h
      by_cases hb : c = '\\'
      · subst hb
        simpa [step, Nat.even_add_one] using he
      · simp [step, hq, hb]
    | escaped =>
      have ho : ¬Even (backslashesAtEnd cs) := by simpa [hs] using ih
      by_cases hb : c = '\\'
      · simpa [step, hb, Nat.even_add_one] using ho
      · simp [step, hb]

/-- Within a value only a quote that follows no waiting backslash closes it. -/
theorem step_eq_outside_iff {s : State} (h : s ≠ .outside) (c : Char) :
    step s c = .outside ↔ c = '"' ∧ s ≠ .escaped := by
  cases s with
  | outside => exact absurd rfl h
  | inside => by_cases hq : c = '"' <;> by_cases hb : c = '\\' <;> simp [step, hq, hb]
  | escaped => simp [step]

/-- In the graph language a quote within a value closes it exactly if the number of backslashes
before it is even. -/
theorem closes_iff {cs : List Char} (h : stateAfter cs ≠ .outside) (c : Char) :
    stateAfter (cs ++ [c]) = .outside ↔ c = '"' ∧ Even (backslashesAtEnd cs) := by
  rw [stateAfter_concat, step_eq_outside_iff h, ne_eq, escaped_iff h, not_not]

end Dot

namespace Quoted

/-- Within a value a reader waits after a backslash and after no other character. -/
theorem escaped_step_iff {s : State} (h : s ≠ .outside) (c : Char) :
    (∃ text, (step s c).2 = .escaped text) ↔ c = '\\' := by
  have hin (text : String) : (∃ text', (insideStep text c).2 = .escaped text') ↔ c = '\\' := by
    by_cases hq : c = '"' <;> by_cases hb : c = '\\' <;> simp [insideStep, hq, hb]
  cases s with
  | outside => exact absurd rfl h
  | inside text => exact hin text
  | escaped text =>
    simp only [step]
    split
    · simp_all
    split
    · simp_all
    split
    · simp_all
    · exact hin _
  | continued text =>
    simp only [step]
    split
    · simp_all
    · exact hin _

theorem stateAfter_concat (s : State) (cs : List Char) (c : Char) :
    stateAfter s (cs ++ [c]) = (step (stateAfter s cs) c).2 := by
  simp [stateAfter]

/-- What is not within a value is no more so before a character that is no quote. -/
theorem step_outside {c : Char} (hc : c ≠ '"') : step .outside c = (none, .outside) := by
  simp [step, hc]

theorem escaped_iff {cs : List Char} (h : stateAfter .outside cs ≠ .outside) :
    (∃ text, stateAfter .outside cs = .escaped text) ↔ backslashesAtEnd cs ≠ 0 := by
  obtain rfl | ⟨start, c, rfl⟩ := List.eq_nil_or_concat' cs
  · exact absurd rfl h
  rw [stateAfter_concat] at h ⊢
  rw [backslashesAtEnd_concat]
  by_cases hs : stateAfter .outside start = .outside
  · by_cases hq : c = '"'
    · subst hq
      simp [hs, step]
    · rw [hs, step_outside hq] at h
      exact absurd rfl h
  · rw [escaped_step_iff hs]
    split <;> simp_all

/-- Within a value only a quote that follows no waiting backslash closes it. -/
theorem step_eq_outside_iff {s : State} (h : s ≠ .outside) (c : Char) :
    (step s c).2 = .outside ↔ c = '"' ∧ ¬∃ text, s = .escaped text := by
  have hin (text : String) : (insideStep text c).2 = .outside ↔ c = '"' := by
    by_cases hq : c = '"' <;> by_cases hb : c = '\\' <;> simp [insideStep, hq, hb]
  cases s with
  | outside => exact absurd rfl h
  | inside text => simp [step, hin]
  | escaped text =>
    simp only [step, State.escaped.injEq, exists_eq', not_true, and_false, iff_false]
    split
    · simp
    split
    · simp
    split
    · simp
    · simp_all
  | continued text =>
    simp only [step, reduceCtorEq, exists_false, not_false_eq_true, and_true]
    split
    · simp_all
    · exact hin text

/-- A quote within a value closes it exactly if there is no backslash before it. -/
theorem closes_iff {cs : List Char} (h : stateAfter .outside cs ≠ .outside) (c : Char) :
    stateAfter .outside (cs ++ [c]) = .outside ↔ c = '"' ∧ backslashesAtEnd cs = 0 := by
  rw [stateAfter_concat, step_eq_outside_iff h, escaped_iff h, not_not]

/-- A text is taken apart where the graph language takes it apart: at every place, a value is open in
the one reading exactly if it is in the other. -/
def DelimitedAsDot (text : String) : Prop :=
  ∀ before after, text = before ++ after → (Closed before ↔ Dot.Closed before)

/-- Outside a value both readings open one with a quote. -/
theorem opens_iff {cs : List Char} (h : stateAfter .outside cs = .outside)
    (hd : Dot.stateAfter cs = .outside) (c : Char) :
    stateAfter .outside (cs ++ [c]) = .outside ↔ Dot.stateAfter (cs ++ [c]) = .outside := by
  rw [stateAfter_concat, Dot.stateAfter_concat, h, hd]
  by_cases hq : c = '"' <;> simp [step, Dot.step, hq]

/-- The two readings part at the first quote that follows an even number of backslashes, not none. -/
theorem agree_of_quotes {cs : List Char}
    (hcs : ∀ start rest, cs = start ++ '"' :: rest → stateAfter .outside start ≠ .outside →
      backslashesAtEnd start = 0 ∨ ¬Even (backslashesAtEnd start)) :
    stateAfter .outside cs = .outside ↔ Dot.stateAfter cs = .outside := by
  induction cs using List.reverseRecOn with
  | nil => exact ⟨fun _ => rfl, fun _ => rfl⟩
  | append_singleton cs c ih =>
    have hagree := ih fun start rest he => hcs start (rest ++ [c]) (by simp [he])
    by_cases hs : stateAfter .outside cs = .outside
    · exact opens_iff hs (hagree.mp hs) c
    · rw [closes_iff hs, Dot.closes_iff (mt hagree.mpr hs)]
      refine and_congr_right fun hc => ?_
      subst hc
      obtain h0 | ho := hcs cs [] rfl hs
      · simp [h0]
      · have h0 : backslashesAtEnd cs ≠ 0 := fun h0 => ho (by simp [h0])
        simp only [h0, ho]

theorem closes_quote_iff {before : String} (h : ¬Closed before) :
    Closed (before ++ "\"") ↔ backslashesAtEnd before.toList = 0 := by
  simpa [Closed] using closes_iff h '"'

theorem dot_closes_quote_iff {before : String} (h : ¬Dot.Closed before) :
    Dot.Closed (before ++ "\"") ↔ Even (backslashesAtEnd before.toList) := by
  simpa [Dot.Closed] using Dot.closes_iff h '"'

theorem delimitedAsDot_iff {text : String} :
    DelimitedAsDot text ↔ ∀ before after, text = before ++ "\"" ++ after → ¬Closed before →
      backslashesAtEnd before.toList = 0 ∨ ¬Even (backslashesAtEnd before.toList) := by
  constructor
  · intro h before after he ho
    have hbefore := h before ("\"" ++ after) (by rw [he, String.append_assoc])
    have hquote := h (before ++ "\"") after he
    rw [closes_quote_iff ho, dot_closes_quote_iff (mt hbefore.mpr ho)] at hquote
    exact (Decidable.em _).imp_right (mt hquote.mpr)
  · intro h before after he
    apply agree_of_quotes
    intro start rest hs ho
    have hb : before = String.ofList start ++ "\"" ++ String.ofList rest := by
      simp [← String.toList_inj, hs]
    have hd := h (String.ofList start) (String.ofList rest ++ after)
      (by simp only [he, hb, String.append_assoc])
      (by rwa [Closed, String.toList_ofList])
    rwa [String.toList_ofList] at hd

/-- A value that is quoted where no other is open is read. -/
theorem Piece.mem_values (p : Piece) {before after : String} (h : Closed before) :
    p.value ∈ values (before ++ String.ofList p.chars ++ after) := by
  rw [String.append_assoc, values_append, h, String.toList_append, String.toList_ofList,
    p.valuesFrom_chars]
  simp

end Quoted

namespace Entry
open Quoted

theorem mem_scan_of_mem_values {text value : String} {entry : Entry}
    (hv : value ∈ Quoted.values text) (he : ofRaw? (trimBlank value) = some entry) :
    entry ∈ scan text := by
  rw [scan_eq_named, named]
  exact List.mem_filterMap.mpr ⟨_, List.mem_eraseDups.mpr (List.mem_map_of_mem hv), he⟩

/-- A quote closes a value if no backslash stands before it, while in the graph language the number
of backslashes before it is even. So a text is taken apart as the language does it unless a quote
within a value follows two backslashes, or four, and so on; and then all elements are found. -/
theorem scan_delimited (text : String) :
    (∀ before after, text = before ++ "\"" ++ after → ¬Closed before →
      (Closed (before ++ "\"") ↔ backslashesAtEnd before.toList = 0)) ∧
    (∀ before after, text = before ++ "\"" ++ after → ¬Dot.Closed before →
      (Dot.Closed (before ++ "\"") ↔ Even (backslashesAtEnd before.toList))) ∧
    (DelimitedAsDot text ↔ ∀ before after, text = before ++ "\"" ++ after → ¬Closed before →
      backslashesAtEnd before.toList = 0 ∨ ¬Even (backslashesAtEnd before.toList)) ∧
    (DelimitedAsDot text → ∀ (before : String) (piece : Piece) (after : String) (entry : Entry),
      text = before ++ String.ofList piece.chars ++ after → Dot.Closed before →
        ofRaw? (trimBlank piece.value) = some entry → entry ∈ scan text) := by
  refine ⟨fun _ _ _ => closes_quote_iff, fun _ _ _ => dot_closes_quote_iff, delimitedAsDot_iff, ?_⟩
  rintro h before piece after entry rfl hd he
  have hb : Closed before := (h before (String.ofList piece.chars ++ after)
    (by rw [String.append_assoc])).mpr hd
  exact mem_scan_of_mem_values (piece.mem_values hb) he

theorem scan_delimited_of_callback :
    let before := "a [label=\"C:\\x\\\\\\\"\""
    let piece : Piece :=
      ⟨", URL=", by decide, " r2ta-node://node=\"/a\"", .bare, by simp [Spelling.Admits]⟩
    let text := before ++ String.ofList piece.chars ++ "];"
    let entry : Entry := ⟨"r2ta-node://node=\"/a\"", "node=\"/a\"", "\"/a\"",
      ⟨"node=\"/a\"", .node, none⟩⟩
    DelimitedAsDot text ∧ Dot.Closed before ∧ ofRaw? (trimBlank piece.value) = some entry ∧
      entry ∈ scan text := by
  intro before piece text entry
  have hquotes : ∀ start ∈ text.toList.inits, start ++ ['"'] ∈ text.toList.inits →
      stateAfter .outside start ≠ .outside →
        backslashesAtEnd start = 0 ∨ ¬Even (backslashesAtEnd start) := by
    decide +kernel
  have hd : DelimitedAsDot text := by
    refine delimitedAsDot_iff.mpr fun start rest he => ?_
    exact of_inits hquotes _ rest.toList (by simp [he])
  have hb : Dot.Closed before := by
    unfold Dot.Closed
    decide +kernel
  have he : ofRaw? (trimBlank piece.value) = some entry := by decide +kernel
  exact ⟨hd, hb, he, (scan_delimited text).2.2.2 hd before piece "];" entry rfl hb he⟩

/-- The label ends in an escaped backslash. The quote after it closes the value in the graph
language but not here, and so the element quoted after it is lost. -/
theorem escaped_backslash_hides_element :
    let before := "a [label=\"C:\\\\"
    let piece : Piece :=
      ⟨", URL=", by decide, "r2ta-node://node=/a", .bare, by simp [Spelling.Admits]⟩
    let text := before ++ "\"" ++ String.ofList piece.chars ++ "];"
    ¬Closed before ∧ ¬Dot.Closed before ∧ backslashesAtEnd before.toList = 2 ∧
      ¬Closed (before ++ "\"") ∧ Dot.Closed (before ++ "\"") ∧
      (ofRaw? (trimBlank piece.value)).isSome ∧ scan text = [] := by
  unfold Closed Dot.Closed
  decide +kernel

end Entry

end TraceViewer
