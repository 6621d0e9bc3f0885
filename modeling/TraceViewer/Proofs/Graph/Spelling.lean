import Mathlib.Data.List.Chain
import TraceViewer.Graph.Quoted

namespace TraceViewer.Quoted

/-- How the backslashes of a value are written. -/
inductive Spelling where
  /-- Each followed by a continued line. -/
  | continued
  /-- As they are. -/
  | bare
deriving DecidableEq

namespace Spelling

def char (s : Spelling) (c : Char) : List Char :=
  if c = '"' then ['\\', '"']
  else if c = '\\' ∧ s = continued then ['\\', '\\', '\n']
  else [c]

def chars (s : Spelling) (v : List Char) : List Char :=
  v.flatMap s.char

/-- A backslash as it is must be followed, and not by a line end. -/
def Admits : Spelling → List Char → Prop
  | continued, _ => True
  | bare, v => v.getLast? ≠ some '\\' ∧ v.IsChain fun a b => a = '\\' → b ≠ '\n' ∧ b ≠ '\r'

theorem char_quote (s : Spelling) : s.char '"' = ['\\', '"'] :=
  rfl

theorem char_other {s : Spelling} {c : Char} (hq : c ≠ '"') (hb : c ≠ '\\') : s.char c = [c] := by
  simp [char, hq, hb]

theorem chars_cons (s : Spelling) (c : Char) (v : List Char) :
    s.chars (c :: v) = s.char c ++ s.chars v :=
  List.flatMap_cons

end Spelling

theorem push_append_ofList (text : String) (c : Char) (v : List Char) :
    text.push c ++ String.ofList v = text ++ String.ofList (c :: v) := by
  simp [← String.toList_inj]

/-- A gap without quotes closes nothing. -/
theorem valuesFrom_gap {gap : List Char} (h : '"' ∉ gap) (rest : List Char) :
    valuesFrom .outside (gap ++ rest) = valuesFrom .outside rest := by
  induction gap with
  | nil => rfl
  | cons c gap ih =>
    simp only [List.mem_cons, not_or] at h
    simp [valuesFrom, step, Ne.symm h.1, ih h.2]

theorem valuesFrom_quote (text : String) (rest : List Char) :
    valuesFrom (.inside text) ('\\' :: '"' :: rest) = valuesFrom (.inside (text.push '"')) rest := by
  simp [valuesFrom, step, insideStep]

theorem valuesFrom_char {c : Char} (hq : c ≠ '"') (hb : c ≠ '\\') (text : String)
    (rest : List Char) :
    valuesFrom (.inside text) (c :: rest) = valuesFrom (.inside (text.push c)) rest := by
  simp [valuesFrom, step, insideStep, hq, hb]

theorem valuesFrom_close (text : String) (rest : List Char) :
    valuesFrom (.inside text) ('"' :: rest) = text :: valuesFrom .outside rest := by
  simp [valuesFrom, step, insideStep]

/-- A backslash stands for itself before whatever is neither a quote nor a line end. -/
theorem valuesFrom_backslash {c : Char} (hq : c ≠ '"') (hn : c ≠ '\n') (hr : c ≠ '\r')
    (text : String) (rest : List Char) :
    valuesFrom (.inside text) ('\\' :: c :: rest) =
      valuesFrom (.inside (text.push '\\')) (c :: rest) := by
  simp [valuesFrom, step, insideStep, hq, hn, hr]

theorem valuesFrom_continued (text : String) (v rest : List Char) :
    valuesFrom (.inside text) (Spelling.continued.chars v ++ rest) =
      valuesFrom (.inside (text ++ String.ofList v)) rest := by
  induction v generalizing text with
  | nil => simp [Spelling.chars]
  | cons c v ih =>
    rw [Spelling.chars_cons, ← push_append_ofList, ← ih]
    by_cases hq : c = '"'
    · subst hq
      rw [Spelling.char_quote]
      exact valuesFrom_quote text _
    by_cases hb : c = '\\'
    · subst hb
      simp [Spelling.char, valuesFrom, step, insideStep]
    · rw [Spelling.char_other hq hb]
      exact valuesFrom_char hq hb text _

/-- Neither spelling begins a value with a quote, and with a line end only if the value does. -/
theorem Spelling.chars_head (s : Spelling) (c : Char) (v rest : List Char) :
    ∃ d tail, s.chars (c :: v) ++ rest = d :: tail ∧ d ≠ '"' ∧ (d = c ∨ d = '\\') := by
  rw [chars_cons]
  by_cases hq : c = '"'
  · subst hq
    exact ⟨'\\', '"' :: (s.chars v ++ rest), rfl, by decide, .inr rfl⟩
  by_cases hs : c = '\\' ∧ s = continued
  · refine ⟨'\\', '\\' :: '\n' :: (s.chars v ++ rest), ?_, by decide, .inr rfl⟩
    simp [char, hs]
  · exact ⟨c, s.chars v ++ rest, by simp [char, hq, hs], hq, .inl rfl⟩

theorem valuesFrom_bare {v : List Char} (hv : Spelling.bare.Admits v) (text : String)
    (rest : List Char) :
    valuesFrom (.inside text) (Spelling.bare.chars v ++ rest) =
      valuesFrom (.inside (text ++ String.ofList v)) rest := by
  induction v generalizing text with
  | nil => simp [Spelling.chars]
  | cons c v ih =>
    obtain ⟨hl, hc⟩ := hv
    have hv : Spelling.bare.Admits v := by
      refine ⟨?_, hc.tail⟩
      cases v with
      | nil => simp
      | cons d v => rwa [List.getLast?_cons_cons] at hl
    rw [← push_append_ofList, ← ih hv]
    by_cases hq : c = '"'
    · subst hq
      exact valuesFrom_quote text _
    by_cases hb : c = '\\'
    · subst hb
      cases v with
      | nil => simp at hl
      | cons d v =>
        obtain ⟨x, tail, he, hx, hd⟩ := Spelling.bare.chars_head d v rest
        obtain ⟨hn, hr⟩ := (List.isChain_cons_cons.mp hc).1 rfl
        rw [he]
        rw [Spelling.chars_cons, List.append_assoc, he]
        refine valuesFrom_backslash hx ?_ ?_ text tail
        · rcases hd with rfl | rfl
          · exact hn
          · decide
        · rcases hd with rfl | rfl
          · exact hr
          · decide
    · rw [Spelling.chars_cons, Spelling.char_other hq hb]
      exact valuesFrom_char hq hb text _

/-- Whichever way a value is spelled, it is read as it is. -/
theorem valuesFrom_chars {s : Spelling} {v : List Char} (hv : s.Admits v) (rest : List Char) :
    valuesFrom .outside ('"' :: s.chars v ++ '"' :: rest) =
      String.ofList v :: valuesFrom .outside rest := by
  have ho (tail : List Char) :
      valuesFrom .outside ('"' :: tail) = valuesFrom (.inside "") tail := by
    simp [valuesFrom, step]
  rw [List.cons_append, ho]
  cases s with
  | continued => rw [valuesFrom_continued, valuesFrom_close, String.empty_append]
  | bare => rw [valuesFrom_bare hv, valuesFrom_close, String.empty_append]

end TraceViewer.Quoted
