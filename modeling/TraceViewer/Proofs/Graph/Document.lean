import TraceViewer.Proofs.Graph.Entries
import TraceViewer.Proofs.Graph.Spelling

namespace TraceViewer

namespace Quoted

/-- A value as a document quotes it, after a gap that contains no quote. -/
structure Piece where
  gap : String
  gap_clear : '"' ∉ gap.toList
  value : String
  spelling : Spelling
  admits : spelling.Admits value.toList

namespace Piece

/-- The characters of a piece, the quotes around its value included. -/
def chars (p : Piece) : List Char :=
  p.gap.toList ++ ('"' :: p.spelling.chars p.value.toList ++ ['"'])

theorem valuesFrom_chars (p : Piece) (rest : List Char) :
    valuesFrom .outside (p.chars ++ rest) = p.value :: valuesFrom .outside rest := by
  have h := Quoted.valuesFrom_chars p.admits rest
  rw [String.ofList_toList] at h
  rw [← h, chars, List.append_assoc, valuesFrom_gap p.gap_clear]
  simp

end Piece

/-- Quoted values with gaps around them. -/
structure Document where
  pieces : List Piece
  last : String
  last_clear : '"' ∉ last.toList

namespace Document

def text (d : Document) : String :=
  String.ofList (d.pieces.flatMap Piece.chars ++ d.last.toList)

def values (d : Document) : List String :=
  d.pieces.map Piece.value

theorem valuesFrom_text (d : Document) (rest : List Char) :
    valuesFrom .outside (d.text.toList ++ rest) = d.values ++ valuesFrom .outside rest := by
  obtain ⟨pieces, last, hl⟩ := d
  simp only [text, values, String.toList_ofList, List.append_assoc]
  induction pieces with
  | nil => simp [valuesFrom_gap hl]
  | cons p pieces ih =>
    rw [List.flatMap_cons, List.append_assoc, Piece.valuesFrom_chars, ih]
    rfl

theorem values_text (d : Document) : Quoted.values d.text = d.values := by
  have h := d.valuesFrom_text []
  simpa [Quoted.values, valuesFrom] using h

end Document

/-- The rest of a text after an opening quote never closes it: each further quote directly follows
a backslash. -/
def Unclosed (rest : List Char) : Prop :=
  ('"' :: rest).IsChain fun a b => b = '"' → a = '\\'

/-- A reader within a value after the character `a`; a backslash has made it wait. -/
def Within (a : Char) : State → Prop
  | .outside => False
  | .escaped _ => True
  | _ => a ≠ '\\'

theorem within_insideStep {b : Char} (hb : b ≠ '"') (text : String) :
    (insideStep text b).1 = none ∧ Within b (insideStep text b).2 := by
  by_cases hs : b = '\\' <;> simp [insideStep, Within, hb, hs]

theorem within_step {a b : Char} {s : State} (hs : Within a s) (hb : b = '"' → a = '\\') :
    (step s b).1 = none ∧ Within b (step s b).2 := by
  cases s with
  | outside => exact hs.elim
  | inside text => exact within_insideStep (fun h => hs (hb h)) text
  | escaped text =>
    simp only [step]
    by_cases hq : b = '"'
    · simp [Within, hq]
    by_cases hn : b = '\n'
    · simp [Within, hn]
    by_cases hr : b = '\r'
    · simp [Within, hr]
    · rw [if_neg hq, if_neg hn, if_neg hr]
      exact within_insideStep hq _
  | continued text =>
    simp only [step]
    by_cases hn : b = '\n'
    · simp [Within, hn]
    · rw [if_neg hn]
      exact within_insideStep (fun h => hs (hb h)) text

theorem valuesFrom_unclosed {a : Char} {s : State} {rest : List Char} (hs : Within a s)
    (hc : (a :: rest).IsChain fun a b => b = '"' → a = '\\') : valuesFrom s rest = [] := by
  induction rest generalizing a s with
  | nil => rfl
  | cons b rest ih =>
    obtain ⟨hb, hc⟩ := List.isChain_cons_cons.mp hc
    obtain ⟨hn, hw⟩ := within_step hs hb
    simp [valuesFrom, hn, ih hw hc]

theorem Document.values_text_unclosed (d : Document) {rest : String} (h : Unclosed rest.toList) :
    Quoted.values (d.text ++ "\"" ++ rest) = d.values := by
  have ho : valuesFrom .outside ('"' :: rest.toList) = [] :=
    valuesFrom_unclosed (a := '"') (s := .inside "") (by simp [Within]) h
  have hv := d.valuesFrom_text ('"' :: rest.toList)
  rw [ho, List.append_nil] at hv
  simpa [Quoted.values] using hv

end Quoted

namespace Entry
open Quoted

/-- A document is read as the values that it was written from, and lists their elements. -/
theorem scan_document (d : Document) :
    Quoted.values d.text = d.values ∧
    scan d.text = (d.values.map trimBlank).eraseDups.filterMap ofRaw? ∧
    (∀ raw entry, ofRaw? raw = some entry ↔ ∃ kind body, raw = ElementKind.scheme kind ++ body ∧
      isAllBlank body = false ∧ entry =
        { raw := raw
          title := displayTitle body
          label := shortLabel body
          element := ⟨body, kind, NodeRole.detect body⟩ }) ∧
    ∀ rest : String, Unclosed rest.toList →
      Quoted.values (d.text ++ "\"" ++ rest) = d.values ∧
      scan (d.text ++ "\"" ++ rest) = scan d.text := by
  refine ⟨d.values_text, ?_, fun _ _ => ofRaw?_eq_some_iff, ?_⟩
  · rw [scan_eq_named, d.values_text, named]
  · intro rest hr
    have hv := d.values_text_unclosed hr
    exact ⟨hv, by rw [scan_eq_named, scan_eq_named, hv, d.values_text]⟩

theorem scan_document_node :
    let d : Document :=
      { pieces :=
          [⟨"a [label=", by decide, "tick\\", .continued, trivial⟩,
            ⟨", URL=", by decide, " r2ta-node://node=\"a\\b\"", .bare, by simp [Spelling.Admits]⟩]
        last := "];"
        last_clear := by decide }
    Unclosed "r2ta-edge://\\\"".toList ∧
      Quoted.values (d.text ++ "\"" ++ "r2ta-edge://\\\"") =
        ["tick\\", " r2ta-node://node=\"a\\b\""] ∧
      scan (d.text ++ "\"" ++ "r2ta-edge://\\\"") = scan d.text := by
  intro d
  have hu : Unclosed "r2ta-edge://\\\"".toList := by simp [Unclosed]
  exact ⟨hu, (scan_document d).2.2.2 _ hu⟩

end Entry

end TraceViewer
