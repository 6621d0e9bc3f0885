import TraceViewer.Graph.Entry
import TraceViewer.Proofs.Element.Identifier

namespace TraceViewer.Entry

/-- The entry of a text tells the text itself and what its identifier says, and nothing else. -/
theorem ofRaw?_eq_some_iff {raw : String} {entry : Entry} :
    ofRaw? raw = some entry ↔ ∃ kind body, raw = ElementKind.scheme kind ++ body ∧
      isAllBlank body = false ∧ entry =
        { raw := raw
          title := displayTitle body
          label := shortLabel body
          element := ⟨body, kind, NodeRole.detect body⟩ } := by
  simp only [ofRaw?, Option.map_eq_some_iff, Element.ofIdentifier?_eq_some_iff]
  constructor
  · rintro ⟨e, ⟨kind, body, hr, hb, rfl⟩, rfl⟩
    exact ⟨kind, body, hr, hb, rfl⟩
  · rintro ⟨kind, body, hr, hb, rfl⟩
    exact ⟨_, ⟨kind, body, hr, hb, rfl⟩, rfl⟩

theorem raw_of_ofRaw? {raw : String} {entry : Entry} (h : ofRaw? raw = some entry) :
    entry.raw = raw := by
  obtain ⟨_, _, _, _, rfl⟩ := ofRaw?_eq_some_iff.mp h
  rfl

/-- The trimmed texts, each once and where it appears first, that name an element. -/
def named (values : List String) : List Entry :=
  (values.map trimBlank).eraseDups.filterMap ofRaw?

/-- Of the texts that name an element, those listed are those met so far. -/
theorem any_named_iff {values : List String} {raw : String} (h : (ofRaw? raw).isSome) :
    (named values).any (·.raw == raw) = true ↔ raw ∈ values.map trimBlank := by
  simp only [named, List.any_eq_true, List.mem_filterMap, beq_iff_eq]
  constructor
  · rintro ⟨entry, ⟨raw', hm, he⟩, rfl⟩
    rw [raw_of_ofRaw? he]
    exact List.mem_eraseDups.mp hm
  · intro hm
    obtain ⟨entry, he⟩ := Option.isSome_iff_exists.mp h
    exact ⟨entry, ⟨raw, List.mem_eraseDups.mpr hm, he⟩, raw_of_ofRaw? he⟩

theorem eraseDups_concat [BEq α] [LawfulBEq α] (as : List α) (a : α) :
    (as ++ [a]).eraseDups = if a ∈ as then as.eraseDups else as.eraseDups ++ [a] := by
  rw [List.eraseDups_append]
  by_cases h : a ∈ as <;> simp [List.removeAll, List.eraseDups_cons, h]

theorem named_append (values : List String) (value : String) :
    named (values ++ [value]) = if trimBlank value ∈ values.map trimBlank then named values
      else named values ++ (ofRaw? (trimBlank value)).toList := by
  rw [named, List.map_append, List.map_singleton, eraseDups_concat]
  split
  · rfl
  · rw [List.filterMap_append]
    cases hr : ofRaw? (trimBlank value) <;> simp [named, hr]

theorem addValue_named (values : List String) (value : String) :
    addValue (named values) value = named (values ++ [value]) := by
  rw [named_append]
  simp only [addValue]
  cases hr : ofRaw? (trimBlank value) with
  | none => simp
  | some entry =>
    have hi := @any_named_iff values (trimBlank value) (by rw [hr]; rfl)
    simp only [hi, Option.toList_some]

theorem scan_eq_named (text : String) : scan text = named (Quoted.values text) := by
  have h (values past : List String) :
      values.foldl addValue (named past) = named (past ++ values) := by
    induction values generalizing past with
    | nil => simp
    | cons value rest ih =>
      rw [List.foldl_cons, addValue_named, ih, List.append_assoc, List.singleton_append]
  exact h (Quoted.values text) []

end TraceViewer.Entry
