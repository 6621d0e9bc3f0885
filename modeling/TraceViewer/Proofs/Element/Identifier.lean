import TraceViewer.Element.Identifier

namespace TraceViewer

theorem afterStart?_eq_some_iff [BEq α] [LawfulBEq α] {start whole rest : List α} :
    afterStart? start whole = some rest ↔ whole = start ++ rest := by
  induction start generalizing whole with
  | nil => simp [afterStart?]
  | cons x xs ih =>
    cases whole with
    | nil => simp [afterStart?]
    | cons y ys =>
      by_cases hxy : x = y
      · subst hxy
        simp [afterStart?, ih]
      · simp [afterStart?, hxy, Ne.symm hxy]

namespace ElementKind

theorem body?_eq_some_iff {kind : ElementKind} {raw body : String} :
    kind.body? raw = some body ↔ raw = kind.scheme ++ body := by
  simp only [body?, Option.map_eq_some_iff, afterStart?_eq_some_iff]
  constructor
  · rintro ⟨rest, hr, rfl⟩
    rw [← String.toList_inj, hr]
    simp
  · rintro rfl
    exact ⟨body.toList, by simp, by simp⟩

/-- The two schemes differ, so a text is an identifier of one kind at most. -/
theorem scheme_append_inj {kind kind' : ElementKind} {body body' : String}
    (h : kind.scheme ++ body = kind'.scheme ++ body') : kind = kind' ∧ body = body' := by
  rw [← String.toList_inj] at h
  cases kind <;> cases kind' <;> simp [scheme, String.toList_append] at h
  · exact ⟨rfl, String.toList_inj.mp h⟩
  · exact ⟨rfl, String.toList_inj.mp h⟩

theorem body?_scheme_append (kind kind' : ElementKind) (body : String) :
    kind.body? (kind'.scheme ++ body) = if kind = kind' then some body else none := by
  split
  · rename_i h
    rw [body?_eq_some_iff, h]
  · rename_i h
    rw [Option.eq_none_iff_forall_ne_some]
    intro body' hb
    exact h (scheme_append_inj (body?_eq_some_iff.mp hb)).1.symm

end ElementKind

namespace Element

theorem ofBody?_eq_some_iff {kind : ElementKind} {body : String} {e : Element} :
    ofBody? kind body = some e ↔
      isAllBlank body = false ∧ e = ⟨body, kind, NodeRole.detect body⟩ := by
  unfold ofBody?
  cases h : isAllBlank body <;> simp [eq_comm]

theorem ofIdentifier?_scheme_append (kind : ElementKind) (body : String) :
    ofIdentifier? (kind.scheme ++ body) = ofBody? kind body := by
  cases kind <;> simp [ofIdentifier?, ElementKind.body?_scheme_append]

/-- A text names an element exactly if it is a scheme followed by a body that is not blank. -/
theorem ofIdentifier?_eq_some_iff {raw : String} {e : Element} :
    ofIdentifier? raw = some e ↔ ∃ kind body, raw = kind.scheme ++ body ∧
      isAllBlank body = false ∧ e = ⟨body, kind, NodeRole.detect body⟩ := by
  constructor
  · intro h
    have hs : ∃ kind body, raw = ElementKind.scheme kind ++ body := by
      unfold ofIdentifier? at h
      split at h
      · rename_i body hb
        exact ⟨_, body, ElementKind.body?_eq_some_iff.mp hb⟩
      · rename_i body _ hb
        exact ⟨_, body, ElementKind.body?_eq_some_iff.mp hb⟩
      · cases h
    obtain ⟨kind, body, rfl⟩ := hs
    rw [ofIdentifier?_scheme_append, ofBody?_eq_some_iff] at h
    exact ⟨kind, body, rfl, h⟩
  · rintro ⟨kind, body, rfl, h⟩
    rw [ofIdentifier?_scheme_append, ofBody?_eq_some_iff]
    exact h

end Element

end TraceViewer
