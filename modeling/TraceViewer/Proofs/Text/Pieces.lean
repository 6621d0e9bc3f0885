import TraceViewer.Text.FormPairs

namespace TraceViewer

/-- What stands between the ampersands of a text. -/
def pieces (s : String) : List String :=
  (s.toList.splitOn '&').map String.ofList

theorem intercalate_pieces (s : String) : "&".intercalate (pieces s) = s := by
  rw [← String.toList_inj, String.toList_intercalate, pieces, List.map_map]
  simp [Function.comp_def]

section Infix

variable {α : Type} {part before after : List α} {sep : α}

/-- What holds no separator does not span one. -/
theorem infix_append_cons_iff (h : sep ∉ part) :
    part <:+: before ++ sep :: after ↔ part <:+: before ∨ part <:+: after := by
  have hcons : part <:+: sep :: after ↔ part <:+: after := by
    refine ⟨fun hp => ?_, List.infix_cons⟩
    rcases List.infix_cons_iff.mp hp with hp | hp
    · rcases List.prefix_cons_iff.mp hp with rfl | ⟨rest, rfl, -⟩
      · exact List.nil_infix
      · exact absurd List.mem_cons_self h
    · exact hp
  rw [List.infix_append_iff, hcons]
  refine ⟨?_, fun hp => hp.imp_right .inl⟩
  rintro (hp | hp | ⟨first, rest, rfl, hf, hr⟩)
  · exact .inl hp
  · exact .inr hp
  · rcases List.prefix_cons_iff.mp hr with rfl | ⟨rest, rfl, -⟩
    · rw [List.append_nil]
      exact .inl hf.isInfix
    · exact absurd (List.mem_append_right first List.mem_cons_self) h

theorem infix_intercalate_iff (h : sep ∉ part) (hp : part ≠ []) (ls : List (List α)) :
    part <:+: [sep].intercalate ls ↔ ∃ l ∈ ls, part <:+: l := by
  induction ls with
  | nil => simp [hp]
  | cons l ls ih =>
    rcases Decidable.em (ls = []) with rfl | hl
    · simp
    · rw [List.intercalate_cons_of_ne_nil hl, List.append_assoc, List.singleton_append,
        infix_append_cons_iff h, ih]
      simp

end Infix

end TraceViewer
