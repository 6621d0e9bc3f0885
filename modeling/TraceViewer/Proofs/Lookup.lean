namespace TraceViewer

variable {α β : Type} [BEq α] [LawfulBEq α] {pairs pairs' more : List (α × β)} {key : α} {value : β}

theorem lookup_eq_some_iff_mem (hn : (pairs.map Prod.fst).Nodup) :
    pairs.lookup key = some value ↔ (key, value) ∈ pairs := by
  rw [List.lookup_eq_some_iff]
  constructor
  · rintro ⟨before, after, rfl, -⟩
    simp
  · intro hm
    obtain ⟨before, after, rfl⟩ := List.append_of_mem hm
    refine ⟨before, after, rfl, fun p hp => ?_⟩
    rw [List.map_append, List.map_cons, List.nodup_append] at hn
    simpa using (hn.2.2 p.1 (List.mem_map_of_mem hp) key List.mem_cons_self).symm

/-- The order of pairs whose keys differ makes no difference to what is looked up. -/
theorem lookup_perm (hp : pairs'.Perm pairs) (hn : (pairs.map Prod.fst).Nodup) (key : α) :
    pairs'.lookup key = pairs.lookup key := by
  have hn' : (pairs'.map Prod.fst).Nodup := (hp.map Prod.fst).nodup_iff.mpr hn
  ext value
  rw [lookup_eq_some_iff_mem hn', lookup_eq_some_iff_mem hn, hp.mem_iff]

theorem lookup_eq_none_iff_not_mem : pairs.lookup key = none ↔ key ∉ pairs.map Prod.fst := by
  simp only [List.lookup_eq_none_iff, bne_iff_ne, List.mem_map, not_exists, not_and]
  exact forall₂_congr fun p _ => ne_comm

/-- Pairs behind others are not seen if their keys occur before them. -/
theorem lookup_append_hidden (h : ∀ p ∈ more, p.1 ∈ pairs.map Prod.fst) (key : α) :
    (pairs ++ more).lookup key = pairs.lookup key := by
  rw [List.lookup_append]
  cases hl : pairs.lookup key with
  | some value => rfl
  | none =>
    have hk : key ∉ more.map Prod.fst := by
      intro hm
      obtain ⟨p, hp, rfl⟩ := List.mem_map.mp hm
      exact lookup_eq_none_iff_not_mem.mp hl (h p hp)
    rw [lookup_eq_none_iff_not_mem.mpr hk, Option.or_none]

end TraceViewer
