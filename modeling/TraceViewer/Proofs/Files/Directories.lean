import TraceViewer.Proofs.Files.Places

namespace TraceViewer.Files

variable {fs fs' fs'' : Files} {p : Path} {loc : Location}

/-- Directories were made where nothing was, and all else is as it was. -/
structure Grown (fs fs' : Files) : Prop where
  workingDir : fs'.workingDir = fs.workingDir
  nodes : ∀ loc, fs'.node? loc = fs.node? loc ∨
    fs.node? loc = none ∧ fs'.node? loc = some .directory

namespace Grown

theorem refl (fs : Files) : Grown fs fs :=
  ⟨rfl, fun _ => .inl rfl⟩

theorem trans (h : Grown fs fs') (h' : Grown fs' fs'') : Grown fs fs'' := by
  refine ⟨h'.workingDir.trans h.workingDir, fun loc => ?_⟩
  rcases h.nodes loc with he | ⟨hn, hd⟩
  · rw [← he]
    exact h'.nodes loc
  · rcases h'.nodes loc with he | ⟨hn', -⟩
    · exact .inr ⟨hn, he.trans hd⟩
    · rw [hd] at hn'
      cases hn'

theorem directory (h : Grown fs fs') (hd : fs.node? loc = some .directory) :
    fs'.node? loc = some .directory := by
  rcases h.nodes loc with he | ⟨-, hn⟩
  · rw [he, hd]
  · exact hn

/-- Every file keeps its content, and none is added. -/
theorem file_iff (h : Grown fs fs') {content : List UInt8} {executable : Bool} :
    fs'.node? loc = some (.file content executable) ↔
      fs.node? loc = some (.file content executable) := by
  rcases h.nodes loc with he | ⟨hn, hd⟩
  · rw [he]
  · rw [hn, hd]
    simp

end Grown

theorem grown_put (hl : fs.node? loc = none) : Grown fs (fs.put loc .directory) := by
  have hne : loc ≠ [] := by
    rintro rfl
    simp [node?] at hl
  refine ⟨rfl, fun other => ?_⟩
  rcases Decidable.em (other = loc) with rfl | ho
  · exact .inr ⟨hl, node?_put_self hne fs .directory⟩
  · exact .inl (node?_put_of_ne ho fs .directory)

theorem makeDirectory_eq_ok (h : fs.makeDirectory p = .ok fs') : ∃ place,
    fs.place p = .ok place ∧ place.isReserved = false ∧ place.name.length ≤ nameLimit ∧
      fs.node? (place.directory ++ [place.name]) = none ∧
      fs' = fs.put (place.directory ++ [place.name]) .directory := by
  simp only [makeDirectory, bind, Except.bind] at h
  split at h
  · cases h
  · rename_i place hp
    split at h
    · cases h
    · rename_i hr
      split at h
      · cases h
      · rename_i hl
        split at h
        · cases h
        · rename_i hn
          cases h
          exact ⟨place, hp, by simpa using hr, by omega, hn, rfl⟩

theorem makeDirectory_grown (h : fs.makeDirectory p = .ok fs') : Grown fs fs' := by
  obtain ⟨place, -, -, -, hn, rfl⟩ := makeDirectory_eq_ok h
  exact grown_put hn

theorem makeDirectory_isDirectory (h : fs.makeDirectory p = .ok fs') :
    fs'.isDirectory p = true := by
  have hg := makeDirectory_grown h
  obtain ⟨place, hp, hr, hl, -, rfl⟩ := makeDirectory_eq_ok h
  have hmade : (fs.put (place.directory ++ [place.name]) .directory).node?
      (place.directory ++ [place.name]) = some .directory :=
    node?_put_self (by simp) fs .directory
  have hlocate := locate_place hp hr hl hg.workingDir (fun _ => hg.directory) fun _ => hmade
  rw [isDirectory, find?_eq_ok_iff.mpr ⟨hlocate, hmade⟩]

/-- Whether or not all of some paths can be made, no file is touched. -/
theorem makeAll_grown (fs : Files) (paths : List Path) : Grown fs (fs.makeAll paths).2 := by
  induction paths generalizing fs with
  | nil => exact .refl fs
  | cons p above ih =>
    rw [makeAll]
    split
    · exact .refl fs
    split
    · next hm => exact makeDirectory_grown hm
    · split
      · next hm => exact hm ▸ ih fs
      · next hm =>
        have hg := hm ▸ ih fs
        split
        · next hm' => exact hg.trans (makeDirectory_grown hm')
        · exact hg
    · exact .refl fs

theorem makeDirectories_grown (fs : Files) (p : Path) : Grown fs (fs.makeDirectories p).2 :=
  makeAll_grown fs p.ancestors

/-- What was made is there. For the empty path nothing is to be made. -/
theorem makeDirectories_eq_ok (h : fs.makeDirectories p = (.ok (), fs')) :
    p.bytes = [] ∧ fs' = fs ∨ fs'.isDirectory p = true := by
  rw [makeDirectories, Path.ancestors, makeAll] at h
  split at h
  · next hp =>
    cases h
    exact .inl ⟨hp, rfl⟩
  refine .inr ?_
  split at h
  · next hm =>
    cases h
    exact makeDirectory_isDirectory hm
  · split at h
    · cases h
    · split at h
      · next hm =>
        cases h
        exact makeDirectory_isDirectory hm
      · split at h <;> cases h
        assumption
  · split at h <;> cases h
    assumption

end TraceViewer.Files
