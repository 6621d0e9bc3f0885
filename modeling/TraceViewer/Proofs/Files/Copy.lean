import TraceViewer.Proofs.Files.Places

namespace TraceViewer.Files

variable {fs fs' : Files} {source target : Path}

/-- A copy was made: the target has the bytes of the source, and nothing else is different. -/
structure Copied (fs fs' : Files) (source target : Path) : Prop where
  bytes : ∃ content, fs.read source = .ok content ∧ fs'.read target = .ok content
  kept : fs'.read source = fs.read source
  others : ∀ loc, fs.locate target ≠ .ok loc → fs'.node? loc = fs.node? loc

/-- The source of a copy was emptied, as it was the target too; nothing else is different. -/
structure Emptied (fs fs' : Files) (source target : Path) : Prop where
  same : fs.locate target = fs.locate source
  bytes : fs'.read target = .ok []
  others : ∀ loc, fs.locate target ≠ .ok loc → fs'.node? loc = fs.node? loc

/-- All that a copy leaves: the bytes read from the source, put where the target leads. -/
theorem copy_eq_ok (h : fs.copy source target = .ok fs') :
    ∃ origin content executable loc, fs.find? source = .ok (origin, .file content executable) ∧
      fs.locate target = .ok loc ∧ fs.node? loc ≠ some .directory ∧
      fs'.workingDir = fs.workingDir ∧ (∀ other, other ≠ loc → fs'.node? other = fs.node? other) ∧
      fs'.node? loc = some (.file (if loc = origin then [] else content) executable) := by
  simp only [copy, bind, Except.bind] at h
  split at h
  · cases h
  · rename_i found hf
    obtain ⟨origin, node⟩ := found
    cases node with
    | directory => cases h
    | file content executable =>
      dsimp only at h
      split at h
      · cases h
      · rename_i made hm
        obtain ⟨loc, emptied⟩ := made
        obtain rfl := Except.ok.inj h
        obtain ⟨hl, hne, hd, created, rfl⟩ := create_eq_ok hm
        have horigin := (find?_eq_ok_iff.mp hf).2
        refine ⟨origin, content, executable, loc, hf, hl, hd, rfl, ?_, ?_⟩
        · intro other ho
          rw [node?_put_of_ne ho, node?_put_of_ne ho]
        · rw [node?_put_self hne]
          by_cases ho : loc = origin
          · rw [if_pos ho, ← ho, contentAt, node?_put_self hne]
          · rw [if_neg ho, contentAt, node?_put_of_ne (Ne.symm ho), horigin]

/-- A copy that reports success was made, unless its target is the source itself. -/
theorem copied_or_emptied (h : fs.copy source target = .ok fs') :
    fs.locate target ≠ fs.locate source ∧ Copied fs fs' source target ∨
      Emptied fs fs' source target := by
  obtain ⟨origin, content, executable, loc, hf, hl, hd, hw, ho, hn⟩ := copy_eq_ok h
  obtain ⟨hs, hsource⟩ := find?_eq_ok_iff.mp hf
  -- a copy takes no directory away, so both paths still lead where they led
  have hdir (other : Location) (hother : fs.node? other = some .directory) :
      fs'.node? other = some .directory := by
    rw [ho other fun he => hd (he ▸ hother), hother]
  have hothers (other : Location) (hother : fs.locate target ≠ .ok other) :
      fs'.node? other = fs.node? other :=
    ho other fun he => hother (he ▸ hl)
  have htarget : fs'.read target = .ok (if loc = origin then [] else content) :=
    read_eq_ok_iff.mpr ⟨loc, executable, locate_mono hw hdir hl, hn⟩
  have hread : fs.read source = .ok content := read_eq_ok_iff.mpr ⟨origin, executable, hs, hsource⟩
  by_cases he : loc = origin
  · rw [if_pos he] at htarget
    exact .inr ⟨by rw [hl, hs, he], htarget, hothers⟩
  · rw [if_neg he] at htarget
    refine .inl ⟨fun hsame => he ?_, ⟨content, hread, htarget⟩, ?_, hothers⟩
    · rw [hl, hs] at hsame
      exact Except.ok.inj hsame
    · rw [hread]
      exact read_eq_ok_iff.mpr ⟨origin, executable, locate_mono hw hdir hs,
        (ho origin (Ne.symm he)).trans hsource⟩

/-- Why a copy cannot be made: the source is missing or no file, or the target cannot be opened. -/
inductive CopyFault (fs : Files) (source target : Path) : IoError → Prop where
  | noSource {e : IoError} (h : fs.find? source = .error e) : CopyFault fs source target e
  | sourceDirectory {loc : Location} (h : fs.find? source = .ok (loc, .directory)) :
      CopyFault fs source target .notARegularFile
  | target {content : List UInt8} {e : IoError} (hs : fs.read source = .ok content)
      (h : CreateFault fs target e) : CopyFault fs source target e

theorem copy_eq_error_iff {e : IoError} :
    fs.copy source target = .error e ↔ CopyFault fs source target e := by
  constructor
  · intro h
    simp only [copy, bind, Except.bind] at h
    split at h
    · rename_i hf
      cases h
      exact .noSource hf
    · rename_i found hf
      obtain ⟨loc, _ | ⟨content, executable⟩⟩ := found
      · cases h
        exact .sourceDirectory hf
      · have hs : fs.read source = .ok content :=
          read_eq_ok_iff.mpr ⟨loc, executable, find?_eq_ok_iff.mp hf⟩
        dsimp only at h
        split at h
        · rename_i hc
          cases h
          exact .target hs (create_eq_error_iff.mp hc)
        · cases h
  · rintro (hf | hf | ⟨hs, hc⟩)
    · simp only [copy, hf, bind, Except.bind]
    · simp only [copy, hf, bind, Except.bind]
    · obtain ⟨loc, executable, hl⟩ := read_eq_ok_iff.mp hs
      simp only [copy, find?_eq_ok_iff.mpr hl, create_eq_error_iff.mpr hc, bind, Except.bind]

end TraceViewer.Files
