import TraceViewer.Files.Store

namespace TraceViewer.Files

variable {fs fs' : Files} {p : Path} {loc : Location}

theorem requireDirectory_eq_ok_iff :
    fs.requireDirectory loc = .ok () ↔ fs.node? loc = some .directory := by
  unfold requireDirectory
  split <;> simp_all

/-- Where a piece leads from a directory. -/
def enter (loc : Location) (piece : Name) : Except IoError Location :=
  if Path.isIdle piece then .ok loc
  else if piece = Path.above then .ok loc.dropLast
  else if piece.length > nameLimit then .error .nameTooLong
  else .ok (loc ++ [piece])

theorem follow_cons (fs : Files) (start : Location) (piece : Name) (rest : List Name) :
    fs.follow start (piece :: rest) =
      (fs.requireDirectory start).bind fun _ =>
        (enter start piece).bind fun next => fs.follow next rest := by
  simp only [follow, enter]
  cases fs.requireDirectory start with
  | error e => rfl
  | ok u =>
    by_cases hi : Path.isIdle piece
    · simp [hi, Except.bind]
    by_cases ha : piece = Path.above
    · subst ha
      simp [hi, Except.bind]
    by_cases hl : piece.length > nameLimit <;> simp [hi, ha, hl, Except.bind]

theorem follow_cons_eq_ok_iff {start : Location} {piece : Name} {rest : List Name} :
    fs.follow start (piece :: rest) = .ok loc ↔ fs.node? start = some .directory ∧
      ∃ next, enter start piece = .ok next ∧ fs.follow next rest = .ok loc := by
  rw [follow_cons, ← requireDirectory_eq_ok_iff]
  cases fs.requireDirectory start <;> cases enter start piece <;> simp [Except.bind]

/-- Following pieces needs directories alone, so it leads to the same place where they all remain. -/
theorem follow_mono (hd : ∀ loc, fs.node? loc = some .directory → fs'.node? loc = some .directory)
    {pieces : List Name} {start : Location} (h : fs.follow start pieces = .ok loc) :
    fs'.follow start pieces = .ok loc := by
  induction pieces generalizing start with
  | nil => exact h
  | cons piece rest ih =>
    obtain ⟨hs, next, hn, hr⟩ := follow_cons_eq_ok_iff.mp h
    exact follow_cons_eq_ok_iff.mpr ⟨hd start hs, next, hn, ih hr⟩

theorem follow_append {first second : List Name} {start mid : Location}
    (hf : fs.follow start first = .ok mid) (hs : fs.follow mid second = .ok loc) :
    fs.follow start (first ++ second) = .ok loc := by
  induction first generalizing start with
  | nil =>
    cases hf
    exact hs
  | cons piece rest ih =>
    obtain ⟨hd, next, hn, hr⟩ := follow_cons_eq_ok_iff.mp hf
    exact follow_cons_eq_ok_iff.mpr ⟨hd, next, hn, ih hr⟩

/-- Slashes at the end of a path ask for a directory and lead nowhere else. -/
theorem follow_empty_names {names : List Name} (hn : ∀ name ∈ names, name = [])
    (hd : names ≠ [] → fs.node? loc = some .directory) : fs.follow loc names = .ok loc := by
  induction names with
  | nil => rfl
  | cons name rest ih =>
    obtain rfl := hn name List.mem_cons_self
    have hloc := hd (List.cons_ne_nil _ _)
    exact follow_cons_eq_ok_iff.mpr
      ⟨hloc, loc, rfl, ih (fun name hm => hn name (List.mem_cons_of_mem _ hm)) fun _ => hloc⟩

/-- A path is its last name between the pieces before it and the slashes after it. -/
theorem pieces_eq_of_name {pieces : List Name}
    (hn : (pieces.reverse.dropWhile (· == [])).headD [] ≠ []) :
    ∃ slashes : List Name, (∀ piece ∈ slashes, piece = []) ∧
      pieces = ((pieces.reverse.dropWhile (· == [])).drop 1).reverse ++
        (pieces.reverse.dropWhile (· == [])).headD [] :: slashes := by
  refine ⟨(pieces.reverse.takeWhile (· == [])).reverse, ?_, ?_⟩
  · intro piece hm
    have hall := List.all_eq_true.mp List.all_takeWhile piece (List.mem_reverse.mp hm)
    simpa using hall
  · have hsplit := congrArg List.reverse
      (List.takeWhile_append_dropWhile (p := (· == [])) (l := pieces.reverse))
    cases hd : pieces.reverse.dropWhile (· == []) with
    | nil =>
      rw [hd] at hn
      exact absurd rfl hn
    | cons last before =>
      rw [hd] at hsplit
      simpa using hsplit.symm

theorem place_eq_ok {place : Place} (h : fs.place p = .ok place) :
    checkPath p = .ok () ∧ fs.node? place.directory = some .directory ∧
      fs.follow (fs.startOf p) ((p.pieces.reverse.dropWhile (· == [])).drop 1).reverse =
        .ok place.directory ∧
      place.name = (p.pieces.reverse.dropWhile (· == [])).headD [] ∧
      place.slashed = (p.pieces.getLastD [] == [] && p.pieces.length > 1) := by
  simp only [Files.place, bind, Except.bind] at h
  split at h
  · cases h
  · rename_i hc
    split at h
    · cases h
    · rename_i directory hf
      split at h
      · cases h
      · rename_i hd
        obtain rfl := Except.ok.inj h
        exact ⟨hc, requireDirectory_eq_ok_iff.mp hd, hf, rfl, rfl⟩

/-- A path that a new name can be put at leads there, also once there are more directories. One
with a slash at its end leads there if a directory has been put there. -/
theorem locate_place {place : Place} (h : fs.place p = .ok place) (hr : place.isReserved = false)
    (hl : place.name.length ≤ nameLimit) (hw : fs'.workingDir = fs.workingDir)
    (hm : ∀ loc, fs.node? loc = some .directory → fs'.node? loc = some .directory)
    (hs : place.slashed = true → fs'.node? (place.directory ++ [place.name]) = some .directory) :
    fs'.locate p = .ok (place.directory ++ [place.name]) := by
  obtain ⟨hc, hd, hf, hn, hz⟩ := place_eq_ok h
  obtain ⟨hi, ha⟩ := Bool.or_eq_false_iff.mp hr
  have hname : (p.pieces.reverse.dropWhile (· == [])).headD [] ≠ [] := by
    rw [← hn]
    rintro he
    simp [he, Path.isIdle] at hi
  obtain ⟨slashes, hslashes, hp⟩ := pieces_eq_of_name hname
  rw [← hn] at hp
  have he : enter place.directory place.name = .ok (place.directory ++ [place.name]) := by
    rw [enter, if_neg (by simp [hi]), if_neg (by simpa using ha), if_neg (by omega)]
  have hend : slashes ≠ [] → fs'.node? (place.directory ++ [place.name]) = some .directory := by
    intro hne
    obtain ⟨before, last, rfl⟩ := slashes.eq_nil_or_concat.resolve_left hne
    obtain rfl := hslashes last (by simp)
    refine hs ?_
    generalize ((p.pieces.reverse.dropWhile (· == [])).drop 1).reverse = lead at hp
    rw [hz, hp, List.concat_eq_append, ← List.cons_append, ← List.append_assoc,
      List.getLastD_concat]
    simp
    omega
  have hlast : fs'.follow place.directory (place.name :: slashes) =
      .ok (place.directory ++ [place.name]) :=
    follow_cons_eq_ok_iff.mpr ⟨hm _ hd, _, he, follow_empty_names hslashes hend⟩
  simp only [locate, hc, bind, Except.bind]
  rw [startOf, hw, ← startOf, hp]
  exact follow_append (follow_mono hm hf) hlast

/-- What opening a path for writing does: it leaves an empty file where the path leads. -/
theorem create_eq_ok (h : fs.create p = .ok (loc, fs')) : fs.locate p = .ok loc ∧ loc ≠ [] ∧
    fs.node? loc ≠ some .directory ∧ ∃ executable, fs' = fs.put loc (.file [] executable) := by
  simp only [create, bind, Except.bind] at h
  split at h
  · cases h
  · rename_i place hp
    split at h
    · cases h
    · rename_i hr
      split at h
      · cases h
      · rename_i hl
        have hlocate := locate_place hp (by simp_all) (by omega) rfl (fun _ => id) (by simp_all)
        have hne : place.directory ++ [place.name] ≠ [] := by simp
        split at h
        · cases h
        · rename_i content executable hnode
          cases h
          exact ⟨hlocate, hne, by simp [hnode], executable, rfl⟩
        · rename_i hnode
          cases h
          exact ⟨hlocate, hne, by simp [hnode], false, rfl⟩

theorem find?_eq_ok_iff {node : Node} :
    fs.find? p = .ok (loc, node) ↔ fs.locate p = .ok loc ∧ fs.node? loc = some node := by
  simp only [find?, bind, Except.bind]
  cases fs.locate p with
  | error e => simp
  | ok place => cases hn : fs.node? place <;> grind

theorem read_eq_ok_iff {content : List UInt8} : fs.read p = .ok content ↔
    ∃ loc executable, fs.locate p = .ok loc ∧ fs.node? loc = some (.file content executable) := by
  simp only [read, bind, Except.bind, ← find?_eq_ok_iff]
  cases fs.find? p with
  | error e => simp
  | ok found =>
    obtain ⟨loc, node⟩ := found
    cases node <;> simp

/-- A store in which all directories remain leads paths to the same places. -/
theorem locate_mono (hw : fs'.workingDir = fs.workingDir)
    (hd : ∀ loc, fs.node? loc = some .directory → fs'.node? loc = some .directory)
    (h : fs.locate p = .ok loc) : fs'.locate p = .ok loc := by
  simp only [locate, startOf, bind, Except.bind] at h ⊢
  rw [hw]
  split at h
  · cases h
  · exact follow_mono hd h

/-- Why a path cannot be opened for writing: it is unusable or its directory is missing, it leads to
a directory, or its name is too long. -/
inductive CreateFault (fs : Files) (p : Path) : IoError → Prop where
  | noPlace {e : IoError} (h : fs.place p = .error e) : CreateFault fs p e
  | directory {place : Place} (hp : fs.place p = .ok place)
      (h : place.isReserved = true ∨ place.slashed = true ∨ place.name.length ≤ nameLimit ∧
        fs.node? (place.directory ++ [place.name]) = some .directory) :
      CreateFault fs p .isADirectory
  | longName {place : Place} (hp : fs.place p = .ok place) (hr : place.isReserved = false)
      (hs : place.slashed = false) (h : nameLimit < place.name.length) :
      CreateFault fs p .nameTooLong

theorem create_eq_error_iff {e : IoError} : fs.create p = .error e ↔ CreateFault fs p e := by
  constructor
  · intro h
    simp only [create, bind, Except.bind] at h
    split at h
    · rename_i hp
      cases h
      exact .noPlace hp
    · rename_i place hp
      split at h
      · rename_i hr
        cases h
        rcases Bool.or_eq_true_iff.mp hr with hr | hr
        · exact .directory hp (.inl hr)
        · exact .directory hp (.inr (.inl hr))
      · rename_i hr
        obtain ⟨hr, hs⟩ := Bool.or_eq_false_iff.mp (Bool.not_eq_true _ ▸ hr)
        split at h
        · rename_i hl
          cases h
          exact .longName hp hr hs hl
        · rename_i hl
          split at h
          · rename_i hd
            cases h
            exact .directory hp (.inr (.inr ⟨by omega, hd⟩))
          · cases h
          · cases h
  · rintro (hp | ⟨hp, hr | hs | ⟨hl, hd⟩⟩ | ⟨hp, hr, hs, hl⟩) <;>
      simp only [create, hp, bind, Except.bind]
    · simp [hr]
    · simp [hs]
    · simp only [hd]
      split
      · rfl
      · rw [if_neg (by omega)]
    · simp [hr, hs, hl]

end TraceViewer.Files
